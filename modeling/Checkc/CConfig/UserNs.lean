import Checkc.CConfig.Config
import Checkc.CConfig.Hierarchy
import Mathlib.Order.Interval.Set.Basic

/-! # User namespace mappings

The id maps of a process and the search for another user namespace that maps the same users
of the host. The ends of the ranges are computed with 32 bits, so that the test for an overlap
is exact only if they fit.
-/

namespace Checkc

open Outcome (bind_eq_ok pure_eq_ok)

/-- `get_pid_list`. `create_hierarchy` repeats this code. -/
def getPidList (procDir : Ns.ProcDir) : Result (List PidT) := Ns.procPids procDir

/-- The addition of `u32`, in a build with or without overflow checks. -/
def addU32 (checks : Bool) (a b : UInt32) : Result UInt32 :=
  if checks ∧ UInt32.size ≤ a.toNat + b.toNat then .panic "attempt to add with overflow"
  else pure (a + b)

namespace IdMapping

/-- `str::parse::<u32>`, with the error that `try_from` makes of a failure. -/
def parseNumber (s : List Char) : Result UInt32 :=
  match fromStrRadix 10 (UInt32.size - 1) s with
  | .error e => .err (.conversionFailed s!"parse error: {e.message}")
  | .ok n => pure (UInt32.ofNat n)

/-- `IdMapping::try_from`. -/
def tryFrom (value : String) : Result IdMapping :=
  let value := value.toList.map fun c => if c = '\t' then ' ' else c
  match splitAsciiWhitespace value with
  | [current, parent, range] => do
    let current ← parseNumber current
    let parent ← parseNumber parent
    let range ← parseNumber range
    pure { current, parent, range }
  | _ => .err (.conversionFailed "invalid id_map content")

/-- The files `uid_map` and `gid_map` of a process. -/
structure Files where
  uidMap : Except Errno Lines
  gidMap : Except Errno Lines

/-- The entries of an id map. A line that is no text is dropped. -/
def parseLines (lines : Lines) : Result (List IdMapping) := do
  let entries ← (lines.answers.filterMap Except.toOption).mapM fun line => unwrapOk (tryFrom line)
  -- the iterator goes on after an error, so that it does not end while each read fails
  if lines.ends then pure entries else .outOfFuel

/-- `IdMapping::from_pid`. -/
def fromPid (files : PidT → Files) (pid : PidT) : Result (List IdMapping × List IdMapping) := do
  let uidMap ← mapIoError s!"/proc/{pid}/uid_map" (files pid).uidMap
  let gidMap ← mapIoError s!"/proc/{pid}/gid_map" (files pid).gidMap
  let uidMapping ← parseLines uidMap
  let gidMapping ← parseLines gidMap
  pure (uidMapping, gidMapping)

/-- The test in `unique_mapping` whether two entries share a user of the host. -/
def overlaps (checks : Bool) (processEntry entry : IdMapping) : Result Bool := do
  let processEnd ← addU32 checks processEntry.parent processEntry.range
  if processEnd ≤ entry.parent then pure false
  else do
    let entryEnd ← addU32 checks entry.parent entry.range
    pure (!decide (entryEnd ≤ processEntry.parent))

end IdMapping

namespace UserNs

section

variable (checks : Bool) (k : Ns.Kernel) (files : PidT → IdMapping.Files)
  (userNs initUserNs : Ns.Info) (uidMapping : List IdMapping)

/-- The body of the loop of `unique_mapping`: the process maps some user of the container. -/
def sharesMapping (process : PidT) : Result Bool := do
  match ← Ns.keepOk (Ns.Info.infoByNsType k process .user) with
  | none => pure false
  | some processUserNs =>
    -- exclude the mapping of the initial user namespace
    if processUserNs.id ≠ userNs.id ∧ processUserNs.owner = initUserNs.id ∧
        processUserNs.id ≠ initUserNs.id then do
      let (processUidMap, _) ← IdMapping.fromPid files process
      processUidMap.anyM fun processEntry =>
        uidMapping.anyM (IdMapping.overlaps checks processEntry)
    else pure false

end

/-- `unique_mapping`. -/
def uniqueMapping (checks : Bool) (k : Ns.Kernel) (files : PidT → IdMapping.Files)
    (procDir : Ns.ProcDir) (pid : PidT) : Result Bool := do
  let userNs ← Ns.Info.infoByNsType k pid .user
  let (uidMapping, _) ← IdMapping.fromPid files pid
  let initUserNs ← Ns.Info.infoByNsType k 1 .user
  let pids ← unwrapOk (getPidList procDir)
  let shared ← (pids.filter (· ≠ pid)).anyM
    (sharesMapping checks k files userNs initUserNs uidMapping)
  pure !shared

/-- `user_ns_config`. -/
def userNsConfig (checks : Bool) (k : Ns.Kernel) (files : PidT → IdMapping.Files)
    (procDir : Ns.ProcDir) (pid : PidT) : Result UserNs.Config := do
  let (uidMap, gidMap) ← IdMapping.fromPid files pid
  let uniqueMapping ← uniqueMapping checks k files procDir pid
  pure { uidMap, gidMap, uniqueMapping }

end UserNs

/-! ## Lines of an id map -/

namespace IdMapping

/-- A number of an id map, as the kernel prints it with `%10u`. -/
def column (n : UInt32) : List Char := (Nat.toDigits 10 n.toNat).leftpad 10 ' '

/-- The line that the kernel prints for an entry of an id map. -/
def line (m : IdMapping) : String :=
  String.ofList (column m.current ++ ' ' :: (column m.parent ++ ' ' :: column m.range))

theorem splitAsciiWhitespace_column (n : UInt32) :
    splitAsciiWhitespace (column n) = [Nat.toDigits 10 n.toNat] := by
  rw [column, List.leftpad, splitAsciiWhitespace_replicate rfl,
    splitAsciiWhitespace_toDigits (by decide) (by decide)]

theorem tab_not_mem_column (n : UInt32) : '\t' ∉ column n := by
  rw [column, List.leftpad, List.mem_append, not_or]
  refine ⟨fun h => by simpa using (List.mem_replicate.mp h).2, ?_⟩
  exact not_mem_toDigits (by decide) (by decide) (by decide)

theorem parseNumber_toDigits (n : UInt32) : parseNumber (Nat.toDigits 10 n.toNat) = .ok n := by
  have hn : n.toNat ≤ UInt32.size - 1 := Nat.le_sub_one_of_lt n.toNat_lt_size
  have h : fromStrRadix 10 (UInt32.size - 1) (Nat.toDigits 10 n.toNat) = .ok n.toNat :=
    fromStrRadix_toDigits (by decide) (by decide) hn 0
  rw [parseNumber, h]
  simp

/-- Whatever numbers an entry has, its line is read back. -/
theorem tryFrom_line (m : IdMapping) : tryFrom m.line = .ok m := by
  have hmap : ∀ l : List Char, '\t' ∉ l → l.map (fun c => if c = '\t' then ' ' else c) = l := by
    intro l hl
    refine (List.map_congr_left fun c hc => if_neg ?_).trans (List.map_id l)
    rintro rfl
    exact hl hc
  have ht : '\t' ∉ m.line.toList := by
    simp [line, tab_not_mem_column]
  simp only [tryFrom]
  rw [hmap _ ht, line, String.toList_ofList, splitAsciiWhitespace_append rfl,
    splitAsciiWhitespace_append rfl]
  simp only [splitAsciiWhitespace_column, List.singleton_append, parseNumber_toDigits,
    Outcome.ok_bind]
  rfl

/-! ## Ranges of users -/

/-- The users of the host to which an entry maps. -/
def hostRange (m : IdMapping) : Set ℕ := Set.Ico m.parent.toNat (m.parent.toNat + m.range.toNat)

/-- The end of the range of an entry is a number of 32 bits. -/
def Fits (m : IdMapping) : Prop := m.parent.toNat + m.range.toNat < UInt32.size

/-- The test in `unique_mapping` with natural numbers. -/
def overlapsNat (processEntry entry : IdMapping) : Bool :=
  !(decide (processEntry.parent.toNat + processEntry.range.toNat ≤ entry.parent.toNat) ||
    decide (entry.parent.toNat + entry.range.toNat ≤ processEntry.parent.toNat))

theorem overlapsNat_iff {p e : IdMapping} (hp : 0 < p.range.toNat) (he : 0 < e.range.toNat) :
    overlapsNat p e = true ↔ (p.hostRange ∩ e.hostRange).Nonempty := by
  rw [hostRange, hostRange, Set.Ico_inter_Ico, Set.nonempty_Ico, overlapsNat]
  simp only [Bool.not_eq_true', Bool.or_eq_false_iff, decide_eq_false_iff_not]
  omega

theorem addU32_of_lt {checks : Bool} {a b : UInt32} (h : a.toNat + b.toNat < UInt32.size) :
    addU32 checks a b = .ok (a + b) := by
  rw [addU32, if_neg fun hc => absurd hc.2 (by omega)]
  rfl

theorem addU32_checks {a b c : UInt32} (h : addU32 true a b = .ok c) :
    a.toNat + b.toNat < UInt32.size := by
  unfold addU32 at h
  split_ifs at h with hc
  simpa using hc

theorem end_le_iff {m : IdMapping} (h : m.Fits) {n : UInt32} :
    m.parent + m.range ≤ n ↔ m.parent.toNat + m.range.toNat ≤ n.toNat := by
  have hend : (m.parent + m.range).toNat = m.parent.toNat + m.range.toNat := by
    rw [UInt32.toNat_add]
    exact Nat.mod_eq_of_lt h
  rw [UInt32.le_iff_toNat_le, hend]

/-- If the ends that are computed fit, then the test is the one of natural numbers. -/
theorem overlaps_of_fits {p e : IdMapping} (checks : Bool) (hp : p.Fits)
    (he : e.parent.toNat < p.parent.toNat + p.range.toNat → e.Fits) :
    overlaps checks p e = .ok (overlapsNat p e) := by
  simp only [overlaps, addU32_of_lt hp, Outcome.ok_bind, end_le_iff hp, overlapsNat]
  split_ifs with h
  · simp [h]
  · have he := he (by omega)
    simp only [addU32_of_lt he, Outcome.ok_bind, end_le_iff he, h]
    rfl

/-- Whether the ends fit is left open by the parser, and decides whether the test is exact. -/
theorem overlaps_exact_iff (p e : IdMapping) :
    tryFrom p.line = .ok p ∧ tryFrom e.line = .ok e ∧
      ((∀ checks, overlaps checks p e = .ok (overlapsNat p e)) ↔
        p.Fits ∧ (e.parent.toNat < p.parent.toNat + p.range.toNat → e.Fits)) := by
  refine ⟨tryFrom_line p, tryFrom_line e, fun h => ?_, fun h checks =>
    overlaps_of_fits checks h.1 h.2⟩
  -- a build that checks additions panics when an end does not fit
  have hc := h true
  simp only [overlaps, bind_eq_ok] at hc
  obtain ⟨processEnd, hadd, hc⟩ := hc
  have hp : p.Fits := addU32_checks hadd
  refine ⟨hp, fun hlt => ?_⟩
  obtain rfl := Outcome.ok_unique (addU32_of_lt hp) hadd
  rw [if_neg (by rw [end_le_iff hp]; omega), bind_eq_ok] at hc
  obtain ⟨entryEnd, hadd', -⟩ := hc
  exact addU32_checks hadd'

/-- A user that is not mapped in the namespace of the reader is printed as the largest number.
An entry for it overlaps with itself, and the end of its range does not fit. -/
theorem overlaps_unmapped :
    let m : IdMapping := ⟨0, 4294967295, 1⟩
    tryFrom "         0 4294967295          1" = .ok m ∧ overlapsNat m m = true ∧
      overlaps true m m = .panic "attempt to add with overflow" ∧
      overlaps false m m = .ok false := by
  refine ⟨by decide +kernel, by decide, by decide, by decide⟩

/-- The entries are read back from their lines, if the file ends after them. -/
theorem parseLines_line (entries : List IdMapping) (ends : Bool) :
    parseLines ⟨entries.map fun m => .ok m.line, ends⟩ =
      if ends then .ok entries else .outOfFuel := by
  have hl : (entries.map fun m => (.ok m.line : Except Errno String)).filterMap Except.toOption =
      entries.map line := by
    rw [List.filterMap_map]
    exact congrFun List.filterMap_eq_map entries
  have hentries : (entries.map line).mapM (fun l => unwrapOk (tryFrom l)) = .ok entries := by
    clear hl
    induction entries with
    | nil => rfl
    | cons m entries ih =>
      rw [List.map_cons, List.mapM_cons, tryFrom_line, ih]
      rfl
  simp only [parseLines, hl, hentries, Outcome.ok_bind]
  rfl

end IdMapping

/-! ## Unique mappings -/

namespace UserNs

variable {checks : Bool} {k : Ns.Kernel} {files : PidT → IdMapping.Files}
  {idOf owner : PidT → Ns.Id} {uidMap : PidT → List IdMapping} {pid q : PidT}

/-- The lookups for a process succeed, with these answers. -/
structure Answers (k : Ns.Kernel) (files : PidT → IdMapping.Files) (pid : PidT) (id owner : Ns.Id)
    (uidMap : List IdMapping) : Prop where
  id : Ns.Id.fromType k pid .user = .ok id
  owner : Ns.nsGetOwnerUserNs k pid .user = .ok owner
  uidMap : ∃ gidMap, IdMapping.fromPid files pid = .ok (uidMap, gidMap)

/-- What the kernel guarantees of the entries of an id map. -/
structure Mapped (m : IdMapping) : Prop where
  range : 0 < m.range.toNat
  fits : m.Fits

/-- The process lives below the initial user namespace in another namespace than the container
and maps a user of the container. -/
def Shares (idOf owner : PidT → Ns.Id) (uidMap : PidT → List IdMapping) (pid q : PidT) : Prop :=
  idOf q ≠ idOf pid ∧ idOf q ≠ idOf 1 ∧ owner q = idOf 1 ∧
    ∃ m ∈ uidMap q, ∃ m' ∈ uidMap pid, (m.hostRange ∩ m'.hostRange).Nonempty

theorem infoByNsType_of_answers (h : Answers k files q (idOf q) (owner q) (uidMap q)) :
    Ns.Info.infoByNsType k q .user =
      .ok ⟨ProtoEnum.toI32 NsType.user, some (idOf q), some (owner q)⟩ :=
  Ns.Info.infoByNsType_eq_ok.mpr ⟨_, _, h.id, h.owner, rfl⟩

theorem anyM_overlaps {p : IdMapping} {entries : List IdMapping} (hp : Mapped p)
    (he : ∀ e ∈ entries, Mapped e) :
    entries.anyM (IdMapping.overlaps checks p) = .ok (entries.any (p.overlapsNat ·)) :=
  anyM_eq_ok fun e h => IdMapping.overlaps_of_fits checks hp.fits fun _ => (he e h).fits

variable (checks) in
/-- The two loops over the entries decide whether some of them share a user of the host. -/
theorem exists_anyM_overlaps {entries entries' : List IdMapping} (h : ∀ m ∈ entries, Mapped m)
    (h' : ∀ m ∈ entries', Mapped m) : ∃ b,
      entries.anyM (fun m => entries'.anyM (IdMapping.overlaps checks m)) = .ok b ∧
        (b = true ↔ ∃ m ∈ entries, ∃ m' ∈ entries', (m.hostRange ∩ m'.hostRange).Nonempty) := by
  refine ⟨_, anyM_eq_ok fun m hm => anyM_overlaps (h m hm) h', ?_⟩
  simp only [List.any_eq_true]
  refine exists_congr fun m => and_congr_right fun hm => exists_congr fun m' =>
    and_congr_right fun hm' => ?_
  exact IdMapping.overlapsNat_iff (h m hm).range (h' m' hm').range

open Classical in
/-- The body of the loop decides whether the process maps a user of the container. -/
theorem sharesMapping_eq_ok {initOwner : Ns.Id}
    (hq : Answers k files q (idOf q) (owner q) (uidMap q))
    (hm : ∀ m ∈ uidMap pid, Mapped m) (hmq : ∀ m ∈ uidMap q, Mapped m) :
    sharesMapping checks k files
        ⟨ProtoEnum.toI32 NsType.user, some (idOf pid), some (owner pid)⟩
        ⟨ProtoEnum.toI32 NsType.user, some (idOf 1), some initOwner⟩ (uidMap pid) q =
      .ok (decide (Shares idOf owner uidMap pid q)) := by
  obtain ⟨gidMap, hmap⟩ := hq.uidMap
  obtain ⟨b, hany, hiff⟩ := exists_anyM_overlaps checks hmq hm
  simp only [sharesMapping, infoByNsType_of_answers hq, Ns.keepOk, Outcome.ok_bind, hmap, hany,
    Option.some.injEq, Ne]
  split_ifs with h
  · rw [Bool.eq_iff_iff.mpr (hiff.trans decide_eq_true_iff.symm)]
    simp [Shares, h.1, h.2.1, h.2.2]
  · rw [decide_eq_false fun hs : Shares idOf owner uidMap pid q => h ⟨hs.1, hs.2.2.1, hs.2.1⟩]
    rfl

/-- The mapping of a container is unique exactly when no other process below the initial user
namespace maps one of its users, wherever the processes are listed. -/
theorem uniqueMapping_iff (checks : Bool) {procDir : Ns.ProcDir} {pids : List PidT}
    {initOwner : Ns.Id} (hpids : getPidList procDir = .ok pids)
    (hinit : Ns.Id.fromType k 1 .user = .ok (idOf 1))
    (hinitOwner : Ns.nsGetOwnerUserNs k 1 .user = .ok initOwner)
    (h : ∀ q ∈ pid :: pids, Answers k files q (idOf q) (owner q) (uidMap q))
    (hmapped : ∀ q ∈ pid :: pids, ∀ m ∈ uidMap q, Mapped m) :
    ∃ b, uniqueMapping checks k files procDir pid = .ok b ∧
      (b = true ↔ ¬ ∃ q ∈ pids, q ≠ pid ∧ idOf q ≠ idOf pid ∧ idOf q ≠ idOf 1 ∧
        owner q = idOf 1 ∧ ∃ m ∈ uidMap q, ∃ m' ∈ uidMap pid,
          (m.hostRange ∩ m'.hostRange).Nonempty) := by
  classical
  have hpid := h pid List.mem_cons_self
  obtain ⟨gidMap, hmap⟩ := hpid.uidMap
  have hinfo := Ns.Info.infoByNsType_eq_ok.mpr ⟨_, _, hinit, hinitOwner, rfl⟩
  have hshares : ∀ q ∈ pids.filter (· ≠ pid), sharesMapping checks k files
      ⟨ProtoEnum.toI32 NsType.user, some (idOf pid), some (owner pid)⟩
      ⟨ProtoEnum.toI32 NsType.user, some (idOf 1), some initOwner⟩ (uidMap pid) q =
        .ok (decide (Shares idOf owner uidMap pid q)) := by
    intro q hq
    have hq : q ∈ pid :: pids := List.mem_cons_of_mem _ (List.mem_filter.mp hq).1
    exact sharesMapping_eq_ok (h q hq) (hmapped pid List.mem_cons_self) (hmapped q hq)
  refine ⟨!(pids.filter (· ≠ pid)).any fun q => decide (Shares idOf owner uidMap pid q), ?_, ?_⟩
  · simp only [uniqueMapping, infoByNsType_of_answers hpid, hmap, hinfo, hpids, unwrapOk,
      Outcome.ok_bind, anyM_eq_ok hshares]
    rfl
  · rw [Bool.not_eq_true', ← Bool.not_eq_true, List.any_eq_true]
    refine not_congr (exists_congr fun q => ?_)
    simp only [List.mem_filter, decide_eq_true_eq, and_assoc]
    rfl

/-! ### Containers in user namespaces of their own -/

/-- Each process has the namespaces with its number, and those of the host process `1` own
all others. -/
def kernelOfContainers : Ns.Kernel where
  ofType pid _ := { openNs := .ok (), metadata := .ok ⟨4, UInt64.ofNat pid.toNat⟩ }
  owner _ _ :=
    { openNs := .ok ()
      getUserns := .ok ()
      fstat := .ok ⟨4, 1⟩
      ownerMetadata := .ok ⟨4, 1⟩ }
  parent _ _ :=
    { openNs := .ok ()
      fstat _ := .ok ⟨4, 1⟩
      getParent _ := .error .EPERM }

/-- The last user of the container `2` is the first one of a range of the container `3`. -/
def mapsOfContainers (pid : PidT) : List IdMapping :=
  if pid = 1 then [⟨0, 0, 4294967295⟩]
  else if pid = 2 then [⟨0, 100000, 65536⟩]
  else [⟨0, 1000, 1⟩, ⟨1, 165535, 65536⟩]

def filesOfContainers (pid : PidT) : IdMapping.Files where
  uidMap := .ok ⟨(mapsOfContainers pid).map fun m => .ok m.line, true⟩
  gidMap := .ok ⟨[], true⟩

theorem answers_ofContainers (pid : PidT) : Answers kernelOfContainers filesOfContainers pid
    ⟨4, UInt64.ofNat pid.toNat⟩ ⟨4, 1⟩ (mapsOfContainers pid) where
  id := rfl
  owner := rfl
  uidMap := ⟨[], by
    simp only [IdMapping.fromPid, filesOfContainers, mapIoError, Outcome.ok_bind,
      IdMapping.parseLines_line]
    rfl⟩

theorem mapped_ofContainers : ∀ q ∈ ([2, 3, 1, 2] : List PidT), ∀ m ∈ mapsOfContainers q,
    Mapped m := by
  have h : ∀ q ∈ ([2, 3, 1, 2] : List PidT), ∀ m ∈ mapsOfContainers q,
      0 < m.range.toNat ∧ m.parent.toNat + m.range.toNat < UInt32.size := by decide
  exact fun q hq m hm => ⟨(h q hq m hm).1, (h q hq m hm).2⟩

theorem uniqueMapping_iff_ofContainers :
    uniqueMapping true kernelOfContainers filesOfContainers
      (.ok [.ok ⟨some "3", true⟩, .ok ⟨some "1", true⟩, .ok ⟨some "2", true⟩]) 2 = .ok false := by
  have hpids : getPidList (.ok [.ok ⟨some "3", true⟩, .ok ⟨some "1", true⟩, .ok ⟨some "2", true⟩]) =
      .ok [3, 1, 2] := by decide
  obtain ⟨b, hb, hiff⟩ := uniqueMapping_iff true hpids rfl rfl (fun q _ => answers_ofContainers q)
    mapped_ofContainers
  have hshared : b ≠ true := by
    rw [ne_eq, hiff, not_not]
    refine ⟨3, by decide, by decide, by decide, by decide, rfl, ⟨1, 165535, 65536⟩, by decide,
      ⟨0, 100000, 65536⟩, by decide, 165535, ?_⟩
    exact ⟨⟨by decide, by decide⟩, ⟨by decide, by decide⟩⟩
  rw [hb, Bool.eq_false_iff.mpr hshared]

end UserNs
end Checkc
