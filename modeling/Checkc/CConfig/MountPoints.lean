import Checkc.CConfig.MountInfos
import Checkc.Kernel.Escape

/-! # Flag files on mount points

The run in the container writes a flag file to each mount point, and the run on the host searches
the mount points of the host for them. Both read the path of a mount point from its entry, where
the kernel has escaped some of its letters, and use what they read as it is.
-/

namespace Checkc

open Outcome (bind_eq_ok pure_eq_ok)

open Regex

namespace Fs

/-- `FLAG_BASE_NAME`. -/
def flagBaseName : String := "xyz_checkc_flag"

/-- `FLAG_SKIP_FS`. -/
def flagSkipFs : List String := ["devtmpfs", "proc", "sysfs", "devpts", "cgroup", "cgroup2"]

/-! ## The run in the container -/

/-- What the system does with a flag file: it is a regular file already, or it is created, or
creating it fails. -/
inductive FlagAnswer where
  | isFile | created | failed
  deriving DecidableEq, Repr

/-- The path of the flag file on the mount point of an entry, unless its file system is to be
skipped. -/
def flagPath (flagFile mp : String) : Result (Option String) :=
  match search regexMountinfo mp.toList with
  | none => .err (.valueError s!"Failed to parse mountinfo from mount point {mp}" mp "")
  | some matched => do
    let fsType ← unwrap (matched.get "fs_type")
    if String.ofList fsType ∈ flagSkipFs then pure none
    else do
      let mountpoint ← unwrap (matched.get "mountpoint")
      pure (some s!"{String.ofList mountpoint}/{flagFile}")

section

variable (os : List String → String → FlagAnswer) (flagFile : String)

/-- Write a flag file to the mount point of an entry. The state has the paths that were tried and
those of the created files, and the system answers as it has come to by the former. -/
def writeFlag (s : List String × List String) (mp : String) :
    Result (List String × List String) := do
  match ← flagPath flagFile mp with
  | none => pure s
  | some path =>
    match os s.1 path with
    | .isFile => pure s
    | .created => pure (s.1 ++ [path], s.2 ++ [path])
    | .failed => pure (s.1 ++ [path], s.2)

/-- Write the flag files of a mount namespace. -/
def writeFlags (s : List String × List MountNamespace) (mountns : MountNamespace) :
    Result (List String × List MountNamespace) := do
  let (tried, flagFiles) ← mountns.mountinfo.foldlM (writeFlag os flagFile) (s.1, mountns.flagFiles)
  pure (tried, s.2 ++ [{ mountns with flagFiles }])

end

/-- `process_mountpoints_container`, with the paths at which it tried to create a file. -/
def processMountpointsContainer (procDir : Ns.ProcDir) (answers : ℕ → Answers)
    (os : List String → String → FlagAnswer) (uuid : String) :
    Result (List String × List MountNamespace) := do
  let mountNamespaces ← getMountinfos procDir answers none
  mountNamespaces.foldlM (writeFlags os s!"{flagBaseName}_{uuid}") ([], [])

/-! ## The run on the host -/

/-- What the system answers in the run on the host: opening and reading the command line of a
process, joining its mount namespace, and the paths of the flag files that a search of a location
finds after that, with the location itself. -/
structure HostAnswers where
  cmdline : PidT → Except Errno (Except Errno String)
  join : PidT → Except Errno Unit
  search : PidT → String → List String

/-- The location that is searched for flag files. -/
def searchLocation (mp : String) : Result String :=
  match search regexMountinfo mp.toList with
  | none => .err (.valueError "Failed to parse mountinfo from entry" mp "")
  | some matched => do
    let mountpoint ← unwrap (matched.get "mountpoint")
    pure (String.ofList mountpoint)

section

variable (host : HostAnswers)

/-- Search the mount point of an entry. -/
def searchFlags (pid : PidT) (flagFiles : List String) (mp : String) : Result (List String) := do
  let location ← searchLocation mp
  pure (addLines flagFiles ((host.search pid location).filter (· ≠ location)))

/-- Search a mount namespace by way of one of its processes, unless the process is gone or a
kernel thread. -/
def searchWith (mountns : MountNamespace) (pid : PidT) : Result (Option (List String)) :=
  match host.cmdline pid with
  | .error _ => pure none
  | .ok content => do
    let cmdline ← mapIoError s!"/proc/{pid}/cmdline" content
    if cmdline.isEmpty then pure none
    else
      match host.join pid with
      | .error _ => pure none
      | .ok () => do
        let flagFiles ← mountns.mountinfo.foldlM (searchFlags host pid) mountns.flagFiles
        pure (some flagFiles)

/-- Search a mount namespace by way of the first of its processes with which this works. -/
def searchNamespace (mountns : MountNamespace) : List PidT → Result MountNamespace
  | [] => pure mountns
  | pid :: pids => do
    match ← searchWith host mountns pid with
    | none => searchNamespace mountns pids
    | some flagFiles => pure { mountns with flagFiles }

end

/-- `process_mountpoints_host`. -/
def processMountpointsHost (procDir : Ns.ProcDir) (answers : ℕ → Answers) (host : HostAnswers)
    (pidCfg : Option (List PidT × Bool)) : Result (List MountNamespace) := do
  let protoFsConfig ← getMountinfos procDir answers pidCfg
  protoFsConfig.mapM fun mountns => searchNamespace host mountns mountns.nsPids

/-! ## Paths of a run -/

theorem of_mem_writeFlag {os : List String → String → FlagAnswer} {flagFile mp path : String}
    {s r : List String × List String} (h : writeFlag os flagFile s mp = .ok r)
    (hp : path ∈ r.1) : path ∈ s.1 ∨ flagPath flagFile mp = .ok (some path) := by
  simp only [writeFlag, bind_eq_ok] at h
  obtain ⟨o, ho, h⟩ := h
  cases o with
  | none =>
    obtain rfl := pure_eq_ok.mp h
    exact Or.inl hp
  | some flag =>
    have htried : r.1 = s.1 ∨ r.1 = s.1 ++ [flag] := by
      cases hos : os s.1 flag <;> simp only [hos, pure_eq_ok] at h <;> simp [← h]
    rcases htried with he | he
    · exact Or.inl (he ▸ hp)
    · rw [he, List.mem_append, List.mem_singleton] at hp
      apply hp.imp_right
      intro hp
      rw [hp]
      exact ho

theorem of_mem_writeFlags {os : List String → String → FlagAnswer} {flagFile path : String}
    {mountns : MountNamespace} {s r : List String × List MountNamespace}
    (h : writeFlags os flagFile s mountns = .ok r) (hp : path ∈ r.1) :
    path ∈ s.1 ∨ ∃ mp ∈ mountns.mountinfo, flagPath flagFile mp = .ok (some path) := by
  simp only [writeFlags, bind_eq_ok, pure_eq_ok] at h
  obtain ⟨⟨tried, flagFiles⟩, hr, rfl⟩ := h
  exact foldlM_adds (M := fun s => path ∈ s.1) (fun _ _ _ _ => of_mem_writeFlag) hr hp

/-- The run in the container tries to create files on the mount points of its entries only. -/
theorem of_mem_tried {procDir : Ns.ProcDir} {answers : ℕ → Answers}
    {os : List String → String → FlagAnswer} {uuid path : String} {tried : List String}
    {entries : List MountNamespace}
    (h : processMountpointsContainer procDir answers os uuid = .ok (tried, entries))
    (hp : path ∈ tried) : ∃ mountNamespaces,
      getMountinfos procDir answers none = .ok mountNamespaces ∧ ∃ mountns ∈ mountNamespaces,
        ∃ mp ∈ mountns.mountinfo, flagPath s!"{flagBaseName}_{uuid}" mp = .ok (some path) := by
  rw [processMountpointsContainer, bind_eq_ok] at h
  obtain ⟨mountNamespaces, hm, h⟩ := h
  refine ⟨mountNamespaces, hm, ?_⟩
  have hadds := foldlM_adds (M := fun s => path ∈ s.1) (fun _ _ _ _ => of_mem_writeFlags) h hp
  exact hadds.resolve_left List.not_mem_nil

end Fs

/-! ## Paths of mount points -/

/-- The code of a letter of a mount point, which follows a backslash. -/
def octalCode (c : Char) : Option (List Char) :=
  if c = ' ' then some ['0', '4', '0']
  else if c = '\t' then some ['0', '1', '1']
  else if c = '\n' then some ['0', '1', '2']
  else if c = '\\' then some ['1', '3', '4']
  else none

/-- A path as it is printed in an entry. -/
def escapePath (path : List Char) : List Char := escape '\\' octalCode path

theorem octalCode_eq_some {c : Char} {w : List Char} (h : octalCode c = some w) :
    w ≠ [] ∧ ∀ a ∈ '\\' :: w, notBlank a = true := by
  unfold octalCode at h
  split_ifs at h <;> obtain rfl := Option.some.inj h <;> simp [notBlank]

theorem octalCode_eq_none {c : Char} :
    octalCode c = none ↔ notBlank c = true ∧ c ≠ '\\' := by
  unfold octalCode notBlank
  split_ifs <;> simp_all

theorem isRun_escapePath {path : List Char} (h : path ≠ []) : IsRun notBlank (escapePath path) := by
  constructor
  · intro he
    have hlen : path.length ≤ (escapePath path).length := length_le_length_escape
    rw [he, List.length_nil, Nat.le_zero, List.length_eq_zero_iff] at hlen
    exact h hlen
  · intro a ha
    rcases mem_escape.mp ha with ⟨-, hn⟩ | ⟨c, -, w, hw, ha⟩
    · exact (octalCode_eq_none.mp hn).1
    · exact (octalCode_eq_some hw).2 a ha

/-- The path has neither white space nor a backslash. -/
def PlainPath (path : List Char) : Prop := ∀ c ∈ path, isWhitespace c = false ∧ c ≠ '\\'

theorem notBlank_of_notSpace {c : Char} (h : isWhitespace c = false) : notBlank c = true := by
  by_contra hb
  have hc : c = ' ' ∨ c = '\t' ∨ c = '\n' := by
    unfold notBlank at hb
    simp only [Bool.and_eq_true, decide_eq_true_eq] at hb
    tauto
  rcases hc with rfl | rfl | rfl <;> exact absurd h (by decide)

theorem escapePath_of_plain {path : List Char} (h : PlainPath path) : escapePath path = path :=
  escape_of_plain fun c hc => octalCode_eq_none.mpr ⟨notBlank_of_notSpace (h c hc).1, (h c hc).2⟩

theorem backslash_notMem_of_escapePath_eq {path : List Char} (h : escapePath path = path) :
    '\\' ∉ path := by
  intro hm
  have hn := (escape_eq_self_iff fun c w hw => (octalCode_eq_some hw).1).mp h _ hm
  exact (octalCode_eq_none.mp hn).2 rfl

namespace MountinfoLine

/-- The line for a mount on a path. -/
def mountedAt (l : MountinfoLine) (path : List Char) (h : path ≠ []) : MountinfoLine :=
  { l with mountPoint := ⟨escapePath path, isRun_escapePath h⟩ }

/-- The path is the one that is searched on the host, and in the container flag files are created
in it if anywhere. -/
def ActedOn (l : MountinfoLine) (path : List Char) : Prop :=
  Fs.searchLocation (String.ofList l.text) = .ok (String.ofList path) ∧
    ∀ flagFile flag, Fs.flagPath flagFile (String.ofList l.text) = .ok (some flag) →
      flag = s!"{String.ofList path}/{flagFile}"

/-- Both runs act on the path that the pattern captures. -/
theorem actedOn_iff {l : MountinfoLine} {path : List Char} : l.ActedOn path ↔
    ∃ m, search regexMountinfo l.text = some m ∧ m.get "mountpoint" = some path := by
  constructor
  · rintro ⟨h, -⟩
    rw [Fs.searchLocation, String.toList_ofList] at h
    split at h
    · cases h
    · case h_2 m hm =>
      simp only [bind_eq_ok, unwrap_eq_ok, pure_eq_ok] at h
      obtain ⟨mountpoint, hget, he⟩ := h
      obtain rfl := String.ofList_injective he
      exact ⟨m, hm, hget⟩
  · rintro ⟨m, hm, hget⟩
    constructor
    · rw [Fs.searchLocation, String.toList_ofList, hm]
      simp only [hget, unwrap_some, Outcome.ok_bind]
      rfl
    · intro flagFile flag h
      rw [Fs.flagPath, String.toList_ofList, hm] at h
      simp only [bind_eq_ok, unwrap_eq_ok] at h
      obtain ⟨fsType, -, h⟩ := h
      split_ifs at h
      · simp at h
      · simp only [hget, unwrap_some, Outcome.ok_bind, pure_eq_ok, Option.some.injEq] at h
        exact h.symm

theorem backslash_notMem_optionalWords (l : MountinfoLine) :
    ∀ w ∈ l.optionalWords, '\\' ∉ w := by
  have hn : ∀ n : Number, '\\' ∉ n.1 := fun n => n.2.notMem (by decide)
  simp only [optionalWords, List.forall_mem_append, List.forall_mem_map, List.forall_mem_singleton]
  refine ⟨fun f _ => ?_, by decide⟩
  cases f with
  | unbindable => decide
  | shared n | master n | propagateFrom n => simp [OptionalField.text, hn n]

/-- What the pattern captures as the mount point has no white space, and it has a backslash only
if it is the field of the mount point. -/
theorem captured_mountpoint {l : MountinfoLine} {m : Match} {path : List Char}
    (hm : search regexMountinfo l.text = some m) (hget : m.get "mountpoint" = some path) :
    (∀ c ∈ path, isWhitespace c = false) ∧ ('\\' ∉ path ∨ path = l.mountPoint.1) := by
  obtain ⟨pre, s, htext, hf⟩ := exists_first_of_search hm
  obtain ⟨u, t, c, rfl, hu, -, hc⟩ := first_seq_group_plus hf
  obtain ⟨x, before, after, y, rfl, hw, -, rfl⟩ := exists_aligned hu htext
  obtain rfl := Option.some.inj ((get_captures hc).1.symm.trans hget)
  refine ⟨(isRun_notSpace_iff.mp x.mountPoint_run).2, ?_⟩
  rcases mountPoint_mem_optionalWords hw with rfl | hmem
  · exact Or.inr (eq_of_words_eq hw).1
  · exact Or.inl (l.backslash_notMem_optionalWords _ hmem)

/-- A mount on a directory with a blank in its name. -/
def blankLine : MountinfoLine :=
  mountedAt
    { propagatedLine with
      optionalFields := []
      fsType := ⟨['e', 'x', 't', '4'], by decide⟩ }
    "/mnt/a b".toList (by decide)

theorem blankLine_not_actedOn :
    String.ofList blankLine.text = "36 35 98:0 / /mnt/a\\040b rw - ext4 /dev/r rw" ∧
      Fs.searchLocation (String.ofList blankLine.text) = .ok "/mnt/a\\040b" ∧
      Fs.flagPath "flag" (String.ofList blankLine.text) = .ok (some "/mnt/a\\040b/flag") ∧
      ¬ blankLine.ActedOn "/mnt/a b".toList := by
  have hloc : Fs.searchLocation (String.ofList blankLine.text) = .ok "/mnt/a\\040b" := by
    decide +kernel
  refine ⟨by decide +kernel, hloc, by decide +kernel, ?_⟩
  rintro ⟨h, -⟩
  exact absurd (hloc.symm.trans h) (by decide)

/-- The path that is acted on is the path of the mount if and only if the kernel had nothing to
escape and the pattern finds the field. -/
theorem mountedAt_actedOn_iff (l : MountinfoLine) (path : List Char) (h : path ≠ []) :
    (l.mountedAt path h).ActedOn path ↔ PlainPath path ∧ l.Readable := by
  rw [actedOn_iff]
  constructor
  · rintro ⟨m, hm, hget⟩
    obtain ⟨hspace, hback⟩ := captured_mountpoint hm hget
    have hback : '\\' ∉ path := hback.elim id fun he => backslash_notMem_of_escapePath_eq he.symm
    have hplain : PlainPath path := fun c hc => ⟨hspace c hc, fun he => hback (he ▸ hc)⟩
    have hfield : (l.mountedAt path h).mountPoint.1 = path := escapePath_of_plain hplain
    obtain ⟨hl, -⟩ := located_of_search hm (hfield.symm ▸ hget)
    exact ⟨hplain, ⟨hl.optionalFields, hl.root, hl.mountOptions, hl.fsType⟩⟩
  · rintro ⟨hplain, hr⟩
    have hfield : (l.mountedAt path h).mountPoint.1 = path := escapePath_of_plain hplain
    have hl : (l.mountedAt path h).Located :=
      ⟨⟨hr.optionalFields, hr.root, hr.mountOptions, hr.fsType⟩,
        hfield.symm ▸ fun c hc => (hplain c hc).1⟩
    obtain ⟨m, hm, hget, -⟩ := hl.captured
    exact ⟨m, hm, hfield ▸ hget⟩

theorem mountedAt_actedOn_iff_blankLine :
    (blankLine.mountedAt "/mnt/ab".toList (by decide)).ActedOn "/mnt/ab".toList := by
  refine (mountedAt_actedOn_iff blankLine "/mnt/ab".toList (by decide)).mpr ⟨?_, ?_⟩
  · simp [PlainPath, isWhitespace]
  · refine ⟨?_, ?_, ?_, 'e', _, rfl, by decide⟩
    all_goals simp [blankLine, mountedAt, propagatedLine, isWhitespace]

end MountinfoLine

end Checkc
