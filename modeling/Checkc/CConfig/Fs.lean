import Checkc.Config.Lists
import Checkc.Patterns.MountsLine

/-! # Mount tables of a process

The lines of `/proc/<pid>/mounts` and `/proc/<pid>/mountinfo` that are kept for the search
for flag files. A line that the pattern does not match is dropped.
-/

namespace Checkc

open Outcome (bind_eq_ok pure_eq_ok)

open Regex

namespace Fs

/-- `fs::Info`. -/
structure Info where
  nsId : Ns.Id
  mounts : List String
  mountinfo : List String
  deriving DecidableEq, Repr

/-- The files `mounts` and `mountinfo` of a process. Reading a line may fail. -/
structure MountTables where
  mounts : Except Errno (List (Except Errno String))
  mountinfo : Except Errno (List (Except Errno String))

/-- The filter of the lines of `mounts`. -/
def keepMount (entry : String) : Result (Option String) :=
  match search regexMounts entry.toList with
  | none => pure none
  | some matched => do
    let fsType ← unwrap (matched.get "fs_type")
    let mountpoint ← unwrap (matched.get "mountpoint")
    if String.ofList fsType ∈ mountpointFsSkips then pure none
    else if String.ofList mountpoint ∈ mountpointPathSkips then pure none
    else pure (some entry)

/-- The filter of the lines of `mountinfo`. -/
def keepMountinfo (entry : String) : Result (Option String) :=
  match search regexMountinfo entry.toList with
  | none => pure none
  | some matched => do
    let fsType ← unwrap (matched.get "fs_type")
    let mountpoint ← unwrap (matched.get "mountpoint")
    if String.ofList fsType ∈ mountpointFsSkips then pure none
    else if mountpointPathSkips.any (fun skip => skip.toList.isPrefixOf mountpoint) then pure none
    else pure (some entry)

/-- A line that cannot be read is dropped. -/
def keepLine (keep : String → Result (Option String)) : Except Errno String → Result (Option String)
  | .ok entry => keep entry
  | .error _ => pure none

/-- `reader.lines().filter_map(..)`. -/
def keptLines (keep : String → Result (Option String)) (lines : List (Except Errno String)) :
    Result (List String) :=
  lines.foldlM (fun kept line => do
    let entry ← keepLine keep line
    pure (kept ++ entry.toList)) []

/-- `Info::info_by_pid`. -/
def Info.infoByPid (k : Ns.Kernel) (tables : PidT → MountTables) (pid : PidT) : Result Info := do
  let mountsLines ← ioResult (tables pid).mounts
  let mountinfoLines ← ioResult (tables pid).mountinfo
  let nsId ← Ns.Id.fromType k pid .mount
  let mounts ← keptLines keepMount mountsLines
  let mountinfo ← keptLines keepMountinfo mountinfoLines
  pure { nsId, mounts, mountinfo }

/-! ## Reading the tables -/

/-- Both filters drop the lines that the pattern does not match and those that are to be skipped. -/
def keepBy (r : Regex) (skips : List Char → Prop) [DecidablePred skips] (entry : String) :
    Result (Option String) :=
  match search r entry.toList with
  | none => pure none
  | some matched => do
    let fsType ← unwrap (matched.get "fs_type")
    let mountpoint ← unwrap (matched.get "mountpoint")
    if String.ofList fsType ∈ mountpointFsSkips then pure none
    else if skips mountpoint then pure none
    else pure (some entry)

theorem keepMount_eq_keepBy : keepMount =
    keepBy regexMounts fun mountpoint => String.ofList mountpoint ∈ mountpointPathSkips := rfl

theorem keepMountinfo_eq_keepBy : keepMountinfo = keepBy regexMountinfo fun mountpoint =>
    mountpointPathSkips.any (fun skip => skip.toList.isPrefixOf mountpoint) = true := rfl

section

variable {r : Regex} {skips : List Char → Prop} [DecidablePred skips] {entry entry' : String}

/-- The filters return because every match has the groups that they look at. -/
theorem keepBy_isOk (hf : alwaysCaptures "fs_type" r = true)
    (hp : alwaysCaptures "mountpoint" r = true) (entry : String) :
    ∃ kept, keepBy r skips entry = .ok kept := by
  unfold keepBy
  split
  · exact ⟨_, rfl⟩
  · case h_2 m hm =>
    obtain ⟨fsType, hf⟩ := exists_get_of_search hm hf
    obtain ⟨mountpoint, hp⟩ := exists_get_of_search hm hp
    simp only [hf, hp, unwrap_some, Outcome.ok_bind]
    split_ifs <;> exact ⟨_, rfl⟩

theorem keepBy_eq_ok (h : keepBy r skips entry = .ok (some entry')) : entry' = entry := by
  unfold keepBy at h
  split at h
  · simp at h
  · simp only [bind_eq_ok] at h
    obtain ⟨_, _, _, _, h⟩ := h
    split_ifs at h <;> simp_all

/-- A line whose groups the pattern captures is kept unless it is to be skipped. -/
theorem keepBy_iff {m : Match} {fsType mountpoint : List Char} (hm : search r entry.toList = some m)
    (hf : m.get "fs_type" = some fsType) (hp : m.get "mountpoint" = some mountpoint) :
    keepBy r skips entry = .ok (some entry) ↔
      String.ofList fsType ∉ mountpointFsSkips ∧ ¬ skips mountpoint := by
  simp only [keepBy, hm, hf, hp, unwrap_some, Outcome.ok_bind]
  split_ifs with h1 h2
  · simp [h1]
  · simp [h1, h2, pure_eq_ok]
  · exact iff_of_true rfl ⟨h1, h2⟩

end

theorem keepMount_isOk (entry : String) : ∃ kept, keepMount entry = .ok kept := by
  rw [keepMount_eq_keepBy]
  exact keepBy_isOk rfl rfl entry

theorem keepMountinfo_isOk (entry : String) : ∃ kept, keepMountinfo entry = .ok kept := by
  rw [keepMountinfo_eq_keepBy]
  exact keepBy_isOk rfl rfl entry

theorem keepMount_eq_ok {entry entry' : String} (h : keepMount entry = .ok (some entry')) :
    entry' = entry := by
  rw [keepMount_eq_keepBy] at h
  exact keepBy_eq_ok h

theorem keepMountinfo_eq_ok {entry entry' : String} (h : keepMountinfo entry = .ok (some entry')) :
    entry' = entry := by
  rw [keepMountinfo_eq_keepBy] at h
  exact keepBy_eq_ok h

theorem keptLines_isOk {keep : String → Result (Option String)}
    (h : ∀ entry, ∃ kept, keep entry = .ok kept) (lines : List (Except Errno String)) :
    ∃ kept, keptLines keep lines = .ok kept := by
  refine foldlM_isOk (fun kept line _ => ?_) []
  cases line with
  | error e => exact ⟨_, rfl⟩
  | ok entry =>
    obtain ⟨o, ho⟩ := h entry
    exact ⟨_, bind_eq_ok.mpr ⟨o, ho, rfl⟩⟩

/-- Reading the mount tables of a process does not panic. -/
theorem returns_infoByPid (k : Ns.Kernel) (tables : PidT → MountTables) (pid : PidT) :
    (Info.infoByPid k tables pid).Returns := by
  refine (returns_ioResult _).bind fun mountsLines _ => (returns_ioResult _).bind
    fun mountinfoLines _ => (Ns.Id.returns_fromType k pid .mount).bind fun nsId _ => ?_
  obtain ⟨mounts, hm⟩ := keptLines_isOk keepMount_isOk mountsLines
  obtain ⟨mountinfo, hi⟩ := keptLines_isOk keepMountinfo_isOk mountinfoLines
  rw [hm, hi]
  trivial

/-- A filter that keeps lines as they are keeps exactly the lines for which it says so. -/
theorem mem_keptLines {keep : String → Result (Option String)}
    {lines : List (Except Errno String)} {kept : List String}
    (hkeep : ∀ entry entry', keep entry = .ok (some entry') → entry' = entry)
    (h : keptLines keep lines = .ok kept) {entry : String} :
    entry ∈ kept ↔ .ok entry ∈ lines ∧ keep entry = .ok (some entry) := by
  have hacc := foldlM_accumulates (M := fun kept => entry ∈ kept)
    (Q := fun line => line = .ok entry ∧ keep entry = .ok (some entry)) ?_ h
  · simpa using hacc
  · intro s r line _ hs
    obtain ⟨o, ho, hs⟩ := bind_eq_ok.mp hs
    obtain rfl := pure_eq_ok.mp hs
    rw [List.mem_append, Option.mem_toList]
    apply or_congr_right
    cases line with
    | error e =>
      obtain rfl := pure_eq_ok.mp ho
      simp
    | ok line =>
      constructor
      · rintro rfl
        obtain rfl := hkeep _ _ ho
        exact ⟨rfl, ho⟩
      · rintro ⟨he, hk⟩
        obtain rfl := Except.ok.inj he
        exact Outcome.ok_unique ho hk

section

variable {k : Ns.Kernel} {tables : PidT → MountTables} {pid : PidT} {info : Info}
  {lines : List (Except Errno String)} {entry : String}

/-- The lines of `mounts` that are kept are those for which the filter says so. -/
theorem mem_mounts_iff (hlines : (tables pid).mounts = .ok lines)
    (h : Info.infoByPid k tables pid = .ok info) :
    entry ∈ info.mounts ↔ .ok entry ∈ lines ∧ keepMount entry = .ok (some entry) := by
  simp only [Info.infoByPid, hlines, bind_eq_ok, pure_eq_ok, ioResult_eq_ok] at h
  obtain ⟨_, hl, _, -, nsId, -, mounts, hkept, mountinfo, -, rfl⟩ := h
  obtain rfl := Except.ok.inj hl
  exact mem_keptLines (fun _ _ => keepMount_eq_ok) hkept

theorem mem_mountinfo_iff (hlines : (tables pid).mountinfo = .ok lines)
    (h : Info.infoByPid k tables pid = .ok info) :
    entry ∈ info.mountinfo ↔ .ok entry ∈ lines ∧ keepMountinfo entry = .ok (some entry) := by
  simp only [Info.infoByPid, hlines, bind_eq_ok, pure_eq_ok, ioResult_eq_ok] at h
  obtain ⟨_, -, _, hl, nsId, -, mounts, -, mountinfo, hkept, rfl⟩ := h
  obtain rfl := Except.ok.inj hl
  exact mem_keptLines (fun _ _ => keepMountinfo_eq_ok) hkept

end

end Fs

/-- The pattern reads the mount point, the file system type and the options of the line, so that the
line is kept unless one of the first two is to be skipped. -/
def MountsLine.Searched (l : MountsLine) : Prop :=
  l.Captured ∧
  ∀ k tables pid lines info, (tables pid).mounts = .ok lines →
    .ok (String.ofList l.text) ∈ lines → Fs.Info.infoByPid k tables pid = .ok info →
    (String.ofList l.text ∈ info.mounts ↔ String.ofList l.fsType.1 ∉ mountpointFsSkips ∧
      String.ofList l.mountpoint.1 ∉ mountpointPathSkips)

/-- A file system that is mounted on a directory with a name of three letters. -/
def mntLine : MountsLine where
  source := ⟨['/', 'd', 'e', 'v', '/', 'r'], by decide⟩
  mountpoint := ⟨['/', 'm', 'n', 't'], by decide⟩
  fsType := ⟨['e', 'x', 't', '3'], by decide⟩
  mountopts := ⟨['r', 'w'], by decide⟩
  access := by decide

/-- The mount point that the pattern reads is the last letter. -/
theorem mntLine_not_searched :
    String.ofList mntLine.text = "/dev/r /mnt ext3 rw 0 0" ∧
    (search regexMounts mntLine.text).bind (·.get "mountpoint") = some ['t'] ∧
    ¬ mntLine.Searched := by
  have hlast : (search regexMounts mntLine.text).bind (·.get "mountpoint") = some ['t'] := by
    decide +kernel
  refine ⟨by decide, hlast, ?_⟩
  rintro ⟨⟨m, hm, hmount, -⟩, -⟩
  rw [hm, Option.bind_some, hmount] at hlast
  exact absurd hlast (by decide)

/-- A line is searched for flag files as it should exactly when its mount point is a single
character and there is no white space in the fields that the pattern captures. -/
theorem mounts_searched_iff (l : MountsLine) : l.Searched ↔
    (∃ c, l.mountpoint.1 = [c]) ∧ (∀ c ∈ l.mountpoint.1, isWhitespace c = false) ∧
      (∀ c ∈ l.fsType.1, isWhitespace c = false) ∧
      ∀ c ∈ l.mountopts.1, isWhitespace c = false := by
  rw [← l.captured_iff]
  refine ⟨And.left, fun h => ⟨h, ?_⟩⟩
  intro k tables pid lines info hlines hmem hinfo
  obtain ⟨m, hm, hp, hf, -⟩ := h
  rw [Fs.mem_mounts_iff hlines hinfo, and_iff_right hmem, Fs.keepMount_eq_keepBy]
  exact Fs.keepBy_iff (by rwa [String.toList_ofList]) hf hp

/-- The pattern reads the mount point and the file system type of the line, so that the line is
kept unless one of them is to be skipped. -/
def MountinfoLine.Searched (l : MountinfoLine) : Prop :=
  (∃ m, search regexMountinfo l.text = some m ∧ m.get "mountpoint" = some l.mountPoint.1 ∧
    m.get "fs_type" = some l.fsType.1) ∧
  ∀ k tables pid lines info, (tables pid).mountinfo = .ok lines →
    .ok (String.ofList l.text) ∈ lines → Fs.Info.infoByPid k tables pid = .ok info →
    (String.ofList l.text ∈ info.mountinfo ↔ String.ofList l.fsType.1 ∉ mountpointFsSkips ∧
      ∀ skip ∈ mountpointPathSkips, ¬ skip.toList <+: l.mountPoint.1)

/-- A mount that receives events from the peer group 2, in another mount namespace. -/
def propagatedLine : MountinfoLine where
  mountId := ⟨['3', '6'], by decide⟩
  parentId := ⟨['3', '5'], by decide⟩
  major := ⟨['9', '8'], by decide⟩
  minor := ⟨['0'], by decide⟩
  root := ⟨['/'], by decide⟩
  mountPoint := ⟨['/', 'm', 'n', 't'], by decide⟩
  mountOptions := ⟨['r', 'w'], by decide⟩
  optionalFields := [.master ⟨['1'], by decide⟩,
    .propagateFrom ⟨['2'], by decide⟩]
  fsType := ⟨['e', 'x', 't', '3'], by decide⟩
  source := ⟨['/', 'd', 'e', 'v', '/', 'r'], by decide⟩
  superOptions := ⟨['r', 'w'], by decide⟩

/-- The line is dropped, although its file system type is not to be skipped. -/
theorem propagatedLine_not_searched :
    String.ofList propagatedLine.text =
      "36 35 98:0 / /mnt rw master:1 propagate_from:2 - ext3 /dev/r rw" ∧
    Fs.keepMountinfo (String.ofList propagatedLine.text) = .ok none ∧
    String.ofList propagatedLine.fsType.1 ∉ mountpointFsSkips ∧ ¬ propagatedLine.Searched := by
  have hnone : (search regexMountinfo propagatedLine.text).isNone = true := by decide +kernel
  refine ⟨by decide, by decide +kernel, by decide, ?_⟩
  rintro ⟨⟨m, hm, -⟩, -⟩
  rw [hm, Option.isNone_some] at hnone
  exact absurd hnone (by decide)

/-- A line of the kernel is searched for flag files as it should exactly when its optional
fields are those that the pattern knows and the fields before the source have no white
space. -/
theorem mountinfo_searched_iff (l : MountinfoLine) : l.Searched ↔ l.Parsable := by
  rw [← l.captured_iff]
  refine ⟨And.left, fun h => ⟨h, ?_⟩⟩
  intro k tables pid lines info hlines hmem hinfo
  obtain ⟨m, hm, hp, hf⟩ := h
  rw [Fs.mem_mountinfo_iff hlines hinfo, and_iff_right hmem, Fs.keepMountinfo_eq_keepBy,
    Fs.keepBy_iff (by rwa [String.toList_ofList]) hf hp]
  simp only [List.any_eq_true, List.isPrefixOf_iff_prefix, not_exists, not_and]

end Checkc
