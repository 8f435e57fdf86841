import Checkc.CConfig.MountPoints

/-! # The search on the host

A mount namespace is searched by way of the first of its processes with which this works. A
process that is gone, is a kernel thread or whose namespace cannot be joined is passed over. A
process whose command line can be opened and not read ends the whole search.
-/

namespace Checkc

open Outcome (bind_eq_ok pure_eq_ok)

open Regex

namespace Fs

/-- The mount namespace of the process can be searched. -/
def HostAnswers.usable (host : HostAnswers) (pid : PidT) : Bool :=
  match host.cmdline pid, host.join pid with
  | .ok (.ok cmdline), .ok () => !cmdline.isEmpty
  | _, _ => false

/-- The command line of the process can be opened, but it is gone then or no text. -/
def HostAnswers.Unreadable (host : HostAnswers) (pid : PidT) : Prop :=
  ∃ e, host.cmdline pid = .ok (.error e)

/-- The path is found on some mount point other than itself. -/
def HostAnswers.Finds (host : HostAnswers) (pid : PidT) (mountns : MountNamespace) (path : String) :
    Prop :=
  ∃ mp ∈ mountns.mountinfo, ∃ location, searchLocation mp = .ok location ∧
    path ∈ host.search pid location ∧ path ≠ location

/-- The entry of a mount namespace after it was searched by way of its first usable process. -/
structure Searched (host : HostAnswers) (mountns mountns' : MountNamespace) : Prop where
  same : mountns' = { mountns with flagFiles := mountns'.flagFiles }
  nodup : mountns'.flagFiles.Nodup
  found : ∀ pid, mountns.nsPids.find? host.usable = some pid → ∀ path,
    path ∈ mountns'.flagFiles ↔ host.Finds pid mountns path
  unsearched : mountns.nsPids.find? host.usable = none → mountns'.flagFiles = []

/-! ## Entries before the search -/

/-- An entry as `get_mountinfos` makes it. -/
structure Unsearched (mountns : MountNamespace) : Prop where
  flagFiles : mountns.flagFiles = []
  mountinfo : ∀ mp ∈ mountns.mountinfo, ∃ location, searchLocation mp = .ok location

theorem mem_addLines {lines new : List String} {line : String} :
    line ∈ addLines lines new ↔ line ∈ lines ∨ line ∈ new := by
  induction new generalizing lines with
  | nil => simp [addLines]
  | cons e new ih =>
    rw [addLines, List.foldl_cons, ← addLines, ih, List.mem_cons]
    split_ifs with he
    · rw [List.contains_iff_mem] at he
      constructor
      · exact Or.imp_right Or.inr
      · rintro (h | rfl | h)
        · exact Or.inl h
        · exact Or.inl he
        · exact Or.inr h
    · rw [List.mem_append, List.mem_singleton, or_assoc]

/-- The location of a line that was kept is captured. -/
theorem searchLocation_of_kept {mp : String} (h : keepMountinfo mp = .ok (some mp)) :
    ∃ location, searchLocation mp = .ok location := by
  unfold keepMountinfo at h
  cases hm : search regexMountinfo mp.toList with
  | none => simp [hm] at h
  | some m =>
    obtain ⟨mountpoint, hp⟩ := exists_get_of_search (n := "mountpoint") hm rfl
    refine ⟨String.ofList mountpoint, ?_⟩
    simp only [searchLocation, hm, hp, unwrap_some, Outcome.ok_bind]
    rfl

theorem unsearched_newEntry {k : Ns.Kernel} {tables : PidT → MountTables} {pid : PidT} {info : Info}
    (h : Info.infoByPid k tables pid = .ok info) (p : PidT) : Unsearched (newEntry info p) where
  flagFiles := rfl
  mountinfo mp hmp := by
    simp only [Info.infoByPid, bind_eq_ok, pure_eq_ok] at h
    obtain ⟨_, -, lines, -, _, -, _, -, mountinfo, hkept, rfl⟩ := h
    have hmp : mp ∈ mountinfo := (mem_addLines.mp hmp).resolve_left List.not_mem_nil
    rw [mem_keptLines (fun _ _ => keepMountinfo_eq_ok) hkept] at hmp
    exact searchLocation_of_kept hmp.2

theorem unsearched_pushPid {id : Ns.Id} {p : PidT} {s : List MountNamespace}
    (hs : ∀ n ∈ s, Unsearched n) : ∀ n ∈ pushPid id p s, Unsearched n := by
  rw [pushPid, List.forall_mem_map]
  intro n hn
  split_ifs
  · exact ⟨(hs n hn).flagFiles, (hs n hn).mountinfo⟩
  · exact hs n hn

theorem unsearched_visit {pidCfg : Option (List PidT × Bool)} {v : Visit}
    {s s' : List MountNamespace} (hs : ∀ n ∈ s, Unsearched n) (h : visit pidCfg s v = .ok s') :
    ∀ n ∈ s', Unsearched n := by
  unfold visit at h
  split_ifs at h
  · obtain rfl := pure_eq_ok.mp h
    exact hs
  obtain ⟨o, -, h⟩ := bind_eq_ok.mp h
  cases o with
  | none =>
    obtain rfl := pure_eq_ok.mp h
    exact hs
  | some nsId =>
    obtain ⟨known, -, h⟩ := bind_eq_ok.mp h
    split_ifs at h
    · obtain rfl := pure_eq_ok.mp h
      exact unsearched_pushPid hs
    obtain ⟨o, ho, h⟩ := bind_eq_ok.mp h
    cases o with
    | none =>
      obtain rfl := pure_eq_ok.mp h
      exact hs
    | some info =>
      obtain rfl := pure_eq_ok.mp h
      have hinfo : v.info = .ok info := by
        cases hv : v.info <;> simp_all [Ns.keepOk]
      rw [List.forall_mem_append, List.forall_mem_singleton]
      exact ⟨hs, unsearched_newEntry hinfo v.pid⟩

theorem unsearched_getMountinfos {procDir : Ns.ProcDir} {answers : ℕ → Answers}
    {pidCfg : Option (List PidT × Bool)} {s : List MountNamespace}
    (h : getMountinfos procDir answers pidCfg = .ok s) : ∀ n ∈ s, Unsearched n := by
  rw [getMountinfos, bind_eq_ok] at h
  obtain ⟨pids, -, h⟩ := h
  exact foldlM_induction (P := fun _ s => ∀ n ∈ s, Unsearched n) (by simp)
    (fun _ _ _ _ hs hstep => unsearched_visit hs hstep) h

/-! ## The search of one namespace -/

section

variable {host : HostAnswers} {mountns mountns' : MountNamespace} {pid : PidT}
  {pids : List PidT}

theorem searchFlags_eq_ok {flagFiles r : List String} {mp : String} :
    searchFlags host pid flagFiles mp = .ok r ↔ ∃ location, searchLocation mp = .ok location ∧
      addLines flagFiles ((host.search pid location).filter (· ≠ location)) = r := by
  simp only [searchFlags, bind_eq_ok, pure_eq_ok]

variable (host pid) in
/-- Searching the mount points finds the paths on any of them, each once. -/
theorem foldlM_searchFlags (h : Unsearched mountns) :
    ∃ flagFiles, mountns.mountinfo.foldlM (searchFlags host pid) mountns.flagFiles = .ok flagFiles ∧
      flagFiles.Nodup ∧ ∀ path, path ∈ flagFiles ↔ host.Finds pid mountns path := by
  obtain ⟨flagFiles, hf⟩ := foldlM_isOk (f := searchFlags host pid) (l := mountns.mountinfo)
    (fun s mp hmp => by
      obtain ⟨location, hl⟩ := h.mountinfo mp hmp
      exact ⟨_, searchFlags_eq_ok.mpr ⟨location, hl, rfl⟩⟩) mountns.flagFiles
  refine ⟨flagFiles, hf, ?_, fun path => ?_⟩
  · refine foldlM_induction (P := fun _ s => s.Nodup) (h.flagFiles ▸ List.nodup_nil) ?_ hf
    intro l mp s s' hs hstep
    obtain ⟨location, -, rfl⟩ := searchFlags_eq_ok.mp hstep
    exact nodup_addLines hs _
  · have hacc := foldlM_accumulates (M := fun s => path ∈ s)
      (Q := fun mp => ∃ location, searchLocation mp = .ok location ∧
        path ∈ host.search pid location ∧ path ≠ location) ?_ hf
    · rw [hacc, h.flagFiles, or_iff_right List.not_mem_nil]
      rfl
    · intro s r mp _ hstep
      obtain ⟨location, hl, rfl⟩ := searchFlags_eq_ok.mp hstep
      simp [mem_addLines, hl]

/-- A usable process is enough to search a namespace. -/
theorem searchWith_of_usable (h : Unsearched mountns) (hu : host.usable pid = true) :
    ∃ flagFiles, searchWith host mountns pid = .ok (some flagFiles) ∧ flagFiles.Nodup ∧
      ∀ path, path ∈ flagFiles ↔ host.Finds pid mountns path := by
  unfold HostAnswers.usable at hu
  split at hu
  · case h_1 cmdline hc hj =>
    obtain ⟨flagFiles, hf, hnd, hmem⟩ := foldlM_searchFlags host pid h
    refine ⟨flagFiles, ?_, hnd, hmem⟩
    rw [Bool.not_eq_true'] at hu
    simp only [searchWith, hc, hj, mapIoError, Outcome.ok_bind, hu, hf]
    rfl
  · cases hu

/-- Any other process is passed over if its command line is not unreadable. -/
theorem searchWith_of_not_usable (hu : host.usable pid = false) (hr : ¬ host.Unreadable pid) :
    searchWith host mountns pid = .ok none := by
  unfold searchWith
  split
  · rfl
  · case h_2 content hc =>
    cases content with
    | error e => exact absurd ⟨e, hc⟩ hr
    | ok cmdline =>
      simp only [mapIoError, Outcome.ok_bind]
      split_ifs with he
      · rfl
      · cases hj : host.join pid with
        | error e => rfl
        | ok u => simp [HostAnswers.usable, hc, hj, he] at hu

variable (mountns) in
theorem searchWith_of_unreadable (hr : host.Unreadable pid) :
    ∃ e, searchWith host mountns pid = .err e := by
  obtain ⟨e, hc⟩ := hr
  exact ⟨_, by rw [searchWith, hc]; rfl⟩

/-- The processes that are tried before the first usable one. -/
def HostAnswers.tried (host : HostAnswers) (pids : List PidT) : List PidT :=
  pids.takeWhile fun pid => !host.usable pid

theorem searchNamespace_of_tried (h : Unsearched mountns)
    (ht : ∀ pid ∈ host.tried pids, ¬ host.Unreadable pid) :
    ∃ flagFiles, searchNamespace host mountns pids = .ok { mountns with flagFiles } ∧
      flagFiles.Nodup ∧
      (∀ pid, pids.find? host.usable = some pid → ∀ path,
        path ∈ flagFiles ↔ host.Finds pid mountns path) ∧
      (pids.find? host.usable = none → flagFiles = []) := by
  induction pids with
  | nil => exact ⟨mountns.flagFiles, rfl, h.flagFiles ▸ List.nodup_nil, nofun, fun _ => h.flagFiles⟩
  | cons pid pids ih =>
    rw [HostAnswers.tried, List.takeWhile_cons] at ht
    cases hu : host.usable pid with
    | true =>
      obtain ⟨flagFiles, hf, hnd, hmem⟩ := searchWith_of_usable h hu
      refine ⟨flagFiles, by rw [searchNamespace, hf]; rfl, hnd, ?_, ?_⟩
      · rw [List.find?_cons_of_pos hu]
        rintro _ ⟨⟩
        exact hmem
      · rw [List.find?_cons_of_pos hu]
        exact nofun
    | false =>
      rw [hu, Bool.not_false, if_pos rfl, List.forall_mem_cons] at ht
      rw [searchNamespace, searchWith_of_not_usable hu ht.1,
        List.find?_cons_of_neg (by simp [hu])]
      exact ih ht.2

/-- A search that returns has tried no process with an unreadable command line. -/
theorem tried_of_searchNamespace (hs : searchNamespace host mountns pids = .ok mountns') :
    ∀ pid ∈ host.tried pids, ¬ host.Unreadable pid := by
  induction pids with
  | nil => simp [HostAnswers.tried]
  | cons pid pids ih =>
    rw [searchNamespace, bind_eq_ok] at hs
    obtain ⟨o, ho, hs⟩ := hs
    have hr : ¬ host.Unreadable pid := by
      intro hr
      obtain ⟨e, he⟩ := searchWith_of_unreadable mountns hr
      exact Outcome.ne_ok_of_err he o ho
    rw [HostAnswers.tried, List.takeWhile_cons]
    cases hu : host.usable pid with
    | true => simp
    | false =>
      obtain rfl := Outcome.ok_unique (searchWith_of_not_usable hu hr) ho
      rw [Bool.not_false, if_pos rfl, List.forall_mem_cons]
      exact ⟨hr, ih hs⟩

end

/-! ## The whole search -/

/-- The run on the host searches all of its mount namespaces. -/
def SearchesAll (procDir : Ns.ProcDir) (answers : ℕ → Answers) (pidCfg : Option (List PidT × Bool))
    (host : HostAnswers) (mountNamespaces : List MountNamespace) : Prop :=
  ∃ r, processMountpointsHost procDir answers host pidCfg = .ok r ∧
    List.Forall₂ (Searched host) mountNamespaces r

/-- All namespaces are searched if and only if no process that is tried before the first usable one
has an unreadable command line. -/
theorem searchesAll_iff {procDir : Ns.ProcDir} {answers : ℕ → Answers}
    {pidCfg : Option (List PidT × Bool)} {mountNamespaces : List MountNamespace}
    (h : getMountinfos procDir answers pidCfg = .ok mountNamespaces) (host : HostAnswers) :
    SearchesAll procDir answers pidCfg host mountNamespaces ↔
      ∀ mountns ∈ mountNamespaces, ∀ pid ∈ host.tried mountns.nsPids, ¬ host.Unreadable pid := by
  simp only [SearchesAll, processMountpointsHost, h, Outcome.ok_bind, mapM_eq_ok]
  constructor
  · rintro ⟨r, hr, -⟩ mountns hm
    obtain ⟨mountns', -, hs⟩ := exists_mem_of_forall₂ hr.flip hm
    exact tried_of_searchNamespace hs
  · intro ht
    have hsearched : ∀ mountns ∈ mountNamespaces, ∃ mountns',
        searchNamespace host mountns mountns.nsPids = .ok mountns' ∧
          Searched host mountns mountns' := by
      intro mountns hm
      obtain ⟨flagFiles, hf, hnd, hfound, hnone⟩ :=
        searchNamespace_of_tried (unsearched_getMountinfos h mountns hm) (ht mountns hm)
      exact ⟨_, hf, rfl, hnd, hfound, hnone⟩
    obtain ⟨r, hr⟩ := exists_forall₂ hsearched
    exact ⟨r, hr.imp fun _ _ h => h.1, hr.imp fun _ _ h => h.2⟩

/-- Both mount namespaces have one mount point. -/
def mountedAnswers (i : ℕ) : Answers :=
  { steadyAnswers i with
    tables _ :=
      { mounts := .ok [], mountinfo := .ok [.ok "36 35 98:0 / /mnt rw - ext3 /dev/r rw"] } }

/-- The mount namespaces of three processes. -/
def mountedNamespaces : List MountNamespace :=
  [⟨some ⟨4, 10⟩, [1, 2], [], ["36 35 98:0 / /mnt rw - ext3 /dev/r rw"], []⟩,
    ⟨some ⟨4, 20⟩, [3], [], ["36 35 98:0 / /mnt rw - ext3 /dev/r rw"], []⟩]

def threeProcesses : Ns.ProcDir :=
  .ok [.ok ⟨some "1", true⟩, .ok ⟨some "2", true⟩, .ok ⟨some "3", true⟩]

/-- A host on which each search finds a flag file. The first process has this command line. -/
def hostWith (cmdline : Except Errno (Except Errno String)) : HostAnswers where
  cmdline pid := if pid = 1 then cmdline else .ok (.ok "sh")
  join _ := .ok ()
  search _ location := [location, location ++ "/xyz_checkc_flag"]

theorem searchesAll_iff_gone :
    SearchesAll threeProcesses mountedAnswers none (hostWith (.error .ENOENT))
      mountedNamespaces := by
  apply (searchesAll_iff (by decide +kernel) _).mpr
  rintro mountns - pid - ⟨e, he⟩
  simp only [hostWith] at he
  split_ifs at he
  cases he

/-- If the command line of the first process is no text, then no namespace is searched, although
each of them has a usable process. -/
theorem hostWith_notText :
    getMountinfos threeProcesses mountedAnswers none = .ok mountedNamespaces ∧
      processMountpointsHost threeProcesses mountedAnswers (hostWith (.ok (.error .EILSEQ))) none =
        .err (.myIoError "/proc/1/cmdline" .EILSEQ) ∧
      (∀ mountns ∈ mountedNamespaces,
        ∃ pid ∈ mountns.nsPids, (hostWith (.ok (.error .EILSEQ))).usable pid = true) ∧
      ¬ SearchesAll threeProcesses mountedAnswers none (hostWith (.ok (.error .EILSEQ)))
        mountedNamespaces := by
  have herr : processMountpointsHost threeProcesses mountedAnswers
      (hostWith (.ok (.error .EILSEQ))) none = .err (.myIoError "/proc/1/cmdline" .EILSEQ) := by
    decide +kernel
  refine ⟨by decide +kernel, herr, by decide, ?_⟩
  rintro ⟨r, hr, -⟩
  exact Outcome.ne_ok_of_err herr r hr

end Fs

end Checkc
