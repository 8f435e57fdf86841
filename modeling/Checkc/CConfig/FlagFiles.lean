import Checkc.CConfig.HostSearch
import Checkc.Patterns.Uuid

/-! # Flag files of the container

The run in the container tries each mount point of each mount namespace. If files that were created
stay, then no flag file is listed twice, although mount points are shared between namespaces.
-/

namespace Checkc

open Outcome (bind_eq_ok pure_eq_ok)

open Regex

namespace Fs

/-- A file that was created is found again. -/
def Persists (os : List String → String → FlagAnswer) : Prop :=
  ∀ tried path more, os tried path = .created → os (tried ++ path :: more) path = .isFile

/-- The paths are different and were all created in this history of tries. -/
structure Created (os : List String → String → FlagAnswer) (tried created : List String) :
    Prop where
  nodup : created.Nodup
  mem : ∀ path ∈ created, ∃ before more, tried = before ++ path :: more ∧ os before path = .created

/-- The path was tried, or it was found to be a file at some point of the history. -/
def Covered (os : List String → String → FlagAnswer) (tried : List String) (path : String) : Prop :=
  path ∈ tried ∨ ∃ before, before <+: tried ∧ os before path = .isFile

/-- An entry with the flag files that were created on its mount points. -/
structure Flagged (flagFile : String) (mountns mountns' : MountNamespace) : Prop where
  same : mountns' = { mountns with flagFiles := mountns'.flagFiles }
  placed : ∀ flag ∈ mountns'.flagFiles, ∃ mp ∈ mountns.mountinfo,
    flagPath flagFile mp = .ok (some flag)

section

variable {os : List String → String → FlagAnswer} {flagFile path mp : String}
  {tried created : List String}

theorem Created.notMem (h : Created os tried created) (hos : Persists os)
    (hpath : os tried path = .created) : path ∉ created := by
  intro hmem
  obtain ⟨before, more, rfl, hcreated⟩ := h.mem path hmem
  rw [hos before path more hcreated] at hpath
  cases hpath

theorem Created.fail (h : Created os tried created) (path : String) :
    Created os (tried ++ [path]) created where
  nodup := h.nodup
  mem p hp := by
    obtain ⟨before, more, rfl, hcreated⟩ := h.mem p hp
    exact ⟨before, more ++ [path], by simp, hcreated⟩

theorem Created.concat (h : Created os tried created) (hos : Persists os)
    (hpath : os tried path = .created) :
    Created os (tried ++ [path]) (created ++ [path]) where
  nodup := by
    rw [List.nodup_append_comm, List.singleton_append, List.nodup_cons]
    exact ⟨h.notMem hos hpath, h.nodup⟩
  mem p hp := by
    rw [List.mem_append, List.mem_singleton] at hp
    rcases hp with hp | rfl
    · exact (h.fail path).mem p hp
    · exact ⟨tried, [], rfl, hpath⟩

theorem Covered.mono {tried' : List String} (h : Covered os tried path) (ht : tried <+: tried') :
    Covered os tried' path := by
  rcases h with h | ⟨before, hb, hfile⟩
  · exact Or.inl (ht.subset h)
  · exact Or.inr ⟨before, hb.trans ht, hfile⟩

/-- What a try can do. -/
theorem writeFlag_cases {s r : List String × List String} (h : writeFlag os flagFile s mp = .ok r) :
    (flagPath flagFile mp = .ok none ∧ r = s) ∨
    ∃ path, flagPath flagFile mp = .ok (some path) ∧
      ((os s.1 path = .isFile ∧ r = s) ∨
        (os s.1 path = .created ∧ r = (s.1 ++ [path], s.2 ++ [path])) ∨
        (os s.1 path = .failed ∧ r = (s.1 ++ [path], s.2))) := by
  simp only [writeFlag, bind_eq_ok] at h
  obtain ⟨o, ho, h⟩ := h
  cases o with
  | none => exact Or.inl ⟨ho, (pure_eq_ok.mp h).symm⟩
  | some path =>
    refine Or.inr ⟨path, ho, ?_⟩
    cases hos : os s.1 path <;> simp only [hos, pure_eq_ok] at h <;> simp [h]

/-- The flag files of an entry are on its mount points, whatever the system does with them. -/
theorem flagged_writeFlags {mountns : MountNamespace} {s r : List String × List MountNamespace}
    (hempty : mountns.flagFiles = []) (h : writeFlags os flagFile s mountns = .ok r) :
    ∃ mountns', r.2 = s.2 ++ [mountns'] ∧ Flagged flagFile mountns mountns' := by
  simp only [writeFlags, bind_eq_ok, pure_eq_ok] at h
  obtain ⟨⟨tried, flagFiles⟩, hr, rfl⟩ := h
  refine ⟨{ mountns with flagFiles }, rfl, rfl, ?_⟩
  refine foldlM_induction (P := fun mps s => ∀ flag ∈ s.2, ∃ mp ∈ mps,
    flagPath flagFile mp = .ok (some flag)) (by simp [hempty]) (fun mps mp s s' hs hstep => ?_) hr
  have hold : ∀ flag ∈ s.2, ∃ mp' ∈ mps ++ [mp], flagPath flagFile mp' = .ok (some flag) := by
    intro flag hflag
    obtain ⟨mp', hmp', hf⟩ := hs flag hflag
    exact ⟨mp', List.mem_append_left _ hmp', hf⟩
  rcases writeFlag_cases hstep with ⟨-, rfl⟩ | ⟨path, hf, ⟨-, rfl⟩ | ⟨-, rfl⟩ | ⟨-, rfl⟩⟩
  · exact hold
  · exact hold
  · rw [List.forall_mem_append, List.forall_mem_singleton]
    exact ⟨hold, mp, by simp, hf⟩
  · exact hold

/-- The run in the container adds flag files to the entries, and changes nothing else in them. -/
theorem flagged_processMountpointsContainer {procDir : Ns.ProcDir} {answers : ℕ → Answers}
    {uuid : String} {entries : List MountNamespace}
    (h : processMountpointsContainer procDir answers os uuid = .ok (tried, entries)) :
    ∃ mountNamespaces, getMountinfos procDir answers none = .ok mountNamespaces ∧
      List.Forall₂ (Flagged s!"{flagBaseName}_{uuid}") mountNamespaces entries := by
  rw [processMountpointsContainer, bind_eq_ok] at h
  obtain ⟨mountNamespaces, hm, h⟩ := h
  refine ⟨mountNamespaces, hm, foldlM_induction (P := fun l s => (∀ mountns ∈ l,
    mountns.flagFiles = []) → List.Forall₂ (Flagged s!"{flagBaseName}_{uuid}") l s.2)
    (fun _ => .nil) ?_ h fun mountns hmem => (unsearched_getMountinfos hm mountns hmem).flagFiles⟩
  intro l mountns s s' hs hstep hempty
  rw [List.forall_mem_append, List.forall_mem_singleton] at hempty
  obtain ⟨mountns', hs', hflagged⟩ := flagged_writeFlags hempty.2 hstep
  rw [hs']
  exact List.rel_append (hs hempty.1) (.cons hflagged .nil)

/-- What holds after these mount points were tried, which the state has the created files of, when
others had been created before. -/
structure Round (os : List String → String → FlagAnswer) (flagFile : String)
    (tried created : List String) (mps : List String) (s : List String × List String) :
    Prop where
  created : Created os s.1 (created ++ s.2)
  grown : tried <+: s.1
  covered : ∀ mp ∈ mps, ∀ path, flagPath flagFile mp = .ok (some path) → Covered os s.1 path

theorem Round.step {mps : List String} {s r : List String × List String} (hos : Persists os)
    (hs : Round os flagFile tried created mps s) (h : writeFlag os flagFile s mp = .ok r) :
    Round os flagFile tried created (mps ++ [mp]) r := by
  -- the mount points before this one stay covered
  have hcovered : s.1 <+: r.1 → (∀ path, flagPath flagFile mp = .ok (some path) →
      Covered os r.1 path) → ∀ mp' ∈ mps ++ [mp], ∀ path,
        flagPath flagFile mp' = .ok (some path) → Covered os r.1 path := by
    intro hsr hmp
    rw [List.forall_mem_append, List.forall_mem_singleton]
    exact ⟨fun mp' hmp' path hf => (hs.covered mp' hmp' path hf).mono hsr, hmp⟩
  rcases writeFlag_cases h with ⟨hf, rfl⟩ | ⟨path, hf, ⟨hos', rfl⟩ | ⟨hos', rfl⟩ | ⟨hos', rfl⟩⟩
  · refine ⟨hs.created, hs.grown, hcovered (List.prefix_refl _) fun path hf' => ?_⟩
    simp [hf] at hf'
  · refine ⟨hs.created, hs.grown, hcovered (List.prefix_refl _) fun path' hf' => ?_⟩
    obtain rfl : path = path' := by simpa [hf] using hf'
    exact Or.inr ⟨r.1, List.prefix_refl _, hos'⟩
  · refine ⟨?_, hs.grown.trans (List.prefix_append _ _),
      hcovered (List.prefix_append _ _) fun path' hf' => ?_⟩
    · rw [← List.append_assoc]
      exact hs.created.concat hos hos'
    · obtain rfl : path = path' := by simpa [hf] using hf'
      exact Or.inl (by simp)
  · refine ⟨hs.created.fail path, hs.grown.trans (List.prefix_append _ _),
      hcovered (List.prefix_append _ _) fun path' hf' => ?_⟩
    obtain rfl : path = path' := by simpa [hf] using hf'
    exact Or.inl (by simp)

theorem round_writeFlag {mountns : MountNamespace} {r : List String × List String}
    (hos : Persists os) (hc : Created os tried created) (hempty : mountns.flagFiles = [])
    (h : mountns.mountinfo.foldlM (writeFlag os flagFile) (tried, mountns.flagFiles) = .ok r) :
    Round os flagFile tried created mountns.mountinfo r := by
  rw [hempty] at h
  refine foldlM_induction (P := Round os flagFile tried created) ?_
    (fun _ _ _ _ hs hstep => hs.step hos hstep) h
  exact ⟨by rwa [List.append_nil], List.prefix_refl _, nofun⟩

/-- What holds after the run has been through these namespaces. -/
structure Rounds (os : List String → String → FlagAnswer) (flagFile : String)
    (mountNamespaces : List MountNamespace) (s : List String × List MountNamespace) : Prop where
  created : Created os s.1 (s.2.flatMap (·.flagFiles))
  covered : ∀ mountns ∈ mountNamespaces, ∀ mp ∈ mountns.mountinfo, ∀ path,
    flagPath flagFile mp = .ok (some path) → Covered os s.1 path

theorem Rounds.step {mountNamespaces : List MountNamespace} {mountns : MountNamespace}
    {s r : List String × List MountNamespace} (hos : Persists os)
    (hs : Rounds os flagFile mountNamespaces s) (hempty : mountns.flagFiles = [])
    (h : writeFlags os flagFile s mountns = .ok r) :
    Rounds os flagFile (mountNamespaces ++ [mountns]) r := by
  simp only [writeFlags, bind_eq_ok, pure_eq_ok] at h
  obtain ⟨⟨tried, flagFiles⟩, hr, rfl⟩ := h
  have hround := round_writeFlag hos hs.created hempty hr
  constructor
  · rw [List.flatMap_append, List.flatMap_singleton]
    exact hround.created
  · rw [List.forall_mem_append, List.forall_mem_singleton]
    exact ⟨fun m hm mp hmp path hf => (hs.covered m hm mp hmp path hf).mono hround.grown,
      hround.covered⟩

theorem exists_of_flagPath (h : flagPath flagFile mp = .ok (some path)) :
    ∃ mountpoint : String, path = s!"{mountpoint}/{flagFile}" := by
  unfold flagPath at h
  split at h
  · cases h
  · simp only [bind_eq_ok] at h
    obtain ⟨fsType, -, h⟩ := h
    split_ifs at h
    · cases pure_eq_ok.mp h
    · obtain ⟨mountpoint, -, h⟩ := bind_eq_ok.mp h
      exact ⟨_, (Option.some.inj (pure_eq_ok.mp h)).symm⟩

/-- The name of the flag file ends with the UUID. -/
theorem containsUuid_flagFile {uuid : String} (huuid : IsUuid uuid.toList) :
    ContainsUuid s!"{flagBaseName}_{uuid}" :=
  ⟨(s!"{flagBaseName}_").toList, uuid.toList, [], by simp [toString], huuid⟩

theorem containsUuid_below {name : String} (h : ContainsUuid name) (dir : String) :
    ContainsUuid s!"{dir}/{name}" := by
  obtain ⟨pre, u, post, hname, hu⟩ := h
  exact ⟨(s!"{dir}/").toList ++ pre, u, post, by simp [toString, hname], hu⟩

theorem slash_notMem_flagFile {uuid : String} (huuid : IsUuid uuid.toList) :
    '/' ∉ (s!"{flagBaseName}_{uuid}").toList := by
  have hname : (s!"{flagBaseName}_{uuid}").toList = "xyz_checkc_flag_".toList ++ uuid.toList := by
    simp [toString, flagBaseName]
  have hhex : ∀ {n : ℕ} {u : List Char}, IsHexBlock n u → '/' ∉ u := fun hu hmem =>
    absurd (hu.2 _ hmem) (by decide)
  obtain ⟨a, b, c, d, e, hu, ha, hb, hc, hd, he⟩ := huuid
  rw [hname, hu]
  simp [hhex ha, hhex hb, hhex hc, hhex hd, hhex he]

/-- A flag file keeps its name, whatever its mount point is. -/
theorem name_of_flagPath {dir name : String} (hflag : '/' ∉ flagFile.toList)
    (hname : '/' ∉ name.toList) (h : flagPath flagFile mp = .ok (some s!"{dir}/{name}")) :
    name = flagFile := by
  obtain ⟨mountpoint, he⟩ := exists_of_flagPath h
  have hparts := congrArg (fun path : String => path.toList.reverse) he
  simp only [toString, String.toList_append, List.reverse_append, List.append_assoc] at hparts
  have hslash : "/".toList.reverse = ['/'] := rfl
  rw [hslash, List.singleton_append, List.singleton_append, append_cons_inj] at hparts
  · exact String.ext (List.reverse_injective hparts.1)
  · rwa [List.mem_reverse]
  · rwa [List.mem_reverse]

end

/-- If files that were created stay, then the run in the container tries or finds the flag file of
each mount point whose file system is not skipped. The files that it lists are different, each is
on a mount point of its namespace, and each contains the UUID. -/
theorem processMountpointsContainer_flags {procDir : Ns.ProcDir} {answers : ℕ → Answers}
    {os : List String → String → FlagAnswer} {uuid : String} {tried : List String}
    {entries : List MountNamespace} (hos : Persists os) (huuid : IsUuid uuid.toList)
    (h : processMountpointsContainer procDir answers os uuid = .ok (tried, entries)) :
    ∃ mountNamespaces, getMountinfos procDir answers none = .ok mountNamespaces ∧
      List.Forall₂ (Flagged s!"{flagBaseName}_{uuid}") mountNamespaces entries ∧
      (∀ mountns ∈ mountNamespaces, ∀ mp ∈ mountns.mountinfo, ∀ path,
        flagPath s!"{flagBaseName}_{uuid}" mp = .ok (some path) → Covered os tried path) ∧
      (entries.flatMap (·.flagFiles)).Nodup ∧
      ∀ mountns ∈ entries, ∀ flag ∈ mountns.flagFiles, ContainsUuid flag := by
  obtain ⟨mountNamespaces, hm, hflagged⟩ := flagged_processMountpointsContainer h
  rw [processMountpointsContainer, hm, Outcome.ok_bind] at h
  have hrounds := foldlM_induction (P := fun l s => (∀ mountns ∈ l, mountns.flagFiles = []) →
    Rounds os s!"{flagBaseName}_{uuid}" l s) ?_ ?_ h
  · obtain ⟨hcreated, hcovered⟩ :=
      hrounds fun mountns hmem => (unsearched_getMountinfos hm mountns hmem).flagFiles
    refine ⟨mountNamespaces, hm, hflagged, hcovered, hcreated.nodup, fun mountns hmem flag hf => ?_⟩
    obtain ⟨m, -, hfl⟩ := exists_mem_of_forall₂ hflagged hmem
    obtain ⟨mp, -, hpath⟩ := hfl.placed flag hf
    obtain ⟨mountpoint, rfl⟩ := exists_of_flagPath hpath
    exact containsUuid_below (containsUuid_flagFile huuid) mountpoint
  · exact fun _ => ⟨⟨List.nodup_nil, by simp⟩, by simp⟩
  · intro l mountns s s' hs hstep hempty
    rw [List.forall_mem_append, List.forall_mem_singleton] at hempty
    exact (hs hempty.1).step hos hempty.2 hstep

theorem isUuid_sample : IsUuid "01234567-89ab-cdef-0123-456789abcdef".toList :=
  ⟨"01234567".toList, "89ab".toList, "cdef".toList, "0123".toList, "456789abcdef".toList,
    by decide, ⟨rfl, List.all_eq_true.mp rfl⟩, ⟨rfl, List.all_eq_true.mp rfl⟩,
    ⟨rfl, List.all_eq_true.mp rfl⟩, ⟨rfl, List.all_eq_true.mp rfl⟩,
    ⟨rfl, List.all_eq_true.mp rfl⟩⟩

/-- Files can be created everywhere, and they stay. -/
def keepsFiles (tried : List String) (path : String) : FlagAnswer :=
  if path ∈ tried then .isFile else .created

/-- Both namespaces have the same mount point. The file is listed for the first one. -/
theorem processMountpointsContainer_flags_mounted : ∃ tried entries,
    processMountpointsContainer threeProcesses mountedAnswers keepsFiles
        "01234567-89ab-cdef-0123-456789abcdef" = .ok (tried, entries) ∧
      entries.map (·.flagFiles) =
        [["/mnt/xyz_checkc_flag_01234567-89ab-cdef-0123-456789abcdef"], []] ∧
      (entries.flatMap (·.flagFiles)).Nodup ∧
      ∀ mountns ∈ entries, ∀ flag ∈ mountns.flagFiles, ContainsUuid flag := by
  have hrun : processMountpointsContainer threeProcesses mountedAnswers keepsFiles
      "01234567-89ab-cdef-0123-456789abcdef" =
        .ok (["/mnt/xyz_checkc_flag_01234567-89ab-cdef-0123-456789abcdef"],
          [⟨some ⟨4, 10⟩, [1, 2], [], ["36 35 98:0 / /mnt rw - ext3 /dev/r rw"],
              ["/mnt/xyz_checkc_flag_01234567-89ab-cdef-0123-456789abcdef"]⟩,
            ⟨some ⟨4, 20⟩, [3], [], ["36 35 98:0 / /mnt rw - ext3 /dev/r rw"], []⟩]) := by
    decide +kernel
  have hos : Persists keepsFiles := fun tried path more _ => if_pos (by simp)
  obtain ⟨-, -, -, -, hnodup, hflags⟩ := processMountpointsContainer_flags hos isUuid_sample hrun
  exact ⟨_, _, hrun, rfl, hnodup, hflags⟩

end Fs

end Checkc
