import Checkc.Assessment.Complete
import Checkc.Evaluation.FromConfig
import Checkc.Pipeline.Posture

/-! # The assessed posture

An evaluation determines a posture. The assessment of its report always returns, collects
exactly the active namespaces and the permitted capabilities of the evaluation, and grades
each goal by the verdict on the posture.
-/

namespace Checkc

open Outcome (bind_eq_ok pure_eq_ok)

open Criticality

/-! ## Categories of an evaluation -/

namespace CategorySpec

/-- Every supported namespace type belongs to some category. -/
theorem mem_namespaces_iff {t : NsType} :
    (∃ spec ∈ all, ∃ namespaces ∈ spec.namespaces, t ∈ namespaces) ↔ t ≠ .unspecified := by
  have h : (∃ spec ∈ all, ∃ namespaces ∈ spec.namespaces, t ∈ namespaces) ↔
      t ∈ all.flatMap fun spec => spec.namespaces.elim [] HashSet.elems := by
    simp only [List.mem_flatMap]
    refine exists_congr fun spec => and_congr_right fun _ => ?_
    cases spec.namespaces <;> simp [HashSet.mem_def]
  rw [h]
  cases t <;> decide

/-- The categories divide the capabilities among them. -/
theorem flatMap_caps_perm : (all.flatMap (·.caps.elems)).Perm Capability.list := by
  decide +kernel

theorem mem_isolated_active {spec : CategorySpec} {env : Env} {nsSet namespaces : HashSet NsType}
    {t : NsType} : ProtoEnum.toI32 t ∈ (spec.isolated env nsSet namespaces).active ↔
      t ∈ namespaces ∧ t ∈ nsSet := by
  simp [isolated, List.mem_map]

theorem mem_isolated_desired {spec : CategorySpec} {env : Env} {nsSet namespaces : HashSet NsType}
    {t : NsType} : ProtoEnum.toI32 t ∈ (spec.isolated env nsSet namespaces).desired ↔
      t ∈ namespaces := by
  simp [isolated, List.mem_map]

end CategorySpec

namespace Evaluation

variable {env : Env} {config : Config} {root : PathBuf} (x : Evaluation env config root)

/-- The reported categories are those of the eight specifications, in order. -/
theorem forall₂_categories : List.Forall₂
    (fun spec entry => ∃ chroot cgroup tests,
      entry = (spec.label, x.category spec chroot cgroup tests)) CategorySpec.all x.categories :=
  .cons ⟨_, _, _, rfl⟩ <| .cons ⟨_, _, _, rfl⟩ <| .cons ⟨_, _, _, rfl⟩ <| .cons ⟨_, _, _, rfl⟩ <|
    .cons ⟨_, _, _, rfl⟩ <| .cons ⟨_, _, _, rfl⟩ <| .cons ⟨_, _, _, rfl⟩ <|
      .cons ⟨_, _, _, rfl⟩ .nil

theorem nodup_labels : (x.categories.map Prod.fst).Nodup := by
  change (CategorySpec.all.map CategorySpec.label).Nodup
  decide

variable {x} in
theorem get_categories {label : String} {c : Category} :
    x.result.categories.get label = some c ↔ (label, c) ∈ x.categories :=
  HashMap.get_ofList_eq_some_iff x.nodup_labels

theorem categories_iter_perm (site : String) :
    (x.result.categories.iter env.σ site).Perm x.categories :=
  HashMap.iter_ofList_perm env.σ site x.nodup_labels

theorem category_namespaces (spec : CategorySpec) (chroot : Option Chroot) (cgroup : Option Bool)
    (tests : HashMap String TestResult) : (x.category spec chroot cgroup tests).namespaces =
      spec.namespaces.map (spec.isolated env x.nsSet) := by
  rw [Category.namespaces, category, CategorySpec.category]
  cases spec.namespaces <;> rfl

/-- A namespace type is reported active by some category exactly when it is supported and
isolates the container. -/
theorem exists_active_iff {t : NsType} :
    (∃ entry ∈ x.categories, ∃ n ∈ entry.2.namespaces, ProtoEnum.toI32 t ∈ n.active) ↔
      t ≠ .unspecified ∧ t ∈ x.nsSet := by
  rw [← CategorySpec.mem_namespaces_iff, ← exists_mem_iff_of_forall₂ x.forall₂_categories
    (P := fun spec => ∃ namespaces ∈ spec.namespaces, t ∈ namespaces ∧ t ∈ x.nsSet)]
  · simp only [← and_assoc, exists_and_right]
  · rintro spec _ ⟨chroot, cgroup, tests, rfl⟩
    rw [category_namespaces]
    simp [CategorySpec.mem_isolated_active]

/-- Every supported namespace type is desired by some category. -/
theorem exists_desired_iff {t : NsType} :
    (∃ entry ∈ x.categories, ∃ n ∈ entry.2.namespaces, ProtoEnum.toI32 t ∈ n.desired) ↔
      t ≠ .unspecified := by
  rw [← CategorySpec.mem_namespaces_iff, ← exists_mem_iff_of_forall₂ x.forall₂_categories
    (P := fun spec => ∃ namespaces ∈ spec.namespaces, t ∈ namespaces)]
  rintro spec _ ⟨chroot, cgroup, tests, rfl⟩
  rw [category_namespaces]
  simp [CategorySpec.mem_isolated_desired]

/-- The numbers of the capabilities that the categories report. -/
theorem flatMap_capabilities_perm : (x.categories.flatMap (·.2.capabilities)).Perm
    ((Capability.list.filter (· ∈ x.capabilities)).map ProtoEnum.toI32) := by
  have hp : ∀ spec : CategorySpec,
      ((spec.caps.inter x.capabilities).iter env.σ (spec.label ++ ".capabilities")).Perm
        (spec.caps.elems.filter (· ∈ x.capabilities)) :=
    fun spec => env.σ.perm _ _
  have he : x.categories.flatMap (·.2.capabilities) = CategorySpec.all.flatMap fun spec =>
      ((spec.caps.inter x.capabilities).iter env.σ (spec.label ++ ".capabilities")).map
        ProtoEnum.toI32 := rfl
  rw [he, ← List.map_flatMap]
  apply List.Perm.map _
  apply (List.Perm.flatMap_left _ fun spec _ => hp spec).trans
  rw [← List.filter_flatMap]
  exact CategorySpec.flatMap_caps_perm.filter _

theorem collectCapabilities_perm {site : String} {caps : List Capability}
    (h : (x.result.categories.iter env.σ site).foldlM collectCapabilities [] = .ok caps) :
    caps.Perm (Capability.list.filter (· ∈ x.capabilities)) := by
  have h := map_collectCapabilities h
  rw [List.map_nil, List.nil_append] at h
  rw [← List.map_perm_map_iff ProtoEnum.toI32_injective, h]
  exact ((x.categories_iter_perm _).flatMap_right _).trans x.flatMap_capabilities_perm

/-! ## The assessment of an evaluation -/

section Assessed

variable {x} (y : Assessment env x.result)

theorem mem_activeNs {t : NsType} : t ∈ y.activeNs ↔ t ≠ .unspecified ∧ t ∈ x.nsSet := by
  rw [← x.exists_active_iff, (mem_collectedNamespaces y.namespaces_eq t).1]
  simp only [(x.categories_iter_perm _).mem_iff]

theorem mem_desiredNs {t : NsType} : t ∈ y.desiredNs ↔ t ≠ .unspecified := by
  rw [← x.exists_desired_iff, (mem_collectedNamespaces y.namespaces_eq t).2]
  simp only [(x.categories_iter_perm _).mem_iff]

/-- Goal S1 collects every permitted capability once. -/
theorem capabilities_perm :
    y.capabilities.Perm (Capability.list.filter (· ∈ x.capabilities)) :=
  x.collectCapabilities_perm y.capabilities_eq

theorem mem_capabilities {cap : Capability} :
    cap ∈ y.capabilities ↔ cap ≠ .unspecified ∧ cap ∈ x.capabilities := by
  rw [(capabilities_perm y).mem_iff]
  simp [Capability.mem_list]

theorem dev_eq :
    y.dev = whitelistResult x.input.device.devDevices (.user ∈ x.nsSet) :=
  (Outcome.ok.inj y.dev_eq).symm

theorem mknod_eq :
    y.mknod = whitelistResult x.input.device.mknodDevices (.user ∈ x.nsSet) :=
  (Outcome.ok.inj y.mknod_eq).symm

theorem unique_eq : y.unique = .plain x.input.userNs.uniqueMapping :=
  (Outcome.ok.inj y.unique_eq).symm

theorem nonRoot_eq : y.nonRoot = .plain (x.input.userNs.uidMap.find? (·.parent = 0)).isNone :=
  (Outcome.ok.inj y.nonRoot_eq).symm

theorem host_eq' : y.host = .ofLines x.flagsHost := (Outcome.ok.inj y.host_eq).symm

theorem refcontainer_eq' : y.refcontainer = .ofLines x.flagsRefcontainer :=
  (Outcome.ok.inj y.refcontainer_eq).symm

theorem cpu_eq : y.cpu = limitTest x.input.cgroup.interfaceFiles "cpu.max" :=
  (Outcome.ok.inj y.cpu_eq).symm

theorem memory_eq : y.memory = limitTest x.input.cgroup.interfaceFiles "memory.max" :=
  (Outcome.ok.inj y.memory_eq).symm

theorem chrootConf_eq : y.chrootConf = chrootState x.input.hostRoot x.input.containerRoot := by
  have hf : some y.filesystem = some _ := y.filesystem_eq.symm
  have hi := y.fsIsolation_eq
  have hc := y.chrootConf_eq
  rw [Option.some.inj hf] at hi
  rw [← Option.some.inj hi] at hc
  exact (Option.some.inj hc).symm

theorem cgroupNamespaces_eq : y.cgroupNamespaces =
    CategorySpec.resourceControl.isolated env x.nsSet (HashSet.ofList [.cgroup]) := by
  have hr : some y.resourceControl = some _ := y.resourceControl_eq.symm
  have hi := y.cgroupIsolation_eq
  have hn := y.cgroupNamespaces_eq
  rw [Option.some.inj hr] at hi
  rw [← Option.some.inj hi] at hn
  exact (Option.some.inj hn).symm

/-- The namespaces of the category match those desired exactly when it has its namespace. -/
theorem cgroup_mismatch_iff :
    y.cgroupNamespaces.desired = y.cgroupNamespaces.active ↔ .cgroup ∈ x.nsSet := by
  have hd : ∀ site, (HashSet.ofList [NsType.cgroup]).iter env.σ site = [.cgroup] :=
    fun _ => HashSet.iter_of_elems_singleton rfl
  rw [cgroupNamespaces_eq]
  by_cases hc : .cgroup ∈ x.nsSet
  · have ha : ∀ site,
        ((HashSet.ofList [NsType.cgroup]).inter x.nsSet).iter env.σ site = [.cgroup] :=
      fun _ => HashSet.iter_of_elems_singleton <|
        List.filter_eq_self.mpr fun t ht => by
          obtain rfl : t = .cgroup := List.mem_singleton.mp ht
          simpa using hc
    simp [CategorySpec.isolated, hd, ha, hc]
  · have ha : ∀ site, ((HashSet.ofList [NsType.cgroup]).inter x.nsSet).iter env.σ site = [] := by
      simp [hc]
    simp [CategorySpec.isolated, hd, ha, hc]

end Assessed

/-- Every category of the evaluation reports numbers of namespace types and capabilities. -/
theorem named {entry : String × Category} (h : entry ∈ x.categories) : entry.2.Named := by
  obtain ⟨spec, hspec, chroot, cgroup, tests, rfl⟩ :=
    exists_mem_of_forall₂ x.forall₂_categories h
  have hns : ∀ n ∈ (x.category spec chroot cgroup tests).namespaces,
      ∃ namespaces, spec.isolated env x.nsSet namespaces = n := by
    intro n hn
    rw [category_namespaces, Option.mem_map] at hn
    obtain ⟨namespaces, -, hn⟩ := hn
    exact ⟨namespaces, hn⟩
  refine ⟨fun n hn => ?_, fun n hn => ?_, known_map _, fun hu => ?_⟩
  · obtain ⟨namespaces, rfl⟩ := hns n hn
    exact known_map _
  · obtain ⟨namespaces, rfl⟩ := hns n hn
    exact known_map _
  · have hmem : ProtoEnum.toI32 Capability.unspecified ∈ x.categories.flatMap (·.2.capabilities) :=
      List.mem_flatMap.mpr ⟨_, h, hu⟩
    rw [x.flatMap_capabilities_perm.mem_iff,
      List.mem_map_of_injective ProtoEnum.toI32_injective] at hmem
    exact Capability.mem_list.mp (List.mem_of_mem_filter hmem) rfl

/-- The report of an evaluation has all that the goals look up. -/
theorem complete : x.result.Complete where
  tests g := by
    cases g with
    | s1 => exact List.forall_mem_singleton.mpr ⟨_, rfl⟩
    | s2 => exact List.forall_mem_cons.mpr ⟨⟨_, rfl⟩, List.forall_mem_singleton.mpr ⟨_, rfl⟩⟩
    | s3 =>
      exact List.forall_mem_cons.mpr ⟨⟨_, rfl⟩, List.forall_mem_cons.mpr
        ⟨⟨_, rfl⟩, List.forall_mem_singleton.mpr ⟨_, rfl⟩⟩⟩
    | s4 => exact List.forall_mem_cons.mpr ⟨⟨_, rfl⟩, List.forall_mem_singleton.mpr ⟨_, rfl⟩⟩
  named _ _ hc := x.named (get_categories.mp hc)
  root := ⟨_, rfl, _, rfl, _, rfl⟩
  cgroup := ⟨_, rfl, _, rfl, _, rfl⟩

/-- The assessment of the report of an evaluation returns. -/
theorem exists_assessment : Nonempty (Assessment env x.result) :=
  x.complete.exists_assessment env

/-! ## The posture -/

/-- The posture of an evaluated container. -/
def posture : Posture where
  missing := NsType.list.toFinset.filter (· ∉ x.nsSet)
  permitted := x.capabilities.toFinset.erase .unspecified
  rootShared := (chrootState x.input.hostRoot x.input.containerRoot).Issue
  mapsToRoot := (x.input.userNs.uidMap.find? (·.parent = 0)).isSome
  mappingShared := !x.input.userNs.uniqueMapping
  hostLeak := !x.flagsHost.isEmpty
  refcontainerLeak := !x.flagsRefcontainer.isEmpty
  devOffending := !(whitelistResult x.input.device.devDevices (.user ∈ x.nsSet)).passed
  mknodOffending := !(whitelistResult x.input.device.mknodDevices (.user ∈ x.nsSet)).passed
  cpuUnlimited := !(limitTest x.input.cgroup.interfaceFiles "cpu.max").passed
  memoryUnlimited := !(limitTest x.input.cgroup.interfaceFiles "memory.max").passed

theorem mem_missing {t : NsType} : t ∈ x.posture.missing ↔ t ≠ .unspecified ∧ t ∉ x.nsSet := by
  simp [posture, NsType.mem_list]

theorem mem_permitted {cap : Capability} :
    cap ∈ x.posture.permitted ↔ cap ≠ .unspecified ∧ cap ∈ x.capabilities := by
  simp [posture]

section Assessed

variable {x} (y : Assessment env x.result)

theorem recordVerdict_eq {r : CapabilityRecord} (hr : r.WellGraded) :
    r.criticality y.activeNs = x.posture.recordVerdict r := by
  have hs : ∀ s : HashSet NsType, (∀ t ∈ s, t ≠ .unspecified) →
      (s.isSubset y.activeNs = true ↔ Disjoint s.toFinset x.posture.missing) := by
    intro s hs
    rw [HashSet.isSubset_iff, Finset.disjoint_left]
    apply forall_congr'
    intro t
    rw [HashSet.mem_toFinset, mem_missing, mem_activeNs]
    apply imp_congr_right
    intro ht
    have := hs t ht
    tauto
  simp only [CapabilityRecord.criticality, Posture.recordVerdict, hs _ hr.ok_supported,
    hs _ hr.warn_supported]

theorem grade_s2 : grade (findingsS2 y.dev y.mknod) = x.posture.verdictS2 := by
  rw [findingsS2, grade_append, dev_eq, mknod_eq, grade_testFindings_of_valid _ rfl,
    grade_testFindings_of_valid _ rfl, max_errorIf]
  exact errorIf_congr (by simp [posture])

/-- The nested conditions of the special case are one condition and the grade of goal S2. -/
theorem sysChrootCriticality_eq :
    sysChrootCriticality y.activeNs (grade (findingsS2 y.dev y.mknod)) y.chrootConf =
      errorIf (.user ∈ x.posture.missing ∨ .mount ∈ x.posture.missing ∨ x.posture.rootShared) ⊔
        x.posture.verdictS2 := by
  have hns : (.user ∉ y.activeNs ∨ .mount ∉ y.activeNs) ↔
      (.user ∈ x.posture.missing ∨ .mount ∈ x.posture.missing) := by
    simp [mem_activeNs, mem_missing]
  have hch : y.chrootConf.Issue ↔ x.posture.rootShared = true := by
    simp [posture, chrootConf_eq]
  rw [sysChrootCriticality, grade_s2]
  simp only [hns, hch, errorIf, ← or_assoc]
  by_cases h1 : .user ∈ x.posture.missing ∨ .mount ∈ x.posture.missing
  · rw [if_pos h1, if_pos (Or.inl h1)]
    exact (top_sup_eq _).symm
  by_cases h2 : x.posture.rootShared = true
  · rw [if_neg h1, if_pos h2, if_pos (Or.inr h2)]
    exact (top_sup_eq _).symm
  · rw [if_neg h1, if_neg h2, if_neg (not_or.mpr ⟨h1, h2⟩)]
    exact (sup_eq_right.mpr (ok_le_errorIf _)).symm

theorem capabilityVerdict_eq {cap : Capability} (hc : cap ≠ .unspecified) :
    capabilityCriticality y.activeNs (grade (findingsS2 y.dev y.mknod)) y.chrootConf cap =
      x.posture.capabilityVerdict cap := by
  unfold capabilityCriticality Posture.capabilityVerdict
  split
  · exact sysChrootCriticality_eq y
  · obtain ⟨r, hr⟩ := Option.isSome_iff_exists.mp (capMap_isSome_iff.mpr hc)
    rw [hr]
    exact recordVerdict_eq y (wellGraded_of_get hr)

theorem grade_capabilityFindings_le {d : Criticality} :
    grade (capabilityFindings y.activeNs (grade (findingsS2 y.dev y.mknod)) y.chrootConf
      y.capabilities) ≤ d ↔ ok ≤ d ∧ x.posture.permitted.sup x.posture.capabilityVerdict ≤ d := by
  rw [grade_capabilityFindings_le_iff, Finset.sup_le_iff]
  refine and_congr_right fun _ => forall_congr' fun cap => ?_
  rw [mem_capabilities, mem_permitted]
  exact imp_congr_right fun hp => by rw [capabilityVerdict_eq y hp.1]

theorem grade_s1 : y.grade .s1 = x.posture.verdict .s1 := by
  have hm : NamespaceMismatch y.activeNs y.desiredNs ↔ x.posture.missing.Nonempty := by
    apply exists_congr
    intro t
    rw [mem_desiredNs, mem_activeNs, mem_missing]
    tauto
  have hc : y.chrootConf.Issue ↔ x.posture.rootShared = true := by
    simp [posture, chrootConf_eq]
  have hv : y.nonRoot.valid = true := by rw [nonRoot_eq]; rfl
  have hr : y.nonRoot.passed = false ↔ x.posture.mapsToRoot = true := by
    rw [nonRoot_eq]
    simp [posture, TestResult.plain]
  apply eq_of_forall_ge_iff
  intro d
  have hok : errorIf x.posture.missing.Nonempty ≤ d → ok ≤ d := (ok_le_errorIf _).trans
  rw [Assessment.grade, Assessment.findings, grade_append, grade_append, grade_append,
    grade_ite rfl, grade_ite rfl, grade_testFindings_of_valid _ hv, Posture.verdict,
    errorIf_congr hc, errorIf_congr hm, errorIf_congr hr, ← max_errorIf, ← max_errorIf]
  simp only [max_le_iff, grade_capabilityFindings_le]
  constructor
  · rintro ⟨⟨⟨hroot, hmiss⟩, -, hcap⟩, hmap⟩
    exact ⟨⟨hmiss, hroot, hmap⟩, hcap⟩
  · rintro ⟨⟨hmiss, hroot, hmap⟩, hcap⟩
    exact ⟨⟨⟨hroot, hmiss⟩, hok hmiss, hcap⟩, hmap⟩

/-- The grade of each goal is the verdict on the posture. -/
theorem grade_eq_verdict (g : Goal) : y.grade g = x.posture.verdict g := by
  cases g with
  | s1 => exact grade_s1 y
  | s2 => exact grade_s2 y
  | s3 =>
    rw [Assessment.grade, Assessment.findings, grade_append, grade_append, unique_eq, host_eq',
      refcontainer_eq', grade_testFindings_of_valid _ rfl, grade_testFindings_of_valid _ rfl,
      grade_testFindings_of_valid _ rfl, max_errorIf, max_errorIf]
    exact errorIf_congr (by simp [posture, TestResult.plain, TestResult.ofLines, or_assoc])
  | s4 =>
    rw [Assessment.grade, Assessment.findings, grade_append, grade_append, cpu_eq, memory_eq,
      grade_ite rfl, grade_testFindings_of_valid _ (limitTest_valid _ _),
      grade_testFindings_of_valid _ (limitTest_valid _ _), max_errorIf, max_errorIf,
      Posture.verdict]
    exact errorIf_congr (by simp [posture, or_assoc, NsType.mem_list, cgroup_mismatch_iff])

end Assessed

end Evaluation

end Checkc
