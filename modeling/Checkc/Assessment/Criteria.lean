import Checkc.Assessment.Order

/-! # Criteria of the goals

The state of an assessment of capabilities is determined by their criticalities, which get no
worse in more namespaces. Goals S1 and S4 both compare desired with active namespaces. Goal S1
compares them as sets and goal S4 as lists, which makes a difference for lists of equal sets.
-/

namespace Checkc

open Outcome (bind_eq_ok pure_eq_ok)

open Criticality

/-! ## Capabilities -/

section Capabilities

variable {nsSet nsSet' : HashSet NsType} {goalS2 goalS2' : Criticality} {chrootConf : Chroot}
  {capabilities capabilities' : List Capability}

theorem CapabilityRecord.WellGraded.criticality_anti {record : CapabilityRecord}
    (hw : record.WellGraded) (h : ∀ t ∈ nsSet, t ∈ nsSet') :
    record.criticality nsSet' ≤ record.criticality nsSet := by
  have hsub : ∀ s : HashSet NsType, s.isSubset nsSet = true → s.isSubset nsSet' = true := by
    intro s hs
    rw [HashSet.isSubset_iff] at hs ⊢
    exact fun t ht => h t (hs t ht)
  by_cases h1 : ¬ record.ok.isEmpty ∧ record.ok.isSubset nsSet
  · rw [criticality, criticality, if_pos h1, if_pos ⟨h1.1, hsub _ h1.2⟩]
  by_cases h2 : ¬ record.warn.isEmpty ∧ record.warn.isSubset nsSet
  · rw [criticality, criticality, if_neg h1, if_pos h2, if_pos (And.imp_right (hsub _) h2)]
    split
    · decide
    · exact le_rfl
  · rw [criticality, criticality, if_neg h1, if_neg h2]
    split_ifs with h1' h2'
    · exact hw.ok_lt_default.le
    · exact hw.warn_le_default (Bool.eq_false_of_not_eq_true h2'.1)
    · exact le_rfl

/-- A capability is no worse in more namespaces and after a better result for goal S2. -/
theorem capabilityCriticality_mono (h : ∀ t ∈ nsSet, t ∈ nsSet') (hg : goalS2' ≤ goalS2)
    (cap : Capability) : capabilityCriticality nsSet' goalS2' chrootConf cap ≤
      capabilityCriticality nsSet goalS2 chrootConf cap := by
  unfold capabilityCriticality sysChrootCriticality
  split
  · split_ifs with h1' h1 h2 h1 h2
    · exact le_rfl
    · exact le_rfl
    · exact absurd (h1'.imp (mt (h _)) (mt (h _))) h1
    all_goals first | exact le_error _ | exact hg
  · cases hc : capMap.get cap with
    | none => exact le_rfl
    | some record => exact (wellGraded_of_get hc).criticality_anti h

/-- More capabilities are graded no better. -/
theorem worst_mono {f f' : Capability → Criticality} (hc : capabilities ⊆ capabilities')
    (h : ∀ cap, f cap ≤ f' cap) : worst (capabilities.map f) ≤ worst (capabilities'.map f') := by
  rw [worst_le_iff, List.forall_mem_map]
  refine ⟨ok_le_worst, fun cap hcap => (h cap).trans ?_⟩
  exact (worst_le_iff.mp le_rfl).2 _ (List.mem_map_of_mem (hc hcap))

/-- The lines of an assessment name the capabilities that are worse than `ok`. -/
theorem Records.forall₂_capabilities {base : Criticality} {r : SecResult}
    {f : Capability → Criticality}
    (h : Records base r (capabilities.map fun cap => .capability cap (f cap))) :
    List.Forall₂ (fun cap line => cap.display.toList <:+: line.toList)
      (capabilities.filter (ok < f ·)) r.info := by
  have hinfo := h.info
  rw [List.filter_map, List.forall₂_map_left_iff] at hinfo
  exact hinfo

/-- Assessing capabilities takes the worst of their criticalities and explains those above `ok`,
in order. The state gets no worse with more namespaces, and no better with more capabilities or
a worse result for goal S2. -/
theorem assessCapabilities_exact (env : Env) (hg : ok ≤ goalS2)
    (hc : ∀ cap ∈ capabilities, (capMap.get cap).isSome = true) :
    ∃ r d, assessCapabilities env nsSet goalS2 chrootConf capabilities = .ok r ∧
      r.state = ProtoEnum.toI32 d ∧
      max d ok = worst (capabilities.map (capabilityCriticality nsSet goalS2 chrootConf)) ∧
      List.Forall₂ (fun cap line => cap.display.toList <:+: line.toList)
        (capabilities.filter (ok < capabilityCriticality nsSet goalS2 chrootConf ·)) r.info ∧
      ∀ env' nsSet' goalS2' capabilities' r' d', (∀ t ∈ nsSet', t ∈ nsSet) → goalS2 ≤ goalS2' →
        capabilities ⊆ capabilities' →
        assessCapabilities env' nsSet' goalS2' chrootConf capabilities' = .ok r' →
        r'.state = ProtoEnum.toI32 d' → max d ok ≤ max d' ok := by
  have hspecified : ∀ cap ∈ capabilities, cap ≠ .unspecified :=
    fun cap hcap => capMap_isSome_iff.mp (hc cap hcap)
  obtain ⟨r, hr⟩ := assessCapabilities_isOk env nsSet goalS2 chrootConf hspecified
  have hrecords := records_assessCapabilities hg hr
  obtain ⟨d, -, hd, hmax⟩ := hrecords.state
  rw [grade, capabilityFindings, List.map_map] at hmax
  refine ⟨r, d, hr, hd, ?_, hrecords.forall₂_capabilities, ?_⟩
  · rw [max_comm, hmax]
    rfl
  · intro env' nsSet' goalS2' capabilities' r' d' hns hg' hcaps hr' hd'
    obtain ⟨d'', -, hd'', hmax'⟩ := (records_assessCapabilities (hg.trans hg') hr').state
    obtain rfl := ProtoEnum.toI32_injective (hd'.symm.trans hd'')
    rw [grade, capabilityFindings, List.map_map] at hmax'
    rw [max_comm, hmax, max_comm, hmax']
    exact worst_mono hcaps fun cap => capabilityCriticality_mono hns hg' cap

theorem assessCapabilities_exact_sysChroot : ∃ r d,
    assessCapabilities .logging (HashSet.ofList [.user]) .warn ⟨true, true⟩
      [.capAuditRead, .capSysChroot] = .ok r ∧
      r.state = ProtoEnum.toI32 d ∧ max d ok = error ∧ r.info.length = 1 := by
  have hc : ∀ cap ∈ [Capability.capAuditRead, .capSysChroot], (capMap.get cap).isSome = true :=
    fun cap hcap => capMap_isSome_iff.mpr (by rintro rfl; simp at hcap)
  obtain ⟨r, d, hr, hd, hmax, hinfo, -⟩ := @assessCapabilities_exact (HashSet.ofList [.user]) warn
    ⟨true, true⟩ _ .logging (by decide) hc
  refine ⟨r, d, hr, hd, hmax.trans (by decide +kernel), ?_⟩
  rw [← hinfo.length_eq]
  decide +kernel

end Capabilities

/-! ## Namespaces of goal S4 -/

/-- Some desired type is not active. -/
def Namespaces.Missing (n : Namespaces) : Prop := ∃ t ∈ n.desired, t ∉ n.active

instance (n : Namespaces) : Decidable n.Missing := inferInstanceAs (Decidable (∃ t ∈ _, _))

/-- Goal S1 compares sets of namespaces by this criterion. -/
theorem missing_iff_namespaceMismatch {n : Namespaces} {active desired : List NsType}
    (ha : n.active = active.map ProtoEnum.toI32) (hd : n.desired = desired.map ProtoEnum.toI32) :
    n.Missing ↔ NamespaceMismatch (HashSet.ofList active) (HashSet.ofList desired) := by
  simp only [Namespaces.Missing, NamespaceMismatch, ha, hd, HashSet.mem_ofList, List.mem_map,
    exists_exists_and_eq_and, ProtoEnum.toI32_inj, exists_eq_right]

/-- A line says that namespaces do not match. -/
def RaisesNamespaces (r : SecResult) : Prop :=
  ∃ line ∈ r.info, "Active namespaces (".toList <+: line.toList

/-- Goal S4 judges the namespaces of its category as sets. -/
structure GoalS4NoAvaiabilityImpact.Judges (goal : GoalS4NoAvaiabilityImpact) (n : Namespaces) :
    Prop where
  used : goal.cgroupsNamespaceUsed = false ↔ n.Missing
  raises : (∃ r, goal.result = some r ∧ RaisesNamespaces r) ↔ n.Missing

theorem raisesNamespaces_append {r : SecResult} {c : Criticality} {line : String} :
    RaisesNamespaces (r.append c [line]) ↔
      RaisesNamespaces r ∨ "Active namespaces (".toList <+: line.toList := by
  simp only [RaisesNamespaces, SecResult.append, List.mem_append, List.mem_singleton,
    or_and_right, exists_or, exists_eq_left]

/-- The lines about tests are no lines about namespaces. -/
theorem raisesNamespaces_assessTest (name : String) (test : TestResult) (r : SecResult) :
    RaisesNamespaces (assessTest name test r) ↔ RaisesNamespaces r := by
  have hline : ∀ line : String, "test ".toList <+: line.toList →
      ¬ "Active namespaces (".toList <+: line.toList := by
    rintro line ⟨t, ht⟩ ⟨t', ht'⟩
    exact absurd (List.cons.inj (ht.trans ht'.symm)).1 (by decide)
  have happend : ∀ (r : SecResult) (s : String),
      RaisesNamespaces (r.append .error [s!"test {name}{s}"]) ↔ RaisesNamespaces r := by
    intro r s
    rw [raisesNamespaces_append, or_iff_left (hline _ _)]
    simp only [String.toList_append, List.append_assoc]
    exact List.prefix_append _ _
  unfold assessTest
  split_ifs
  · exact Iff.rfl
  · exact happend _ _
  · exact happend _ _
  · exact (happend _ _).trans (happend _ _)

/-- Goal S4 raises its finding about namespaces whenever the two lists differ. -/
theorem raisesNamespaces_assessCgroupNamespaces {n : Namespaces} {used : Bool} {r : SecResult}
    (h : assessCgroupNamespaces n = .ok (used, r)) :
    (used = false ↔ n.desired ≠ n.active) ∧ (RaisesNamespaces r ↔ n.desired ≠ n.active) := by
  unfold assessCgroupNamespaces at h
  split at h
  · case isTrue hne =>
    simp only [bind_eq_ok, pure_eq_ok, Prod.mk.injEq] at h
    obtain ⟨active, -, desired, -, rfl, rfl⟩ := h
    refine ⟨iff_of_true rfl hne, iff_of_true (raisesNamespaces_append.mpr (Or.inr ?_)) hne⟩
    simp only [String.toList_append, List.append_assoc]
    exact List.prefix_append _ _
  · case isFalse hne =>
    simp only [pure_eq_ok, Prod.mk.injEq] at h
    obtain ⟨rfl, rfl⟩ := h
    refine ⟨iff_of_false (by decide) hne, iff_of_false ?_ hne⟩
    rintro ⟨line, hline, -⟩
    exact List.not_mem_nil hline

/-- Goal S4 judges the namespaces of its category as sets if and only if their lists are equal or
some desired type is missing. -/
theorem goalS4_judges_iff {env : Env} {e : EvalResult} {r : AssessmentReport}
    (hr : assessEvalResult env e = .ok r) : ∃ goal c n, r.goalS4 = some goal ∧
      e.categories.get "resource_control" = some c ∧ c.namespaces = some n ∧
      (goal.Judges n ↔ n.desired = n.active ∨ n.Missing) := by
  obtain ⟨x, rfl⟩ := assessEvalResult_eq_ok.mp hr
  refine ⟨_, _, _, rfl, x.resourceControl_eq,
    Category.namespaces_eq_some x.cgroupIsolation_eq x.cgroupNamespaces_eq, ?_⟩
  obtain ⟨hused, hraises⟩ := raisesNamespaces_assessCgroupNamespaces x.resultCgroup_eq
  have hresult : (∃ r, some (x.result .s4) = some r ∧ RaisesNamespaces r) ↔
      x.cgroupNamespaces.desired ≠ x.cgroupNamespaces.active := by
    simp only [Option.some.injEq, exists_eq_left']
    exact (raisesNamespaces_assessTest _ _ _).trans
      ((raisesNamespaces_assessTest _ _ _).trans hraises)
  constructor
  · rintro ⟨h, -⟩
    by_cases hm : x.cgroupNamespaces.Missing
    · exact Or.inr hm
    · exact Or.inl (not_not.mp fun hne => hm (h.mp (hused.mpr hne)))
  · intro h
    have hiff : x.cgroupNamespaces.desired ≠ x.cgroupNamespaces.active ↔
        x.cgroupNamespaces.Missing := by
      refine ⟨h.resolve_left, ?_⟩
      rintro ⟨t, ht, hn⟩ he
      exact hn (he ▸ ht)
    exact ⟨hused.trans hiff, hresult.trans hiff⟩

theorem goalS4_judges_iff_smallest : ∃ r goal c n,
    assessEvalResult .logging EvalResult.smallest = .ok r ∧ r.goalS4 = some goal ∧
      EvalResult.smallest.categories.get "resource_control" = some c ∧ c.namespaces = some n ∧
      goal.Judges n := by
  obtain ⟨r, hr⟩ : ∃ r, assessEvalResult .logging EvalResult.smallest = .ok r := ⟨_, rfl⟩
  obtain ⟨goal, c, n, hg, hc, hn, hiff⟩ := goalS4_judges_iff hr
  refine ⟨r, goal, c, n, hr, hg, hc, hn, hiff.mpr (Or.inr ?_)⟩
  obtain rfl := Option.some.inj (hc.symm.trans rfl)
  obtain rfl := Option.some.inj (hn.symm.trans rfl)
  decide

/-- A report in which an active type is listed twice. -/
def EvalResult.repeating : EvalResult :=
  { EvalResult.smallest with
    categories := EvalResult.smallest.categories.insert "resource_control"
      { isolation := some
          { namespaces := some
              { active := [NsType.cgroup, .cgroup].map ProtoEnum.toI32
                desired := [NsType.cgroup].map ProtoEnum.toI32 }
            chroot := none
            cgroup := some true }
        capabilities := []
        tests := HashMap.ofList [("cpu_max_limited", ⟨true, true, []⟩),
          ("memory_max_limited", ⟨true, true, []⟩)]
        description := "" } }

theorem repeating_not_judged : ∃ r goal c n,
    assessEvalResult .logging EvalResult.repeating = .ok r ∧ r.goalS4 = some goal ∧
      EvalResult.repeating.categories.get "resource_control" = some c ∧ c.namespaces = some n ∧
      goal.cgroupsNamespaceUsed = false ∧ ¬ n.Missing ∧ ¬ goal.Judges n := by
  refine ⟨_, _, _, _, rfl, rfl, rfl, rfl, rfl, by decide, fun h => ?_⟩
  exact absurd (h.used.mp rfl) (by decide)

end Checkc
