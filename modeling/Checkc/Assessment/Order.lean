import Checkc.Assessment.Complete
import Mathlib.Data.Multiset.Bind

/-! # Goal S1 and the order of collections

Reports that differ only in the order of their lists are assessed alike by goal S1, whatever the
order in which maps and sets are traversed.
-/

namespace Checkc

open Outcome (bind_eq_ok pure_eq_ok)

open Criticality

/-! ## Reports up to order -/

/-- The same namespaces in any order. -/
structure Namespaces.Reordered (n n' : Namespaces) : Prop where
  active : n.active.Perm n'.active
  desired : n.desired.Perm n'.desired

structure IsolationMechanisms.Reordered (i i' : IsolationMechanisms) : Prop where
  namespaces : Option.Rel Namespaces.Reordered i.namespaces i'.namespaces
  chroot : i.chroot = i'.chroot
  cgroup : i.cgroup = i'.cgroup

/-- The same category with its lists in any order. -/
structure Category.Reordered (c c' : Category) : Prop where
  isolation : Option.Rel IsolationMechanisms.Reordered c.isolation c'.isolation
  capabilities : c.capabilities.Perm c'.capabilities
  tests : ∀ name, c.tests.get name = c'.tests.get name
  description : c.description = c'.description

/-- The same report with the lists of its categories in any order. -/
structure EvalResult.Reordered (e e' : EvalResult) : Prop where
  categories : ∀ label,
    Option.Rel Category.Reordered (e.categories.get label) (e'.categories.get label)
  unprivileged : e.unprivileged = e'.unprivileged
  info : e.info = e'.info

theorem Category.Reordered.namespaces {c c' : Category} (h : c.Reordered c') :
    Option.Rel Namespaces.Reordered c.namespaces c'.namespaces := by
  have hi := h.isolation
  unfold Category.namespaces
  generalize c.isolation = i, c'.isolation = i' at hi
  cases hi with
  | none => exact .none
  | some hi => exact hi.namespaces

theorem Known.perm {α : Type} [ProtoEnum α] {codes codes' : List Int} (h : Known α codes)
    (hp : codes.Perm codes') : Known α codes' :=
  fun code hc => h code (hp.mem_iff.mpr hc)

theorem Category.Named.reordered {c c' : Category} (hn : c.Named) (h : c.Reordered c') :
    c'.Named := by
  have hns : ∀ n' ∈ c'.namespaces, ∃ n ∈ c.namespaces, n.Reordered n' := by
    intro n' hn'
    obtain ⟨n, hc, hr⟩ := exists_of_some_rel (Option.mem_def.mp hn' ▸ h.namespaces)
    exact ⟨n, hc, hr⟩
  refine ⟨fun n' hn' => ?_, fun n' hn' => ?_, hn.capabilities.perm h.capabilities, ?_⟩
  · obtain ⟨n, hc, hr⟩ := hns n' hn'
    exact (hn.active n hc).perm hr.active
  · obtain ⟨n, hc, hr⟩ := hns n' hn'
    exact (hn.desired n hc).perm hr.desired
  · rw [← h.capabilities.mem_iff]
    exact hn.unspecified

namespace EvalResult.Reordered

variable {e e' : EvalResult}

theorem getTest_eq (h : e.Reordered e') (category test : String) :
    e.getTest category test = e'.getTest category test := by
  have hc := h.categories category
  unfold getTest
  generalize e.categories.get category = c, e'.categories.get category = c' at hc
  cases hc with
  | none => rfl
  | some hc => simp only [unwrap_some, Outcome.ok_bind, hc.tests test]

/-- Reordering a report keeps it complete. -/
theorem complete (h : e.Reordered e') (hc : e.Complete) : e'.Complete where
  tests g p hp := by
    rw [← h.getTest_eq]
    exact hc.tests g p hp
  named label c' hc' := by
    obtain ⟨c, hget, hr⟩ := exists_of_some_rel (hc' ▸ h.categories label)
    exact (hc.named label c hget).reordered hr
  root := by
    obtain ⟨c, hget, i, hi, chroot, hch⟩ := hc.root
    obtain ⟨c', hget', hr⟩ := exists_of_rel_some (hget ▸ h.categories "filesystem")
    obtain ⟨i', hi', hri⟩ := exists_of_rel_some (hi ▸ hr.isolation)
    exact ⟨c', hget', i', hi', chroot, hri.chroot ▸ hch⟩
  cgroup := by
    obtain ⟨c, hget, i, hi, n, hn⟩ := hc.cgroup
    obtain ⟨c', hget', hr⟩ := exists_of_rel_some (hget ▸ h.categories "resource_control")
    obtain ⟨i', hi', hri⟩ := exists_of_rel_some (hi ▸ hr.isolation)
    obtain ⟨n', hn', -⟩ := exists_of_rel_some (hn ▸ hri.namespaces)
    exact ⟨c', hget', i', hi', n', hn'⟩

end EvalResult.Reordered

/-! ## Results up to order -/

/-- The lines are the same but for the order in which namespace types are listed in them. -/
inductive SameLine : String → String → Prop
  | refl (line : String) : SameLine line line
  | types (before after : String) (name : NsType → String) (types types' : List NsType)
      (hname : name = NsType.asStrName ∨ name = NsType.debug) (hperm : types.Perm types') :
      SameLine (before ++ ", ".intercalate (types.map name) ++ after)
        (before ++ ", ".intercalate (types'.map name) ++ after)

namespace SameLine

variable {line line' : String}

theorem append (h : SameLine line line') (s : String) : SameLine (line ++ s) (line' ++ s) := by
  cases h with
  | refl => exact .refl _
  | types before after name l l' hname hperm =>
    simpa only [String.append_assoc] using types before (after ++ s) name l l' hname hperm

theorem prepend (h : SameLine line line') (s : String) : SameLine (s ++ line) (s ++ line') := by
  cases h with
  | refl => exact .refl _
  | types before after name l l' hname hperm =>
    simpa only [String.append_assoc] using types (s ++ before) after name l l' hname hperm

/-- The names of the types alone. -/
theorem of_types {name : NsType → String} {types types' : List NsType}
    (hname : name = NsType.asStrName ∨ name = NsType.debug) (hperm : types.Perm types') :
    SameLine (", ".intercalate (types.map name)) (", ".intercalate (types'.map name)) := by
  have h := SameLine.types "" "" name types types' hname hperm
  rwa [String.empty_append, String.append_empty, String.empty_append, String.append_empty] at h

end SameLine

/-- The same lines in any order. -/
def SameLines (l l' : List String) : Prop :=
  Multiset.Rel SameLine (l : Multiset String) (l' : Multiset String)

namespace SameLines

variable {l l' m m' : List String}

theorem refl (l : List String) : SameLines l l :=
  Multiset.rel_refl_of_refl_on fun line _ => .refl line

theorem singleton {line line' : String} (h : SameLine line line') : SameLines [line] [line'] :=
  .cons h .zero

theorem append (h : SameLines l l') (hm : SameLines m m') : SameLines (l ++ m) (l' ++ m') :=
  h.add hm

/-- Lines about each element of a list. -/
theorem flatMap {α : Type} {s s' : List α} {f f' : α → List String} (hs : s.Perm s')
    (hf : ∀ a, SameLines (f a) (f' a)) : SameLines (s.flatMap f) (s'.flatMap f') := by
  have hrel : Multiset.Rel Eq (s : Multiset α) (s' : Multiset α) :=
    Multiset.rel_eq.mpr (Multiset.coe_eq_coe.mpr hs)
  have hb := Multiset.rel_bind (r := Eq) (p := SameLine) (f := fun a => (f a : Multiset String))
    (g := fun a => (f' a : Multiset String)) (fun a b he => he ▸ hf a) hrel
  rwa [Multiset.coe_bind, Multiset.coe_bind] at hb

end SameLines

/-! ## Lines of goal S1 -/

section Lines

variable (env env' : Env) {activeNs activeNs' : HashSet NsType} (goalS2 : Criticality)
  (chrootConf : Chroot)

/-- The lines about a capability. -/
def capabilityLines (nsSet : HashSet NsType) (cap : Capability) : List String :=
  if cap = .capSysChroot then (assessSysChroot env nsSet goalS2 chrootConf .default).info
  else (capMap.get cap).elim [] fun record => (assessRecord nsSet cap record .default).info

variable {env env' goalS2 chrootConf}

theorem info_assessSysChroot (r : SecResult) :
    (assessSysChroot env activeNs goalS2 chrootConf r).info =
      r.info ++ (assessSysChroot env activeNs goalS2 chrootConf .default).info := by
  unfold assessSysChroot
  split_ifs <;> simp [SecResult.append, SecResult.default]

theorem info_assessRecord (cap : Capability) (record : CapabilityRecord) (r : SecResult) :
    (assessRecord activeNs cap record r).info =
      r.info ++ (assessRecord activeNs cap record .default).info := by
  unfold assessRecord
  split_ifs <;> simp [SecResult.append, SecResult.default]

theorem info_assessCapability {r r' : SecResult} {cap : Capability}
    (h : assessCapability env activeNs goalS2 chrootConf r cap = .ok r') :
    r'.info = r.info ++ capabilityLines env goalS2 chrootConf activeNs cap := by
  simp only [assessCapability, bind_eq_ok, unwrap_eq_ok] at h
  obtain ⟨record, hr, h⟩ := h
  unfold capabilityLines
  split_ifs at h ⊢
  · obtain rfl := pure_eq_ok.mp h
    exact info_assessSysChroot r
  · obtain rfl := pure_eq_ok.mp h
    rw [hr]
    exact info_assessRecord cap record r

/-- The lines about the capabilities are in their order. -/
theorem info_assessCapabilities {capabilities : List Capability} {r : SecResult}
    (h : assessCapabilities env activeNs goalS2 chrootConf capabilities = .ok r) :
    r.info = capabilities.flatMap (capabilityLines env goalS2 chrootConf activeNs) := by
  refine foldlM_induction (P := fun l s =>
    s.info = l.flatMap (capabilityLines env goalS2 chrootConf activeNs)) rfl ?_ h
  intro l cap s s' hs hcap
  rw [info_assessCapability hcap, hs, List.flatMap_append, List.flatMap_singleton]

theorem sameLine_debugNsSet (h : ∀ t, t ∈ activeNs ↔ t ∈ activeNs') :
    SameLine (debugNsSet env activeNs) (debugNsSet env' activeNs') :=
  ((SameLine.of_types (.inr rfl) (HashSet.iter_perm h _ _ _ _)).prepend _).append _

theorem sameLines_sysChroot (h : ∀ t, t ∈ activeNs ↔ t ∈ activeNs') :
    SameLines (assessSysChroot env activeNs goalS2 chrootConf .default).info
      (assessSysChroot env' activeNs' goalS2 chrootConf .default).info := by
  unfold assessSysChroot
  simp only [← h]
  split_ifs
  · exact .singleton ((((sameLine_debugNsSet h).prepend _).append _).append _)
  all_goals exact .refl _

theorem assessRecord_congr (h : ∀ t, t ∈ activeNs ↔ t ∈ activeNs') (cap : Capability)
    (record : CapabilityRecord) (r : SecResult) :
    assessRecord activeNs cap record r = assessRecord activeNs' cap record r := by
  simp only [assessRecord, HashSet.isSubset_iff, h]

theorem sameLines_capability (h : ∀ t, t ∈ activeNs ↔ t ∈ activeNs') (cap : Capability) :
    SameLines (capabilityLines env goalS2 chrootConf activeNs cap)
      (capabilityLines env' goalS2 chrootConf activeNs' cap) := by
  unfold capabilityLines
  split_ifs
  · exact sameLines_sysChroot h
  · simp only [assessRecord_congr h]
    exact .refl _

theorem capabilityCriticality_congr (h : ∀ t, t ∈ activeNs ↔ t ∈ activeNs') (cap : Capability) :
    capabilityCriticality activeNs goalS2 chrootConf cap =
      capabilityCriticality activeNs' goalS2 chrootConf cap := by
  simp only [capabilityCriticality, sysChrootCriticality, CapabilityRecord.criticality,
    HashSet.isSubset_iff, h]

/-- Equal sets of namespaces are compared with equal lines. -/
theorem sameLines_assessNamespaces {desiredNs desiredNs' : HashSet NsType}
    (ha : ∀ t, t ∈ activeNs ↔ t ∈ activeNs') (hd : ∀ t, t ∈ desiredNs ↔ t ∈ desiredNs')
    (r : SecResult) : SameLines (assessNamespaces env activeNs desiredNs r).info
      (assessNamespaces env' activeNs' desiredNs' r).info := by
  have hdiff : ((desiredNs.difference activeNs).iter env.σ "assess_goal_s1.diff").Perm
      ((desiredNs'.difference activeNs').iter env'.σ "assess_goal_s1.diff") :=
    HashSet.iter_perm (fun t => by rw [HashSet.mem_difference, HashSet.mem_difference, ha, hd])
      _ _ _ _
  have hempty : ((desiredNs.difference activeNs).iter env.σ "assess_goal_s1.diff").isEmpty =
      ((desiredNs'.difference activeNs').iter env'.σ "assess_goal_s1.diff").isEmpty := by
    rw [Bool.eq_iff_iff, List.isEmpty_iff_length_eq_zero, List.isEmpty_iff_length_eq_zero,
      hdiff.length_eq]
  unfold assessNamespaces
  simp only [hempty]
  split
  · exact .append (.refl _) (.singleton ((SameLine.of_types (.inl rfl) hdiff).prepend _))
  · exact .refl _

theorem sameLines_assessTest {r r' : SecResult} (h : SameLines r.info r'.info) (name : String)
    (test : TestResult) :
    SameLines (assessTest name test r).info (assessTest name test r').info := by
  unfold assessTest
  cases test.valid with
  | true =>
    cases test.passed with
    | true => exact h
    | false => exact h.append (.refl _)
  | false =>
    cases test.passed with
    | true => exact h.append (.refl _)
    | false => exact (h.append (.refl _)).append (.refl _)

end Lines

/-! ## Assessments up to order -/

/-- The same grade with the same lines in any order. -/
structure SecResult.Reordered (r r' : SecResult) : Prop where
  state : r.state = r'.state
  info : SameLines r.info r'.info

/-- The same goal with its lists in any order. -/
structure GoalS1GlobalResourceModification.Reordered
    (g g' : GoalS1GlobalResourceModification) : Prop where
  description : g.description = g'.description
  result : ∃ r r', g.result = some r ∧ g'.result = some r' ∧ r.Reordered r'
  namespaceConf : ∃ n n', g.namespaceConf = some n ∧ g'.namespaceConf = some n' ∧ n.Reordered n'
  capabilities : g.capabilities.Perm g'.capabilities
  chrootConf : g.chrootConf = g'.chrootConf

theorem grade_perm {fs fs' : List Finding} (h : fs.Perm fs') : grade fs = grade fs' :=
  eq_of_forall_ge_iff fun c => by
    simp only [grade, worst_le_iff, List.forall_mem_map, h.mem_iff]

namespace EvalResult.Reordered

variable {e e' : EvalResult} {env env' : Env}

theorem test_eq (h : e.Reordered e') {category test : String} {t t' : TestResult}
    (ht : e.getTest category test = .ok t) (ht' : e'.getTest category test = .ok t') : t = t' :=
  Outcome.ok_unique ht ((h.getTest_eq category test).trans ht')

/-- Some category reports namespaces with a property that reordering keeps. -/
theorem exists_namespaces_iff (h : e.Reordered e') {P : Namespaces → Prop}
    (hP : ∀ n n', n.Reordered n' → (P n ↔ P n')) {σ σ' : Traversal} {site site' : String} :
    (∃ entry ∈ e.categories.iter σ site, ∃ n ∈ entry.2.namespaces, P n) ↔
      ∃ entry ∈ e'.categories.iter σ' site', ∃ n ∈ entry.2.namespaces, P n := by
  rw [HashMap.exists_mem_iter_iff (P := fun c : Category => ∃ n ∈ c.namespaces, P n),
    HashMap.exists_mem_iter_iff (P := fun c : Category => ∃ n ∈ c.namespaces, P n)]
  exact exists_congr fun label => exists_mem_iff_of_rel (h.categories label) fun _ _ hc =>
    exists_mem_iff_of_rel hc.namespaces hP

variable (x : Assessment env e) (x' : Assessment env' e')

theorem mem_activeNs_iff (h : e.Reordered e') (t : NsType) : t ∈ x.activeNs ↔ t ∈ x'.activeNs := by
  rw [(mem_collectedNamespaces x.namespaces_eq t).1, (mem_collectedNamespaces x'.namespaces_eq t).1]
  exact h.exists_namespaces_iff fun _ _ hn => hn.active.mem_iff

theorem mem_desiredNs_iff (h : e.Reordered e') (t : NsType) :
    t ∈ x.desiredNs ↔ t ∈ x'.desiredNs := by
  rw [(mem_collectedNamespaces x.namespaces_eq t).2, (mem_collectedNamespaces x'.namespaces_eq t).2]
  exact h.exists_namespaces_iff fun _ _ hn => hn.desired.mem_iff

theorem capabilities_perm (h : e.Reordered e') : x.capabilities.Perm x'.capabilities := by
  rw [← List.map_perm_map_iff ProtoEnum.toI32_injective,
    map_collectCapabilities x.capabilities_eq, map_collectCapabilities x'.capabilities_eq]
  simp only [List.map_nil, List.nil_append]
  rw [← Multiset.coe_eq_coe, ← Multiset.coe_bind, ← Multiset.coe_bind, ← Multiset.rel_eq]
  refine Multiset.rel_bind ?_ (HashMap.rel_iter h.categories env.σ env'.σ _ _)
  rintro ⟨label, c⟩ ⟨label', c'⟩ ⟨-, hc⟩
  exact Multiset.rel_eq.mpr (Multiset.coe_eq_coe.mpr hc.capabilities)

theorem chrootConf_eq (h : e.Reordered e') : x.chrootConf = x'.chrootConf := by
  obtain ⟨c', hc', hc⟩ := exists_of_rel_some (x.filesystem_eq ▸ h.categories "filesystem")
  obtain rfl := Option.some.inj (x'.filesystem_eq.symm.trans hc')
  obtain ⟨i', hi', hi⟩ := exists_of_rel_some (x.fsIsolation_eq ▸ hc.isolation)
  obtain rfl := Option.some.inj (x'.fsIsolation_eq.symm.trans hi')
  exact Option.some.inj (x.chrootConf_eq.symm.trans (hi.chroot.trans x'.chrootConf_eq))

/-- Goal S1 has the same findings. -/
theorem findings_perm (h : e.Reordered e') : (x.findings .s1).Perm (x'.findings .s1) := by
  have hmismatch : NamespaceMismatch x.activeNs x.desiredNs ↔
      NamespaceMismatch x'.activeNs x'.desiredNs :=
    exists_congr fun t => and_congr (h.mem_desiredNs_iff x x' t)
      (not_congr (h.mem_activeNs_iff x x' t))
  have hcaps : (capabilityFindings x.activeNs (grade (findingsS2 x.dev x.mknod)) x.chrootConf
      x.capabilities).Perm (capabilityFindings x'.activeNs (grade (findingsS2 x'.dev x'.mknod))
        x.chrootConf x'.capabilities) := by
    rw [← h.test_eq x.dev_eq x'.dev_eq, ← h.test_eq x.mknod_eq x'.mknod_eq, capabilityFindings,
      capabilityFindings]
    simp only [capabilityCriticality_congr (h.mem_activeNs_iff x x')]
    exact (h.capabilities_perm x x').map _
  simp only [Assessment.findings, hmismatch, ← h.chrootConf_eq x x',
    ← h.test_eq x.nonRoot_eq x'.nonRoot_eq]
  exact (hcaps.append_left _).append_right _

/-- Goal S1 has the same result. -/
theorem result_reordered (h : e.Reordered e') :
    (x.result .s1).Reordered (x'.result .s1) where
  state := by rw [x.state_eq, x'.state_eq, Assessment.grade, Assessment.grade,
    grade_perm (h.findings_perm x x')]
  info := by
    rw [Assessment.result, Assessment.result, ← h.test_eq x.nonRoot_eq x'.nonRoot_eq]
    refine sameLines_assessTest (.append ?_ ?_) _ _
    · rw [← h.chrootConf_eq x x']
      exact sameLines_assessNamespaces (h.mem_activeNs_iff x x') (h.mem_desiredNs_iff x x') _
    · rw [info_assessCapabilities x.resultCaps_eq, info_assessCapabilities x'.resultCaps_eq,
        ← h.test_eq x.dev_eq x'.dev_eq, ← h.test_eq x.mknod_eq x'.mknod_eq,
        ← h.chrootConf_eq x x']
      exact .flatMap (h.capabilities_perm x x') fun cap =>
        sameLines_capability (h.mem_activeNs_iff x x') cap

end EvalResult.Reordered

/-! ## Goal S1 does not depend on orders -/

/-- A report with the categories that the goals look up. -/
def EvalResult.smallest : EvalResult where
  unprivileged := true
  categories := HashMap.ofList
    [("filesystem",
      { isolation := some { namespaces := none, chroot := some ⟨true, true⟩, cgroup := none }
        capabilities := []
        tests := HashMap.ofList [("flag_matches_refcontainer", ⟨true, true, []⟩),
          ("flag_matches_host", ⟨true, true, []⟩)]
        description := "" }),
    ("devices",
      { isolation := none
        capabilities := []
        tests := HashMap.ofList [("dev_whitelist_compliance", ⟨true, true, []⟩),
          ("mknod_whitelist_compliance", ⟨true, true, []⟩)]
        description := "" }),
    ("access_control",
      { isolation := none
        capabilities := []
        tests := HashMap.ofList [("user_ns_mapping_unique", ⟨true, true, []⟩),
          ("user_ns_maps_to_non_root_user", ⟨true, true, []⟩)]
        description := "" }),
    ("resource_control",
      { isolation := some
          { namespaces := some
              { active := [NsType.uts, .network].map ProtoEnum.toI32
                desired := [NsType.mount, .uts, .user].map ProtoEnum.toI32 }
            chroot := none
            cgroup := none }
        capabilities := [Capability.capSysChroot, .capNetAdmin].map ProtoEnum.toI32
        tests := HashMap.ofList [("cpu_max_limited", ⟨true, true, []⟩),
          ("memory_max_limited", ⟨true, true, []⟩)]
        description := "" })]
  info := none

/-- The category with its lists in the opposite order. -/
def Category.reversed (c : Category) : Category :=
  { c with
    isolation := c.isolation.map fun i =>
      { i with namespaces := i.namespaces.map fun n => ⟨n.active.reverse, n.desired.reverse⟩ }
    capabilities := c.capabilities.reverse }

/-- The report with the lists of its categories in the opposite order. -/
def EvalResult.reversed (e : EvalResult) : EvalResult :=
  { e with
    categories := HashMap.ofList ((e.categories.iter .insertion "reversed").reverse.map
      fun entry => (entry.1, entry.2.reversed)) }

theorem Category.reordered_reversed (c : Category) : c.Reordered c.reversed where
  isolation := by
    unfold reversed
    cases c.isolation with
    | none => exact .none
    | some i =>
      obtain ⟨namespaces, chroot, cgroup⟩ := i
      refine .some ⟨?_, rfl, rfl⟩
      cases namespaces with
      | none => exact .none
      | some n => exact .some ⟨n.active.reverse_perm.symm, n.desired.reverse_perm.symm⟩
  capabilities := c.capabilities.reverse_perm.symm
  tests _ := rfl
  description := rfl

theorem EvalResult.get_reversed {e : EvalResult} {label : String} {c' : Category} :
    e.reversed.categories.get label = some c' ↔
      ∃ c, e.categories.get label = some c ∧ c.reversed = c' := by
  have hkeys : ((e.categories.iter .insertion "reversed").reverse.map
      fun entry => (entry.1, entry.2.reversed)).map Prod.fst =
        ((e.categories.iter .insertion "reversed").map Prod.fst).reverse := by
    rw [List.map_map, List.map_reverse]
    rfl
  rw [reversed, HashMap.get_ofList_eq_some_iff]
  · simp only [List.mem_map, List.mem_reverse, Prod.exists, Prod.mk.injEq, HashMap.mem_iter]
    constructor
    · rintro ⟨_, c, hc, rfl, rfl⟩
      exact ⟨c, hc, rfl⟩
    · rintro ⟨c, hc, rfl⟩
      exact ⟨label, c, hc, rfl, rfl⟩
  · rw [hkeys, List.nodup_reverse]
    exact HashMap.nodup_keys_iter _ _ _

theorem EvalResult.reordered_reversed (e : EvalResult) : e.Reordered e.reversed where
  categories label := by
    cases hc : e.categories.get label with
    | none =>
      have hn : e.reversed.categories.get label = none :=
        Option.eq_none_iff_forall_ne_some.mpr fun c' hc' => by
          obtain ⟨c, hs, -⟩ := get_reversed.mp hc'
          cases hc.symm.trans hs
      rw [hn]
      exact .none
    | some c =>
      rw [get_reversed.mpr ⟨c, hc, rfl⟩]
      exact .some c.reordered_reversed
  unprivileged := rfl
  info := rfl

/-- The state of goal S1 does not depend on the order of lists in the report, nor do its sets of
namespaces, its capabilities, its findings and their lines. -/
theorem goalS1_reordered {env env' : Env} {e e' : EvalResult} {r : AssessmentReport}
    (h : e.Reordered e') (hr : assessEvalResult env e = .ok r) :
    ∃ (x : Assessment env e) (x' : Assessment env' e'),
      r = x.report ∧ assessEvalResult env' e' = .ok x'.report ∧
      (∃ goal goal', x.report.goalS1 = some goal ∧ x'.report.goalS1 = some goal' ∧
        goal.Reordered goal') ∧
      (x.findings .s1).Perm (x'.findings .s1) ∧
      Records ok (x.result .s1) (x.findings .s1) ∧
      Records ok (x'.result .s1) (x'.findings .s1) := by
  obtain ⟨x, rfl⟩ := assessEvalResult_eq_ok.mp hr
  obtain ⟨x'⟩ := (h.complete x.complete).exists_assessment env'
  have hactive := HashSet.iter_perm (h.mem_activeNs_iff x x') env.σ env'.σ
    "assess_goal_s1.active" "assess_goal_s1.active"
  have hdesired := HashSet.iter_perm (h.mem_desiredNs_iff x x') env.σ env'.σ
    "assess_goal_s1.desired" "assess_goal_s1.desired"
  refine ⟨x, x', rfl, x'.assessEvalResult_eq, ⟨_, _, rfl, rfl, ?_⟩, h.findings_perm x x',
    x.records .s1, x'.records .s1⟩
  exact
    { description := rfl
      result := ⟨_, _, rfl, rfl, h.result_reordered x x'⟩
      namespaceConf := ⟨_, _, rfl, rfl, hactive.map _, hdesired.map _⟩
      capabilities := (h.capabilities_perm x x').map _
      chrootConf := congrArg some (h.chrootConf_eq x x') }

theorem goalS1_reordered_smallest : ∃ r r' goal goal',
    assessEvalResult .logging EvalResult.smallest = .ok r ∧
      assessEvalResult .reversing EvalResult.smallest.reversed = .ok r' ∧
      r.goalS1 = some goal ∧ r'.goalS1 = some goal' ∧ goal.Reordered goal' := by
  obtain ⟨r, hr⟩ : ∃ r, assessEvalResult .logging EvalResult.smallest = .ok r := ⟨_, rfl⟩
  obtain ⟨x, x', rfl, hr', ⟨goal, goal', hg, hg', hgoal⟩, -⟩ :
      ∃ (x : Assessment .logging _) (x' : Assessment .reversing _), _ :=
    goalS1_reordered (EvalResult.reordered_reversed .smallest) hr
  exact ⟨_, _, goal, goal', hr, hr', hg, hg', hgoal⟩

end Checkc
