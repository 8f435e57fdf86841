import Checkc.Assessment.Assess

/-! # Findings

What an assessment found about a container, as a list that is independent of the result
in which it is recorded. A result records findings when its state is the worst of their
criticalities and each of its lines explains one finding above `ok`, in order.
-/

namespace Checkc

open Outcome (bind_eq_ok pure_eq_ok)

open Criticality

/-- Something that an assessment found. -/
inductive Finding where
  | invalidTest (name : String)
  | failedTest (name : String)
  | chrootIssue
  | namespaceMismatch
  | capability (cap : Capability) (criticality : Criticality)
  deriving DecidableEq, Repr

namespace Finding

def criticality : Finding → Criticality
  | capability _ c => c
  | _ => error

/-- The words by which a line names the finding. -/
def subject : Finding → String
  | invalidTest name => name
  | failedTest name => name
  | chrootIssue => "chroot config"
  | namespaceMismatch => "Active namespaces"
  | capability cap _ => cap.display

/-- The finding is worse than `ok`. -/
def Reported (f : Finding) : Prop := ok < f.criticality

instance (f : Finding) : Decidable f.Reported := inferInstanceAs (Decidable (_ < _))

theorem not_reported {f : Finding} : ¬ f.Reported ↔ f.criticality ≤ ok := not_lt

/-- A line that names the finding. -/
def Explains (f : Finding) (line : String) : Prop := f.subject.toList <:+: line.toList

theorem explains_self (f : Finding) : f.Explains f.subject := List.infix_rfl

variable {f : Finding} {line : String}

theorem explains_sysChroot {c : Criticality} (h : "CAP_SYS_CHROOT".toList <:+: line.toList) :
    (capability .capSysChroot c).Explains line := h

theorem Explains.append (h : f.Explains line) (s : String) : f.Explains (line ++ s) := by
  rw [Explains, String.toList_append]
  exact h.trans (List.infix_append' [] _ _)

theorem Explains.prepend (h : f.Explains line) (s : String) : f.Explains (s ++ line) := by
  rw [Explains, String.toList_append]
  exact h.trans (by simpa using List.infix_append' s.toList line.toList [])

end Finding

/-- The worst criticality of some findings. -/
def grade (fs : List Finding) : Criticality := worst (fs.map Finding.criticality)

@[simp] theorem grade_append (fs fs' : List Finding) :
    grade (fs ++ fs') = max (grade fs) (grade fs') := by
  rw [grade, List.map_append, worst_append]; rfl

theorem ok_le_grade (fs : List Finding) : ok ≤ grade fs := ok_le_worst

@[simp] theorem grade_singleton (f : Finding) : grade [f] = max f.criticality ok := rfl

theorem grade_ite {p : Prop} [Decidable p] {f : Finding} (hf : f.criticality = error) :
    grade (if p then [f] else []) = errorIf p := by
  unfold errorIf
  split
  · rw [grade_singleton, hf]; rfl
  · rfl

/-- The result records exactly these findings, from the given state on. -/
structure Records (base : Criticality) (r : SecResult) (fs : List Finding) : Prop where
  state : ∃ d, base ≤ d ∧ r.state = ProtoEnum.toI32 d ∧ max ok d = grade fs
  info : List.Forall₂ Finding.Explains (fs.filter Finding.Reported) r.info

namespace Records

variable {base : Criticality} {r r' : SecResult} {fs fs' : List Finding} {f : Finding}

theorem started : Records ok SecResult.started [] where
  state := ⟨ok, le_rfl, rfl, rfl⟩
  info := .nil

theorem default : Records unspecified SecResult.default [] where
  state := ⟨unspecified, le_rfl, rfl, rfl⟩
  info := .nil

/-- A finding that is no worse than `ok` needs no record. -/
theorem skip (h : Records base r fs) (hf : f.criticality ≤ ok) : Records base r (fs ++ [f]) where
  state := by
    obtain ⟨d, hb, hd, hw⟩ := h.state
    refine ⟨d, hb, hd, ?_⟩
    rw [hw, grade_append, grade_singleton, max_eq_right hf, max_eq_left (ok_le_grade fs)]
  info := by
    rw [List.filter_append, List.filter_cons_of_neg (by simpa [Finding.not_reported] using hf),
      List.filter_nil, List.append_nil]
    exact h.info

theorem state_append {g : List Finding} {c : Criticality} (h : Records base r fs)
    (hc : max ok c = grade g) :
    ∃ d, base ≤ d ∧ max r.state (ProtoEnum.toI32 c) = ProtoEnum.toI32 d ∧
      max ok d = grade (fs ++ g) := by
  obtain ⟨d, hb, hd, hw⟩ := h.state
  refine ⟨max d c, hb.trans (le_max_left d c), by rw [hd, toI32_max], ?_⟩
  rw [grade_append, ← hw, ← hc, max_max_max_comm, max_self]

/-- Appending the criticality and the line of a finding records it. -/
theorem append (h : Records base r fs) (f : Finding) (hr : f.Reported) {line : String}
    (hl : f.Explains line) : Records base (r.append f.criticality [line]) (fs ++ [f]) where
  state := h.state_append (max_comm _ _)
  info := by
    rw [List.filter_append, List.filter_cons_of_pos (by simpa using hr), List.filter_nil]
    exact List.rel_append h.info (.cons hl .nil)

/-- Appending `ok` without a line records a finding that is no worse than `ok`. -/
theorem append_ok (h : Records base r fs) (hf : f.criticality ≤ ok) :
    Records base (r.append ok []) (fs ++ [f]) where
  state := h.state_append (by rw [max_self, grade_singleton, max_eq_right hf])
  info := by rw [SecResult.append, List.append_nil]; exact (h.skip hf).info

/-- Appending a result records its findings. -/
theorem merge (h : Records base r fs) (h' : Records unspecified r' fs') {c : Criticality}
    (hc : ProtoEnum.fromI32 r'.state = some c) : Records base (r.append c r'.info) (fs ++ fs') where
  state := by
    obtain ⟨d, -, hd, hw⟩ := h'.state
    rw [hd, ProtoEnum.fromI32_toI32] at hc
    obtain rfl := Option.some.inj hc
    exact h.state_append hw
  info := by
    rw [List.filter_append]
    exact List.rel_append h.info h'.info

theorem state_eq (h : Records ok r fs) : r.state = ProtoEnum.toI32 (grade fs) := by
  obtain ⟨d, hb, hd, hw⟩ := h.state
  rw [hd, ← hw, max_eq_right hb]

theorem length_info (h : Records base r fs) :
    r.info.length = (fs.filter Finding.Reported).length :=
  h.info.length_eq.symm

/-- A result without explanation is one without fault. -/
theorem state_eq_ok_iff (h : Records ok r fs) : r.state = ProtoEnum.toI32 ok ↔ r.info = [] := by
  rw [h.state_eq, ProtoEnum.toI32_inj, grade, worst_eq_ok_iff, ← List.length_eq_zero_iff,
    h.length_info, List.length_eq_zero_iff, List.filter_eq_nil_iff]
  simp only [List.forall_mem_map, decide_eq_true_eq, Finding.not_reported]

end Records

/-! ## Tests -/

/-- The findings about a test. -/
def testFindings (name : String) (test : TestResult) : List Finding :=
  (if test.valid then [] else [.invalidTest name]) ++
    (if test.passed then [] else [.failedTest name])

theorem grade_testFindings (name : String) (test : TestResult) :
    grade (testFindings name test) = errorIf (¬ test.valid ∨ ¬ test.passed) := by
  unfold testFindings
  cases test.valid <;> cases test.passed <;> rfl

theorem grade_testFindings_of_valid (name : String) {test : TestResult} (h : test.valid = true) :
    grade (testFindings name test) = errorIf (test.passed = false) := by
  rw [grade_testFindings]
  exact errorIf_congr (by simp [h])

theorem reported_of_error {f : Finding} (h : f.criticality = error) : f.Reported := by
  rw [Finding.Reported, h]; decide

theorem records_assessTest {base : Criticality} {r : SecResult} {fs : List Finding}
    (h : Records base r fs) (name : String) (test : TestResult) :
    Records base (assessTest name test r) (fs ++ testFindings name test) := by
  have hv : Records base
      (if ¬ test.valid then
        r.append .error [s!"test {name} was not valid, assessment result is ERROR"] else r)
      (fs ++ if test.valid then [] else [.invalidTest name]) := by
    cases test.valid with
    | true => simpa using h
    | false =>
      exact h.append (.invalidTest name) (reported_of_error rfl)
        (((Finding.explains_self (.invalidTest name)).prepend _).append _)
  rw [testFindings, ← List.append_assoc]
  unfold assessTest
  cases test.passed with
  | true => simpa using hv
  | false =>
    exact hv.append (.failedTest name) (reported_of_error rfl)
      (((Finding.explains_self (.failedTest name)).prepend _).append _)

/-! ## Capabilities -/

/-- The criticality of a capability according to its record. -/
def CapabilityRecord.criticality (r : CapabilityRecord) (nsSet : HashSet NsType) : Criticality :=
  if ¬ r.ok.isEmpty ∧ r.ok.isSubset nsSet then .ok
  else if ¬ r.warn.isEmpty ∧ r.warn.isSubset nsSet then .warn
  else r.default

section Capabilities

variable (nsSet : HashSet NsType) (goalS2 : Criticality) (chrootConf : Chroot)

/-- The root directory of the container is not properly separated. -/
def Chroot.Issue (c : Chroot) : Prop := ¬ c.chroot ∨ ¬ c.pivotRoot

instance (c : Chroot) : Decidable c.Issue := inferInstanceAs (Decidable (_ ∨ _))

/-- The criticality of `CAP_SYS_CHROOT`. -/
def sysChrootCriticality : Criticality :=
  if .user ∉ nsSet ∨ .mount ∉ nsSet then error
  else if chrootConf.Issue then error
  else goalS2

/-- The criticality of a capability. -/
def capabilityCriticality (cap : Capability) : Criticality :=
  if cap = .capSysChroot then sysChrootCriticality nsSet goalS2 chrootConf
  else (capMap.get cap).elim error (·.criticality nsSet)

/-- The findings about the capabilities of a container. -/
def capabilityFindings (capabilities : List Capability) : List Finding :=
  capabilities.map fun cap => .capability cap (capabilityCriticality nsSet goalS2 chrootConf cap)

theorem grade_capabilityFindings_le_iff {capabilities : List Capability} {d : Criticality} :
    grade (capabilityFindings nsSet goalS2 chrootConf capabilities) ≤ d ↔
      ok ≤ d ∧ ∀ cap ∈ capabilities, capabilityCriticality nsSet goalS2 chrootConf cap ≤ d := by
  rw [grade, worst_le_iff, capabilityFindings]
  simp [Finding.criticality]

variable {nsSet goalS2 chrootConf} {env : Env} {base : Criticality} {r r' : SecResult}
  {fs : List Finding}

theorem records_assessSysChroot (hg : ok ≤ goalS2) (h : Records base r fs) :
    Records base (assessSysChroot env nsSet goalS2 chrootConf r)
      (fs ++ [.capability .capSysChroot (sysChrootCriticality nsSet goalS2 chrootConf)]) := by
  unfold assessSysChroot sysChrootCriticality
  by_cases h1 : .user ∉ nsSet ∨ .mount ∉ nsSet
  · rw [if_pos h1, if_pos h1]
    refine h.append (.capability .capSysChroot error) (reported_of_error rfl)
      (((Finding.Explains.append ?_ _).append _).append _)
    exact Finding.explains_sysChroot (by decide)
  by_cases h2 : chrootConf.Issue
  · rw [if_neg h1, if_neg h1, if_pos h2]
    change Records base (if chrootConf.Issue then _ else _) _
    rw [if_pos h2]
    refine h.append (.capability .capSysChroot error) (reported_of_error rfl)
      (Finding.Explains.append ?_ _)
    exact Finding.explains_sysChroot (by decide)
  rw [if_neg h1, if_neg h1, if_neg h2]
  change Records base (if chrootConf.Issue then _ else _) _
  rw [if_neg h2]
  by_cases h3 : ok = goalS2
  · rw [if_neg (not_not.mpr h3)]
    exact h.append_ok (hg.antisymm (h3 ▸ le_rfl)).ge
  · rw [if_pos h3]
    refine h.append (.capability .capSysChroot goalS2) (lt_of_le_of_ne hg h3)
      (Finding.Explains.append (Finding.Explains.append ?_ _) _)
    exact Finding.explains_sysChroot (by decide)

theorem records_assessRecord {cap : Capability} {record : CapabilityRecord}
    (hw : record.WellGraded) (h : Records base r fs) :
    Records base (assessRecord nsSet cap record r)
      (fs ++ [.capability cap (record.criticality nsSet)]) := by
  unfold assessRecord CapabilityRecord.criticality
  split_ifs with h1 h2
  · exact h.skip le_rfl
  · exact h.append (.capability cap warn) (show ok < warn by decide)
      (((((Finding.explains_self (.capability cap warn)).append _).append _).append _).append _)
  · exact h.append (.capability cap record.default) hw.ok_lt_default
      (((((Finding.explains_self (.capability cap _)).append _).append _).append _).append _)

theorem records_assessCapability (hg : ok ≤ goalS2) (h : Records base r fs) {cap : Capability}
    (hr : assessCapability env nsSet goalS2 chrootConf r cap = .ok r') :
    Records base r'
      (fs ++ [.capability cap (capabilityCriticality nsSet goalS2 chrootConf cap)]) := by
  simp only [assessCapability, bind_eq_ok, unwrap_eq_ok] at hr
  obtain ⟨record, hc, hr⟩ := hr
  unfold capabilityCriticality
  split_ifs at hr ⊢ with hs
  · obtain rfl := pure_eq_ok.mp hr
    exact hs ▸ records_assessSysChroot hg h
  · obtain rfl := pure_eq_ok.mp hr
    rw [hc]
    exact records_assessRecord (wellGraded_of_get hc) h

/-- Assessing capabilities records one finding for each of them. -/
theorem records_assessCapabilities (hg : ok ≤ goalS2) {capabilities : List Capability}
    (h : assessCapabilities env nsSet goalS2 chrootConf capabilities = .ok r) :
    Records unspecified r (capabilityFindings nsSet goalS2 chrootConf capabilities) := by
  refine foldlM_induction (P := fun l s =>
    Records unspecified s (capabilityFindings nsSet goalS2 chrootConf l)) .default ?_ h
  intro l cap s s' hs hcap
  rw [capabilityFindings, List.map_append]
  exact records_assessCapability hg hs hcap

/-- Assessing capabilities returns exactly when each of them has a record. -/
theorem assessCapabilities_isOk (env : Env) (nsSet : HashSet NsType) (goalS2 : Criticality)
    (chrootConf : Chroot) {capabilities : List Capability}
    (h : ∀ cap ∈ capabilities, cap ≠ .unspecified) :
    ∃ r, assessCapabilities env nsSet goalS2 chrootConf capabilities = .ok r := by
  refine foldlM_isOk (fun s cap hc => ?_) _
  obtain ⟨record, hr⟩ := Option.isSome_iff_exists.mp (capMap_isSome_iff.mpr (h cap hc))
  unfold assessCapability
  rw [hr, unwrap_some, Outcome.ok_bind]
  split
  · exact ⟨_, rfl⟩
  · exact ⟨_, rfl⟩

end Capabilities

/-! ## The other parts of the goals -/

theorem records_assessChroot {base : Criticality} {r : SecResult} {fs : List Finding}
    (h : Records base r fs) (chrootConf : Chroot) :
    Records base (assessChroot chrootConf r)
      (fs ++ if chrootConf.Issue then [.chrootIssue] else []) := by
  unfold assessChroot
  change Records base (if chrootConf.Issue then _ else _) _
  split
  · refine h.append .chrootIssue (reported_of_error rfl)
      (((Finding.Explains.append ?_ _).append _).append _)
    unfold Finding.Explains
    decide
  · simpa using h

/-- Some desired namespace is not active. -/
def NamespaceMismatch (activeNs desiredNs : HashSet NsType) : Prop :=
  ∃ t ∈ desiredNs, t ∉ activeNs

instance (a d : HashSet NsType) : Decidable (NamespaceMismatch a d) :=
  inferInstanceAs (Decidable (∃ t ∈ d.elems, t ∉ a))

theorem records_assessNamespaces {base : Criticality} {r : SecResult} {fs : List Finding}
    (h : Records base r fs) (env : Env) (activeNs desiredNs : HashSet NsType) :
    Records base (assessNamespaces env activeNs desiredNs r)
      (fs ++ if NamespaceMismatch activeNs desiredNs then [.namespaceMismatch] else []) := by
  have hd : (((desiredNs.difference activeNs).iter env.σ "assess_goal_s1.diff").isEmpty = true) ↔
      ¬ NamespaceMismatch activeNs desiredNs := by
    rw [List.isEmpty_iff, HashSet.iter_eq_nil_iff]
    simp [NamespaceMismatch]
  unfold assessNamespaces
  by_cases hm : NamespaceMismatch activeNs desiredNs
  · rw [if_pos (by simpa [hd] using hm), if_pos hm]
    refine h.append .namespaceMismatch (reported_of_error rfl) (Finding.Explains.append ?_ _)
    unfold Finding.Explains
    decide
  · rw [if_neg (by simpa [hd] using hm), if_neg hm]
    simpa using h

theorem records_assessCgroupNamespaces {namespaces : Namespaces} {used : Bool} {r : SecResult}
    (h : assessCgroupNamespaces namespaces = .ok (used, r)) :
    Records ok r
      (if namespaces.desired ≠ namespaces.active then [.namespaceMismatch] else []) := by
  unfold assessCgroupNamespaces at h
  split at h
  · case isTrue hne =>
    simp only [bind_eq_ok, pure_eq_ok, Prod.mk.injEq] at h
    obtain ⟨active, -, desired, -, -, rfl⟩ := h
    rw [if_pos hne]
    refine Records.started.append .namespaceMismatch (reported_of_error rfl)
      (((((Finding.Explains.append ?_ _).append _).append _).append _).append _)
    unfold Finding.Explains
    decide
  · case isFalse hne =>
    simp only [pure_eq_ok, Prod.mk.injEq] at h
    obtain ⟨-, rfl⟩ := h
    rw [if_neg hne]
    exact .started

end Checkc
