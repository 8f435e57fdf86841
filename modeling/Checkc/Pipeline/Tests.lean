import Checkc.Pipeline.Verdicts

/-! # Tests that no goal is based on

The evaluation reports tests under names and the assessment looks up some of these names for its
goals. A few tests are never looked up, and goals can be graded `ok` when these fail.
-/

namespace Checkc

open Outcome (bind_eq_ok)

open Criticality

/-- The tests that may fail but that no goal looks up, with their categories. -/
def unassessedTests : List (String × String) :=
  [("network", "container_specific_hostname"), ("network", "container_specific_domainname"),
   ("access_control", "seccomp_enabled")]

theorem EvalResult.getTest_eq_ok {e : EvalResult} {category name : String} {t : TestResult} :
    e.getTest category name = .ok t ↔
      ∃ c, e.categories.get category = some c ∧ c.tests.get name = some t := by
  simp only [getTest, bind_eq_ok, unwrap_eq_ok]

/-! ## Tests behind a grade -/

theorem of_testFindings_le {name : String} {t : TestResult}
    (h : ∀ f ∈ testFindings name t, f.criticality ≤ ok) : t.valid = true ∧ t.passed = true := by
  have hg : grade (testFindings name t) = ok :=
    worst_eq_ok_iff.mpr (List.forall_mem_map.mpr h)
  rw [grade_testFindings, errorIf_eq_ok] at hg
  simpa using hg

theorem Assessment.testFindings_subset {env : Env} {e : EvalResult} (x : Assessment env e)
    {g : Goal} {category name : String} {t : TestResult} (hp : (category, name) ∈ g.tests)
    (ht : e.getTest category name = .ok t) : testFindings name t ⊆ x.findings g := by
  have same : ∀ {t'}, e.getTest category name = .ok t' → t = t' :=
    fun ht' => Outcome.ok_unique ht ht'
  intro f hf
  cases g with
  | s1 =>
    simp only [Goal.tests, List.mem_singleton, Prod.mk.injEq] at hp
    obtain ⟨rfl, rfl⟩ := hp
    obtain rfl := same x.nonRoot_eq
    exact List.mem_append_right _ hf
  | s2 =>
    simp only [Goal.tests, List.mem_cons, List.not_mem_nil, or_false, Prod.mk.injEq] at hp
    rcases hp with ⟨rfl, rfl⟩ | ⟨rfl, rfl⟩
    · obtain rfl := same x.dev_eq
      exact List.mem_append_left _ hf
    · obtain rfl := same x.mknod_eq
      exact List.mem_append_right _ hf
  | s3 =>
    simp only [Goal.tests, List.mem_cons, List.not_mem_nil, or_false, Prod.mk.injEq] at hp
    rcases hp with ⟨rfl, rfl⟩ | ⟨rfl, rfl⟩ | ⟨rfl, rfl⟩
    · obtain rfl := same x.unique_eq
      exact List.mem_append_left _ (List.mem_append_left _ hf)
    · obtain rfl := same x.refcontainer_eq
      exact List.mem_append_left _ (List.mem_append_right _ hf)
    · obtain rfl := same x.host_eq
      exact List.mem_append_right _ hf
  | s4 =>
    simp only [Goal.tests, List.mem_cons, List.not_mem_nil, or_false, Prod.mk.injEq] at hp
    rcases hp with ⟨rfl, rfl⟩ | ⟨rfl, rfl⟩
    · obtain rfl := same x.cpu_eq
      exact List.mem_append_left _ (List.mem_append_right _ hf)
    · obtain rfl := same x.memory_eq
      exact List.mem_append_right _ hf

/-- The tests of a goal that is graded `ok` are passed. -/
theorem Assessment.test_passed {env : Env} {e : EvalResult} (x : Assessment env e) {g : Goal}
    (hg : x.report.Graded g ok) {category name : String} {t : TestResult}
    (hp : (category, name) ∈ g.tests) (ht : e.getTest category name = .ok t) :
    t.valid = true ∧ t.passed = true := by
  rw [AssessmentReport.Graded, x.report_result, Option.map_some, x.state_eq, Option.some.injEq,
    ProtoEnum.toI32_inj, Assessment.grade, Checkc.grade, worst_eq_ok_iff,
    List.forall_mem_map] at hg
  exact of_testFindings_le fun f hf => hg f (x.testFindings_subset hp ht hf)

/-! ## Tests of an evaluation -/

/-- Each test of an evaluation is looked up for a goal, unless it is one of the exceptions or it
always passes. -/
theorem Evaluation.test_cases {env : Env} {config : Config} {root : PathBuf}
    (x : Evaluation env config root) {category name : String} {t : TestResult}
    (h : x.result.getTest category name = .ok t) :
    (∃ g : Goal, (category, name) ∈ g.tests) ∨
      (t.valid = true ∧ ((category, name) ∉ unassessedTests → t.passed = true)) := by
  obtain ⟨c, hc, ht⟩ := EvalResult.getTest_eq_ok.mp h
  rw [get_categories] at hc
  simp only [Evaluation.categories, List.mem_cons, List.not_mem_nil, or_false, Prod.mk.injEq] at hc
  rcases hc with ⟨rfl, rfl⟩ | ⟨rfl, rfl⟩ | ⟨rfl, rfl⟩ | ⟨rfl, rfl⟩ | ⟨rfl, rfl⟩ | ⟨rfl, rfl⟩ |
    ⟨rfl, rfl⟩ | ⟨rfl, rfl⟩
  · change (networkTests x.input.utsHost x.input.utsContainer).get name = some t at ht
    rw [networkTests, HashMap.get_ofList_eq_some_iff (by simp)] at ht
    simp only [List.mem_cons, List.not_mem_nil, or_false, Prod.mk.injEq] at ht
    rcases ht with ⟨rfl, rfl⟩ | ⟨rfl, rfl⟩
    · exact Or.inr ⟨rfl, fun hn => absurd (by decide) hn⟩
    · exact Or.inr ⟨rfl, fun hn => absurd (by decide) hn⟩
  · change (filesystemTests x.flagsHost x.flagsRefcontainer).get name = some t at ht
    rw [filesystemTests, HashMap.get_ofList_eq_some_iff (by simp)] at ht
    simp only [List.mem_cons, List.not_mem_nil, or_false, Prod.mk.injEq] at ht
    rcases ht with ⟨rfl, -⟩ | ⟨rfl, -⟩
    · exact Or.inl ⟨.s3, by decide⟩
    · exact Or.inl ⟨.s3, by decide⟩
  · change (devicesTests _ _).get name = some t at ht
    rw [devicesTests, HashMap.get_ofList_eq_some_iff (by simp)] at ht
    simp only [List.mem_cons, List.not_mem_nil, or_false, Prod.mk.injEq] at ht
    rcases ht with ⟨rfl, -⟩ | ⟨rfl, -⟩
    · exact Or.inl ⟨.s2, by decide⟩
    · exact Or.inl ⟨.s2, by decide⟩
  · change (resourceControlTests x.input.cgroup).get name = some t at ht
    rw [resourceControlTests, HashMap.get_ofList_eq_some_iff (by simp)] at ht
    simp only [List.mem_cons, List.not_mem_nil, or_false, Prod.mk.injEq] at ht
    rcases ht with ⟨rfl, -⟩ | ⟨rfl, -⟩ | ⟨rfl, rfl⟩
    · exact Or.inl ⟨.s4, by decide⟩
    · exact Or.inl ⟨.s4, by decide⟩
    · -- no controllers are required
      exact Or.inr ⟨rfl, fun _ => rfl⟩
  · simp [Evaluation.category, CategorySpec.category] at ht
  · change (accessControlTests x.input.userNs x.input.seccomp).get name = some t at ht
    rw [accessControlTests, HashMap.get_ofList_eq_some_iff (by simp)] at ht
    simp only [List.mem_cons, List.not_mem_nil, or_false, Prod.mk.injEq] at ht
    rcases ht with ⟨rfl, -⟩ | ⟨rfl, -⟩ | ⟨rfl, rfl⟩
    · exact Or.inl ⟨.s1, by decide⟩
    · exact Or.inl ⟨.s3, by decide⟩
    · exact Or.inr ⟨rfl, fun hn => absurd (by decide) hn⟩
  · simp [Evaluation.category, CategorySpec.category] at ht
  · simp [Evaluation.category, CategorySpec.category] at ht

/-! ## Failed tests and grades -/

/-- The isolated container with the names of the host and without system call filters. -/
def Collected.unfiltered : Collected :=
  { Collected.isolated with
    utsContainer := Collected.isolated.utsHost
    seccomp := { mode := ProtoEnum.toI32 SeccompMode.disabled } }

/-- All goals are graded `ok` although some tests fail. -/
theorem unfiltered_failed : ∃ e r,
    EvalResult.fromConfig .logging Collected.unfiltered.toConfig "/c" = .ok e ∧
      assessEvalResult .logging e = .ok r ∧ (∀ g, r.Graded g ok) ∧
      ∀ p ∈ unassessedTests, ∃ t, e.getTest p.1 p.2 = .ok t ∧ t.passed = false := by
  refine ⟨_, _, rfl, rfl, ?_, ?_⟩
  · intro g
    cases g <;> rfl
  · simp only [unassessedTests, List.forall_mem_cons, List.not_mem_nil, false_imp_iff,
      implies_true, and_true]
    exact ⟨⟨_, rfl, rfl⟩, ⟨_, rfl, rfl⟩, ⟨_, rfl, rfl⟩⟩

/-- If all goals are graded `ok` then all tests are valid, and only those that no goal looks up
may have failed. -/
theorem tests_passed {env env' : Env} {config : Config} {root : PathBuf} {e : EvalResult}
    (h : EvalResult.fromConfig env config root = .ok e) :
    ∃ r, assessEvalResult env' e = .ok r ∧ ((∀ g, r.Graded g ok) →
      ∀ category name t, e.getTest category name = .ok t →
        t.valid = true ∧ ((category, name) ∉ unassessedTests → t.passed = true)) := by
  obtain ⟨x, rfl⟩ := fromConfig_eq_ok.mp h
  obtain ⟨z⟩ := x.complete.exists_assessment env'
  refine ⟨z.report, z.assessEvalResult_eq, fun hok category name t ht => ?_⟩
  rcases x.test_cases ht with ⟨g, hp⟩ | hvalid
  · obtain ⟨hv, hpassed⟩ := z.test_passed (hok g) hp ht
    exact ⟨hv, fun _ => hpassed⟩
  · exact hvalid

theorem tests_passed_isolated : ∃ e r,
    EvalResult.fromConfig .logging Collected.isolated.toConfig "/c" = .ok e ∧
      assessEvalResult .logging e = .ok r ∧ (∀ g, r.Graded g ok) ∧
      ∀ category name t, e.getTest category name = .ok t →
        t.valid = true ∧ ((category, name) ∉ unassessedTests → t.passed = true) := by
  obtain ⟨e, r, he, hr, hg⟩ : ∃ e r,
      EvalResult.fromConfig .logging Collected.isolated.toConfig "/c" = .ok e ∧
        assessEvalResult .logging e = .ok r ∧ ∀ g, r.Graded g ok :=
    ⟨_, _, rfl, rfl, fun g => by cases g <;> rfl⟩
  obtain ⟨r', hr', hpassed⟩ := tests_passed he
  obtain rfl := Outcome.ok_unique hr hr'
  exact ⟨e, r, he, hr, hg, hpassed hg⟩

end Checkc
