import Checkc.Assessment.Findings

/-! # The findings behind a report

An assessment that returns has looked up all of its tests and collected namespaces,
capabilities and the state of the root directory. These determine its findings for each
goal, and the result of a goal records exactly its findings.
-/

namespace Checkc

open Outcome (bind_eq_ok pure_eq_ok)

open Criticality

inductive Goal | s1 | s2 | s3 | s4
  deriving DecidableEq, Repr

/-- The result of a goal in a report. -/
def AssessmentReport.result (r : AssessmentReport) : Goal → Option SecResult
  | .s1 => r.goalS1.bind (·.result)
  | .s2 => r.goalS2.bind (·.result)
  | .s3 => r.goalS3.bind (·.result)
  | .s4 => r.goalS4.bind (·.result)

/-- The findings of goal S2, on which goal S1 depends. -/
def findingsS2 (dev mknod : TestResult) : List Finding :=
  testFindings "dev_whitelist_compliance" dev ++ testFindings "mknod_whitelist_compliance" mknod

/-- The result of goal S2. -/
def resultS2 (dev mknod : TestResult) : SecResult :=
  assessTest "mknod_whitelist_compliance" mknod <|
    assessTest "dev_whitelist_compliance" dev SecResult.started

theorem records_resultS2 (dev mknod : TestResult) :
    Records ok (resultS2 dev mknod) (findingsS2 dev mknod) :=
  records_assessTest (records_assessTest .started _ dev) _ mknod

/-- The steps of an assessment that returns. -/
structure Assessment (env : Env) (e : EvalResult) where
  dev : TestResult
  mknod : TestResult
  unique : TestResult
  refcontainer : TestResult
  host : TestResult
  nonRoot : TestResult
  cpu : TestResult
  memory : TestResult
  activeNs : HashSet NsType
  desiredNs : HashSet NsType
  capabilities : List Capability
  filesystem : Category
  fsIsolation : IsolationMechanisms
  chrootConf : Chroot
  resultCaps : SecResult
  stateCaps : Criticality
  resourceControl : Category
  cgroupIsolation : IsolationMechanisms
  cgroupNamespaces : Namespaces
  cgroupsNamespaceUsed : Bool
  resultCgroup : SecResult
  dev_eq : e.getTest "devices" "dev_whitelist_compliance" = .ok dev
  mknod_eq : e.getTest "devices" "mknod_whitelist_compliance" = .ok mknod
  unique_eq : e.getTest "access_control" "user_ns_mapping_unique" = .ok unique
  refcontainer_eq : e.getTest "filesystem" "flag_matches_refcontainer" = .ok refcontainer
  host_eq : e.getTest "filesystem" "flag_matches_host" = .ok host
  nonRoot_eq : e.getTest "access_control" "user_ns_maps_to_non_root_user" = .ok nonRoot
  cpu_eq : e.getTest "resource_control" "cpu_max_limited" = .ok cpu
  memory_eq : e.getTest "resource_control" "memory_max_limited" = .ok memory
  namespaces_eq : (e.categories.iter env.σ "assess_goal_s1.namespaces").foldlM
    collectNamespaces (∅, ∅) = .ok (activeNs, desiredNs)
  capabilities_eq : (e.categories.iter env.σ "assess_goal_s1.capabilities").foldlM
    collectCapabilities [] = .ok capabilities
  filesystem_eq : e.categories.get "filesystem" = some filesystem
  fsIsolation_eq : filesystem.isolation = some fsIsolation
  chrootConf_eq : fsIsolation.chroot = some chrootConf
  resultCaps_eq : assessCapabilities env activeNs (grade (findingsS2 dev mknod)) chrootConf
    capabilities = .ok resultCaps
  stateCaps_eq : ProtoEnum.fromI32 resultCaps.state = some stateCaps
  resourceControl_eq : e.categories.get "resource_control" = some resourceControl
  cgroupIsolation_eq : resourceControl.isolation = some cgroupIsolation
  cgroupNamespaces_eq : cgroupIsolation.namespaces = some cgroupNamespaces
  resultCgroup_eq :
    assessCgroupNamespaces cgroupNamespaces = .ok (cgroupsNamespaceUsed, resultCgroup)

namespace Assessment

variable {env : Env} {e : EvalResult} (x : Assessment env e)

/-- The result of a goal. -/
def result : Goal → SecResult
  | .s1 => assessTest "user_ns_maps_to_non_root_user" x.nonRoot <|
      (assessNamespaces env x.activeNs x.desiredNs
        (assessChroot x.chrootConf SecResult.started)).append x.stateCaps x.resultCaps.info
  | .s2 => resultS2 x.dev x.mknod
  | .s3 => assessTest "flag_matches_host" x.host <|
      assessTest "flag_matches_refcontainer" x.refcontainer <|
      assessTest "user_ns_mapping_unique" x.unique SecResult.started
  | .s4 => assessTest "memory_max_limited" x.memory <|
      assessTest "cpu_max_limited" x.cpu x.resultCgroup

/-- The findings of a goal. -/
def findings : Goal → List Finding
  | .s1 =>
      (if x.chrootConf.Issue then [.chrootIssue] else []) ++
        (if NamespaceMismatch x.activeNs x.desiredNs then [.namespaceMismatch] else []) ++
        capabilityFindings x.activeNs (grade (findingsS2 x.dev x.mknod)) x.chrootConf
          x.capabilities ++
        testFindings "user_ns_maps_to_non_root_user" x.nonRoot
  | .s2 => findingsS2 x.dev x.mknod
  | .s3 =>
      testFindings "user_ns_mapping_unique" x.unique ++
        testFindings "flag_matches_refcontainer" x.refcontainer ++
        testFindings "flag_matches_host" x.host
  | .s4 =>
      (if x.cgroupNamespaces.desired ≠ x.cgroupNamespaces.active then [.namespaceMismatch]
        else []) ++
        testFindings "cpu_max_limited" x.cpu ++ testFindings "memory_max_limited" x.memory

/-- The report. -/
def report : AssessmentReport where
  unprivileged := e.unprivileged
  goalS1 := some
    { description := "Restriction of global resource modification"
      result := some (x.result .s1)
      namespaceConf := some
        { active := (x.activeNs.iter env.σ "assess_goal_s1.active").map ProtoEnum.toI32
          desired := (x.desiredNs.iter env.σ "assess_goal_s1.desired").map ProtoEnum.toI32 }
      capabilities := x.capabilities.map ProtoEnum.toI32
      chrootConf := some x.chrootConf }
  goalS2 := some
    { description := "Restriction of device access", result := some (x.result .s2) }
  goalS3 := some
    { description := "No container data leak", result := some (x.result .s3) }
  goalS4 := some
    { description := "No availability impact"
      result := some (x.result .s4)
      cgroupsNamespaceUsed := x.cgroupsNamespaceUsed
      usedCgroupControllers := none }

theorem report_result (g : Goal) : x.report.result g = some (x.result g) := by
  cases g <;> rfl

/-- The result of each goal records its findings. -/
theorem records (g : Goal) : Records ok (x.result g) (x.findings g) := by
  cases g with
  | s1 =>
    have hc := records_assessChroot .started x.chrootConf
    have hn := records_assessNamespaces hc env x.activeNs x.desiredNs
    have hcap := records_assessCapabilities (ok_le_grade _) x.resultCaps_eq
    exact records_assessTest (hn.merge hcap x.stateCaps_eq) _ x.nonRoot
  | s2 => exact records_resultS2 x.dev x.mknod
  | s3 =>
    exact records_assessTest (records_assessTest (records_assessTest .started _ x.unique) _
      x.refcontainer) _ x.host
  | s4 =>
    exact records_assessTest (records_assessTest (records_assessCgroupNamespaces x.resultCgroup_eq)
      _ x.cpu) _ x.memory

/-- The grade of a goal. -/
def grade (g : Goal) : Criticality := Checkc.grade (x.findings g)

theorem state_eq (g : Goal) : (x.result g).state = ProtoEnum.toI32 (x.grade g) :=
  (x.records g).state_eq

end Assessment

/-- Goal S1 depends on the grade of goal S2. -/
theorem resultGoalS2_eq (dev mknod : TestResult) (description : String) :
    resultGoalS2 (some ⟨description, some (resultS2 dev mknod)⟩) =
      .ok (grade (findingsS2 dev mknod)) := by
  rw [resultGoalS2, unwrap_some, Outcome.ok_bind, (records_resultS2 dev mknod).state_eq,
    ProtoEnum.fromI32_toI32, unwrap_some]

namespace Assessment

variable {env : Env} {e : EvalResult} (x : Assessment env e)

theorem assessGoalS1_eq :
    assessGoalS1 env e (Checkc.grade (findingsS2 x.dev x.mknod)) = .ok x.report.goalS1 := by
  simp only [assessGoalS1, x.namespaces_eq, x.capabilities_eq, x.filesystem_eq, x.fsIsolation_eq,
    x.chrootConf_eq, x.resultCaps_eq, x.stateCaps_eq, x.nonRoot_eq, Outcome.ok_bind, unwrap_some]
  rfl

theorem assessGoalS2_eq : assessGoalS2 e = .ok x.report.goalS2 := by
  rw [assessGoalS2, x.dev_eq, x.mknod_eq]; rfl

theorem assessGoalS3_eq : assessGoalS3 e = .ok x.report.goalS3 := by
  rw [assessGoalS3, x.unique_eq, x.refcontainer_eq, x.host_eq]; rfl

theorem assessGoalS4_eq : assessGoalS4 e = .ok x.report.goalS4 := by
  simp only [assessGoalS4, x.resourceControl_eq, x.cgroupIsolation_eq, x.cgroupNamespaces_eq,
    x.resultCgroup_eq, x.cpu_eq, x.memory_eq, Outcome.ok_bind, unwrap_some]
  rfl

theorem assessEvalResult_eq : assessEvalResult env e = .ok x.report := by
  have hg : resultGoalS2 x.report.goalS2 = .ok (Checkc.grade (findingsS2 x.dev x.mknod)) :=
    resultGoalS2_eq _ _ _
  rw [assessEvalResult, x.assessGoalS2_eq, Outcome.ok_bind, hg, Outcome.ok_bind,
    x.assessGoalS1_eq, Outcome.ok_bind, x.assessGoalS3_eq, x.assessGoalS4_eq]
  rfl

end Assessment

/-- The assessment returns exactly when all of its steps do, and then with their report. -/
theorem assessEvalResult_eq_ok {env : Env} {e : EvalResult} {r : AssessmentReport} :
    assessEvalResult env e = .ok r ↔ ∃ x : Assessment env e, r = x.report := by
  constructor
  · intro h
    simp only [assessEvalResult, assessGoalS2, assessGoalS1, bind_eq_ok, pure_eq_ok,
      unwrap_eq_ok] at h
    obtain ⟨_, ⟨dev, hd, mknod, hm, rfl⟩, g, hg, goalS1, h1, h⟩ := h
    rw [← resultS2, resultGoalS2_eq] at hg
    obtain rfl := Outcome.ok.inj hg
    obtain ⟨⟨activeNs, desiredNs⟩, hns, caps, hcaps, fs, hfs, iso, hiso, h1⟩ := h1
    cases hch : iso.chroot with
    | none =>
      -- without a result for goal S1 there is no report
      rw [hch] at h1
      obtain rfl := pure_eq_ok.mp h1
      cases h
    | some chroot =>
      simp only [hch, bind_eq_ok, pure_eq_ok, unwrap_eq_ok] at h1
      obtain ⟨rc, hrc, sc, hsc, nonRoot, hnr, rfl⟩ := h1
      simp only [Option.isNone_some, Bool.false_eq_true, if_false, assessGoalS3, assessGoalS4,
        bind_eq_ok, pure_eq_ok, unwrap_eq_ok] at h
      obtain ⟨_, ⟨unique, hu, ref, href, host, hhost, rfl⟩, _, ⟨cg, hcg, ci, hci, cn, hcn,
        ⟨used, r4⟩, hr4, cpu, hcpu, mem, hmem, rfl⟩, rfl⟩ := h
      exact ⟨⟨dev, mknod, unique, ref, host, nonRoot, cpu, mem, activeNs, desiredNs, caps, fs, iso,
        chroot, rc, sc, cg, ci, cn, used, r4, hd, hm, hu, href, hhost, hnr, hcpu, hmem, hns, hcaps,
        hfs, hiso, hch, hrc, hsc, hcg, hci, hcn, hr4⟩, rfl⟩
  · rintro ⟨x, rfl⟩
    exact x.assessEvalResult_eq

end Checkc
