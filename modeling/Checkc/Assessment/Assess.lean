import Checkc.Assessment.Message
import Checkc.Config.CapSec

/-! # The assessment of an evaluation

The four security goals are assessed one after the other. Each assessment looks up the
categories and tests that it needs and appends what it finds to the result of the goal.
-/

namespace Checkc

open Outcome

/-- `SecResult::append`. -/
def SecResult.append (r : SecResult) (c : Criticality) (info : List String) : SecResult :=
  { state := max r.state (ProtoEnum.toI32 c), info := r.info ++ info }

/-- The variants with the given numbers. -/
def decodeAll {α : Type} [ProtoEnum α] (codes : List Int) : Result (List α) :=
  codes.mapM fun code => unwrap (ProtoEnum.fromI32 code)

theorem decodeAll_eq_ok {α : Type} [ProtoEnum α] {codes : List Int} {l : List α} :
    decodeAll codes = .ok l ↔ codes = l.map ProtoEnum.toI32 := by
  induction codes generalizing l with
  | nil => cases l <;> simp [decodeAll, pure_eq_ok]
  | cons code codes ih =>
    simp only [decodeAll, List.mapM_cons, bind_eq_ok, unwrap_eq_ok, ProtoEnum.fromI32_eq_some,
      pure_eq_ok] at ih ⊢
    constructor
    · rintro ⟨a, ha, l, hl, rfl⟩
      rw [List.map_cons, ha, ← ih.mp hl]
    · cases l with
      | nil => simp
      | cons a l =>
        intro h
        obtain ⟨h, hl⟩ := List.cons.inj h
        exact ⟨a, h.symm, l, ih.mpr hl, rfl⟩

/-- `assess_test`. -/
def assessTest (name : String) (test : TestResult) (secResult : SecResult) : SecResult :=
  let secResult :=
    if ¬ test.valid then
      secResult.append .error [s!"test {name} was not valid, assessment result is ERROR"]
    else secResult
  if ¬ test.passed then
    secResult.append .error [s!"test {name} did not pass, assessment result is ERROR"]
  else secResult

/-! ## Capabilities -/

/-- The `Debug` text of a set of namespace types. -/
def debugNsSet (env : Env) (nsSet : HashSet NsType) : String :=
  "\x7b" ++ ", ".intercalate ((nsSet.iter env.σ "debug_ns_set").map NsType.debug) ++ "\x7d"

section Capabilities

variable (env : Env) (nsSet : HashSet NsType) (resultGoalS2 : Criticality) (chrootConf : Chroot)

/-- The special case of `CAP_SYS_CHROOT` in the loop of `assess_capabilities`. -/
def assessSysChroot (secResult : SecResult) : SecResult :=
  if .user ∉ nsSet ∨ .mount ∉ nsSet then
    secResult.append .error
      [s!"CAP_SYS_CHROOT: active namespaces '{debugNsSet env nsSet}' do not match required " ++
        "namespaces 'TYPE_USER, TYPE_MOUNT'"]
  else if ¬ chrootConf.chroot ∨ ¬ chrootConf.pivotRoot then
    secResult.append .error
      [s!"Result for CAP_SYS_CHROOT is Criticality::Error because of result for chroot tests " ++
        s!"(chroot: '{chrootConf.chroot}',  pivot_root: '{chrootConf.pivotRoot}')"]
  else if .ok ≠ resultGoalS2 then
    secResult.append resultGoalS2
      [s!"CAP_SYS_CHROOT: Criticality::Error because of result '{resultGoalS2.debug}' for Goal S2"]
  else secResult.append .ok []

/-- The lookup in the table in the loop of `assess_capabilities`. -/
def assessRecord (cap : Capability) (capRecord : CapabilityRecord) (secResult : SecResult) :
    SecResult :=
  if ¬ capRecord.ok.isEmpty ∧ capRecord.ok.isSubset nsSet then secResult
  else if ¬ capRecord.warn.isEmpty ∧ capRecord.warn.isSubset nsSet then
    secResult.append .warn
      [s!"{cap.display}: {Criticality.warn.asStrName}, description: {capRecord.notes}"]
  else
    secResult.append capRecord.default
      [s!"{cap.display}: {capRecord.default.asStrName} (default), description: {capRecord.notes}"]

/-- The body of the loop of `assess_capabilities`. -/
def assessCapability (secResult : SecResult) (cap : Capability) : Result SecResult := do
  let capRecord ← unwrap (capMap.get cap)
  if cap = .capSysChroot then pure (assessSysChroot env nsSet resultGoalS2 chrootConf secResult)
  else pure (assessRecord nsSet cap capRecord secResult)

/-- `assess_capabilities`. -/
def assessCapabilities (capSet : List Capability) : Result SecResult :=
  capSet.foldlM (assessCapability env nsSet resultGoalS2 chrootConf) SecResult.default

end Capabilities

/-! ## Goals -/

/-- A result that starts with the state `ok`. -/
def SecResult.started : SecResult := { state := ProtoEnum.toI32 Criticality.ok, info := [] }

/-- The result of a test of a category. -/
def EvalResult.getTest (e : EvalResult) (category test : String) : Result TestResult := do
  let category ← unwrap (e.categories.get category)
  unwrap (category.tests.get test)

/-- The part of `assess_goal_s4` about the namespaces of its category. -/
def assessCgroupNamespaces (namespaces : Namespaces) : Result (Bool × SecResult) :=
  if namespaces.desired ≠ namespaces.active then do
    let active ← decodeAll (α := NsType) namespaces.active
    let desired ← decodeAll (α := NsType) namespaces.desired
    let active := ", ".intercalate (active.map NsType.asStrName)
    let desired := ", ".intercalate (desired.map NsType.asStrName)
    pure (false, SecResult.started.append .error
      [s!"Active namespaces ({active}) did not match desired ones ({desired}) for category " ++
        "'resource_control', assessment result for goal S4 is ERROR"])
  else pure (true, SecResult.started)

/-- `assess_goal_s4`. -/
def assessGoalS4 (e : EvalResult) : Result (Option GoalS4NoAvaiabilityImpact) := do
  let cgroupsResult ← unwrap (e.categories.get "resource_control")
  let isolation ← unwrap cgroupsResult.isolation
  let namespaces ← unwrap isolation.namespaces
  let (cgroupsNamespaceUsed, secResult) ← assessCgroupNamespaces namespaces
  let cpu ← e.getTest "resource_control" "cpu_max_limited"
  let memory ← e.getTest "resource_control" "memory_max_limited"
  pure <| some
    { description := "No availability impact"
      result := some <| assessTest "memory_max_limited" memory <|
        assessTest "cpu_max_limited" cpu secResult
      cgroupsNamespaceUsed
      usedCgroupControllers := none }

/-- `assess_goal_s3`. -/
def assessGoalS3 (e : EvalResult) : Result (Option GoalS3NoContainerDataLeak) := do
  let unique ← e.getTest "access_control" "user_ns_mapping_unique"
  let refcontainer ← e.getTest "filesystem" "flag_matches_refcontainer"
  let host ← e.getTest "filesystem" "flag_matches_host"
  pure <| some
    { description := "No container data leak"
      result := some <| assessTest "flag_matches_host" host <|
        assessTest "flag_matches_refcontainer" refcontainer <|
        assessTest "user_ns_mapping_unique" unique SecResult.started }

/-- `assess_goal_s2`. -/
def assessGoalS2 (e : EvalResult) : Result (Option GoalS2RestrictedDeviceAccess) := do
  let dev ← e.getTest "devices" "dev_whitelist_compliance"
  let mknod ← e.getTest "devices" "mknod_whitelist_compliance"
  pure <| some
    { description := "Restriction of device access"
      result := some <| assessTest "mknod_whitelist_compliance" mknod <|
        assessTest "dev_whitelist_compliance" dev SecResult.started }

/-- The namespaces that a category reports, if it reports any. -/
def Category.namespaces (c : Category) : Option Namespaces := c.isolation.bind (·.namespaces)

/-- The loop of `assess_goal_s1` over the namespaces of a category. -/
def collectNamespaces (ns : HashSet NsType × HashSet NsType) (entry : String × Category) :
    Result (HashSet NsType × HashSet NsType) :=
  match entry.2.namespaces with
  | none => pure ns
  | some namespaces => do
    let active ← decodeAll namespaces.active
    let desired ← decodeAll namespaces.desired
    pure (ns.1.extend active, ns.2.extend desired)

/-- The loop of `assess_goal_s1` over the capabilities of a category. -/
def collectCapabilities (capabilities : List Capability) (entry : String × Category) :
    Result (List Capability) := do
  let c ← decodeAll entry.2.capabilities
  pure (capabilities ++ c)

/-- The findings of `assess_goal_s1` about the root directory. -/
def assessChroot (chrootConf : Chroot) (secResult : SecResult) : SecResult :=
  if ¬ chrootConf.chroot ∨ ¬ chrootConf.pivotRoot then
    secResult.append .error
      [s!"goal_s1: Unexpected chroot config: chroot {chrootConf.chroot}, pivot_root: " ++
        s!"{chrootConf.pivotRoot}"]
  else secResult

/-- The findings of `assess_goal_s1` about the namespaces. -/
def assessNamespaces (env : Env) (activeNs desiredNs : HashSet NsType) (secResult : SecResult) :
    SecResult :=
  let diff := (desiredNs.difference activeNs).iter env.σ "assess_goal_s1.diff"
  if ¬ diff.isEmpty then
    let info := ", ".intercalate (diff.map NsType.asStrName)
    secResult.append .error [s!"Active namespaces do not match desired namespaces: {info}"]
  else secResult

/-- `assess_goal_s1`. -/
def assessGoalS1 (env : Env) (e : EvalResult) (resultGoalS2 : Criticality) :
    Result (Option GoalS1GlobalResourceModification) := do
  let (activeNs, desiredNs) ←
    (e.categories.iter env.σ "assess_goal_s1.namespaces").foldlM collectNamespaces (∅, ∅)
  let capabilities ←
    (e.categories.iter env.σ "assess_goal_s1.capabilities").foldlM collectCapabilities []
  let filesystem ← unwrap (e.categories.get "filesystem")
  let isolation ← unwrap filesystem.isolation
  match isolation.chroot with
  | none => pure none
  | some chrootConf => do
    let secResult := assessChroot chrootConf SecResult.started
    let secResult := assessNamespaces env activeNs desiredNs secResult
    let secResultCaps ← assessCapabilities env activeNs resultGoalS2 chrootConf capabilities
    let stateCaps ← unwrap (ProtoEnum.fromI32 secResultCaps.state)
    let secResult := secResult.append stateCaps secResultCaps.info
    let nonRoot ← e.getTest "access_control" "user_ns_maps_to_non_root_user"
    pure <| some
      { description := "Restriction of global resource modification"
        result := some (assessTest "user_ns_maps_to_non_root_user" nonRoot secResult)
        namespaceConf := some
          { active := (activeNs.iter env.σ "assess_goal_s1.active").map ProtoEnum.toI32
            desired := (desiredNs.iter env.σ "assess_goal_s1.desired").map ProtoEnum.toI32 }
        capabilities := capabilities.map ProtoEnum.toI32
        chrootConf := some chrootConf }

/-- The criticality of goal S2 on which goal S1 depends. -/
def resultGoalS2 (goalS2 : Option GoalS2RestrictedDeviceAccess) : Result Criticality :=
  match goalS2 with
  | some goal => do
    let result ← unwrap goal.result
    unwrap (ProtoEnum.fromI32 result.state)
  | none => pure .error

/-- `assess_eval_result`. -/
def assessEvalResult (env : Env) (e : EvalResult) : Result AssessmentReport := do
  let goalS2 ← assessGoalS2 e
  let resultGoalS2 ← resultGoalS2 goalS2
  let goalS1 ← assessGoalS1 env e resultGoalS2
  if goalS1.isNone then .panic "Failed to assess security goal S-1"
  else do
    let goalS3 ← assessGoalS3 e
    let goalS4 ← assessGoalS4 e
    pure { unprivileged := e.unprivileged, goalS1, goalS2, goalS3, goalS4 }

/-! ## What goal S1 collects -/

theorem mem_collectNamespaces {ns ns' : HashSet NsType × HashSet NsType}
    {entry : String × Category} (h : collectNamespaces ns entry = .ok ns') {t : NsType} :
    (t ∈ ns'.1 ↔ t ∈ ns.1 ∨ ∃ n ∈ entry.2.namespaces, ProtoEnum.toI32 t ∈ n.active) ∧
      (t ∈ ns'.2 ↔ t ∈ ns.2 ∨ ∃ n ∈ entry.2.namespaces, ProtoEnum.toI32 t ∈ n.desired) := by
  unfold collectNamespaces at h
  cases hn : entry.2.namespaces with
  | none =>
    rw [hn] at h
    obtain rfl := pure_eq_ok.mp h
    simp
  | some n =>
    simp only [hn, bind_eq_ok, decodeAll_eq_ok, pure_eq_ok] at h
    obtain ⟨active, ha, desired, hd, rfl⟩ := h
    simp [ha, hd, List.mem_map]

/-- The active and desired namespaces of goal S1 are those that some category reports. -/
theorem mem_collectedNamespaces {l : List (String × Category)}
    {ns : HashSet NsType × HashSet NsType} (h : l.foldlM collectNamespaces (∅, ∅) = .ok ns)
    (t : NsType) :
    (t ∈ ns.1 ↔ ∃ entry ∈ l, ∃ n ∈ entry.2.namespaces, ProtoEnum.toI32 t ∈ n.active) ∧
      (t ∈ ns.2 ↔ ∃ entry ∈ l, ∃ n ∈ entry.2.namespaces, ProtoEnum.toI32 t ∈ n.desired) := by
  have h1 := foldlM_accumulates (M := fun ns : HashSet NsType × HashSet NsType => t ∈ ns.1)
    (f := collectNamespaces) (fun _ _ _ _ hs => (mem_collectNamespaces hs).1) h
  have h2 := foldlM_accumulates (M := fun ns : HashSet NsType × HashSet NsType => t ∈ ns.2)
    (f := collectNamespaces) (fun _ _ _ _ hs => (mem_collectNamespaces hs).2) h
  exact ⟨by simpa using h1, by simpa using h2⟩

/-- The namespaces are collected when all reported numbers are namespace types. -/
theorem collectNamespaces_isOk {l : List (String × Category)}
    (h : ∀ entry ∈ l, ∀ n ∈ entry.2.namespaces, ∃ active desired : List NsType,
      n.active = active.map ProtoEnum.toI32 ∧ n.desired = desired.map ProtoEnum.toI32)
    (ns : HashSet NsType × HashSet NsType) : ∃ r, l.foldlM collectNamespaces ns = .ok r := by
  refine foldlM_isOk (fun ns entry he => ?_) ns
  unfold collectNamespaces
  cases hn : entry.2.namespaces with
  | none => exact ⟨ns, rfl⟩
  | some n =>
    obtain ⟨active, desired, ha, hd⟩ := h entry he n hn
    exact ⟨_, bind_eq_ok.mpr ⟨active, decodeAll_eq_ok.mpr ha,
      bind_eq_ok.mpr ⟨desired, decodeAll_eq_ok.mpr hd, rfl⟩⟩⟩

/-- The capabilities of goal S1 are those of all categories one after the other. -/
theorem map_collectCapabilities {l : List (String × Category)} {caps r : List Capability}
    (h : l.foldlM collectCapabilities caps = .ok r) :
    r.map ProtoEnum.toI32 = caps.map ProtoEnum.toI32 ++ l.flatMap (·.2.capabilities) := by
  refine foldlM_induction (P := fun l r => r.map ProtoEnum.toI32 =
    caps.map ProtoEnum.toI32 ++ l.flatMap (·.2.capabilities)) (by simp) ?_ h
  intro l entry s s' hs hstep
  simp only [collectCapabilities, bind_eq_ok, decodeAll_eq_ok, pure_eq_ok] at hstep
  obtain ⟨c, hc, rfl⟩ := hstep
  rw [List.map_append, hs, List.flatMap_append, List.flatMap_singleton, hc, List.append_assoc]

/-- The capabilities are collected when all reported numbers are capabilities. -/
theorem collectCapabilities_isOk {l : List (String × Category)}
    (h : ∀ entry ∈ l, ∃ caps : List Capability, entry.2.capabilities = caps.map ProtoEnum.toI32)
    (caps : List Capability) : ∃ r, l.foldlM collectCapabilities caps = .ok r := by
  refine foldlM_isOk (fun caps entry he => ?_) caps
  obtain ⟨c, hc⟩ := h entry he
  exact ⟨caps ++ c, bind_eq_ok.mpr ⟨c, decodeAll_eq_ok.mpr hc, rfl⟩⟩

/-- The namespaces of goal S4 are compared when all reported numbers are namespace types. -/
theorem assessCgroupNamespaces_isOk {n : Namespaces} {active desired : List NsType}
    (ha : n.active = active.map ProtoEnum.toI32) (hd : n.desired = desired.map ProtoEnum.toI32) :
    ∃ r, assessCgroupNamespaces n = .ok r := by
  unfold assessCgroupNamespaces
  split
  · exact ⟨_, bind_eq_ok.mpr ⟨active, decodeAll_eq_ok.mpr ha,
      bind_eq_ok.mpr ⟨desired, decodeAll_eq_ok.mpr hd, rfl⟩⟩⟩
  · exact ⟨_, rfl⟩

end Checkc
