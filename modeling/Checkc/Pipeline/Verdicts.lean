import Checkc.Pipeline.Refinement

/-! # Verdicts of the whole pipeline

What the states of the goals say about the configuration from which a report was made.
-/

namespace Checkc

open Outcome (bind_eq_ok pure_eq_ok)

open Criticality

/-- The report grades the goal with the given state. -/
def AssessmentReport.Graded (r : AssessmentReport) (g : Goal) (c : Criticality) : Prop :=
  (r.result g).map (·.state) = some (ProtoEnum.toI32 c)

theorem AssessmentReport.Graded.unique {r : AssessmentReport} {g : Goal} {c d : Criticality}
    (h : r.Graded g c) : r.Graded g d ↔ c = d := by
  rw [AssessmentReport.Graded] at h ⊢
  rw [h, Option.some.injEq, ProtoEnum.toI32_inj]

/-! ## A container -/

/-- A container whose namespaces all differ from those of the host. -/
def Collected.isolated : Collected where
  ns :=
    { unshared := [(NsType.cgroup, 101), (.ipc, 102), (.network, 103), (.mount, 104), (.pid, 105),
        (.time, 106), (.user, 107), (.uts, 108)].map fun (t, ino) =>
          ⟨ProtoEnum.toI32 t, some ⟨4, ino⟩, some ⟨4, 107⟩⟩
      sharedHost := []
      userNsHierarchy := none
      pidNsHierarchy := none }
  caps := { Caps.Config.empty with capPrm := [ProtoEnum.toI32 Capability.capNetAdmin] }
  cgroup :=
    { cgroup := "/sys/fs/cgroup/c"
      controllers := []
      interfaceFiles :=
        HashMap.ofList [("cpu.max", "50000 100000"), ("memory.max", "1073741824")] }
  fs :=
    { containerNamespaces := []
      refContainerNamespaces := []
      hostNamespaces := [⟨some ⟨4, 4⟩, [1], [], [],
        ["/c/xyz_checkc_flag_01234567-89ab-cdef-0123-456789abcdef"]⟩] }
  userNs :=
    { uidMap := [⟨0, 100000, 65536⟩], gidMap := [⟨0, 100000, 65536⟩], uniqueMapping := true }
  seccomp := { mode := ProtoEnum.toI32 SeccompMode.filter }
  utsHost := { hostname := "host", domainname := "" }
  utsContainer := { hostname := "c", domainname := "" }
  hostRoot := { path := "/", stIno := 2, stDev := 1 }
  containerRoot := { path := "/", stIno := 2, stDev := 5 }
  device :=
    { devDevices := [⟨"/dev/null", some ⟨1, 1, 3⟩, 438, 0, 0, true, true⟩]
      mknodDevices := [] }
  info := { pidsContainer := [], pidsRefContainer := [], pidHost := 1 }

theorem fromConfig_isolated :
    ∃ e, EvalResult.fromConfig .logging Collected.isolated.toConfig "/c" = .ok e := ⟨_, rfl⟩

section Pipeline

variable {env : Env} {config : Config} {root : PathBuf} {e : EvalResult}

/-- The report about an evaluated configuration grades each goal by its posture. -/
theorem exists_report (h : EvalResult.fromConfig env config root = .ok e) :
    ∃ (x : Evaluation env config root) (y : Assessment env x.result), e = x.result ∧
      assessEvalResult env e = .ok y.report ∧ ∀ g, y.report.Graded g (x.posture.verdict g) := by
  obtain ⟨x, rfl⟩ := fromConfig_eq_ok.mp h
  obtain ⟨y⟩ := x.exists_assessment
  refine ⟨x, y, rfl, y.assessEvalResult_eq, fun g => ?_⟩
  rw [AssessmentReport.Graded, y.report_result, Option.map_some, y.state_eq,
    Evaluation.grade_eq_verdict]

/-- Each goal is graded by the worst of its findings, and the lines of its result explain
exactly its findings above `ok`. -/
theorem grades_explained {r : AssessmentReport} (h : assessEvalResult env e = .ok r) :
    ∃ x : Assessment env e, r = x.report ∧ ∀ g, ∃ res, r.result g = some res ∧
      (∃ c ∈ [ok, info, warn, error], res.state = ProtoEnum.toI32 c) ∧
      res.state = ProtoEnum.toI32 (worst ((x.findings g).map Finding.criticality)) ∧
      (res.state = ProtoEnum.toI32 ok ↔ res.info = []) ∧
      res.info.length = ((x.findings g).filter (ok < ·.criticality)).length ∧
      List.Forall₂ Finding.Explains ((x.findings g).filter (ok < ·.criticality)) res.info := by
  obtain ⟨x, rfl⟩ := assessEvalResult_eq_ok.mp h
  refine ⟨x, rfl, fun g => ⟨x.result g, x.report_result g, ⟨x.grade g, ?_, x.state_eq g⟩,
    x.state_eq g, (x.records g).state_eq_ok_iff, (x.records g).length_info, (x.records g).info⟩⟩
  have hg : ok ≤ x.grade g := ok_le_grade _
  revert hg
  cases x.grade g <;> decide

/-- The isolated container gets an explained grade for each goal. -/
theorem grades_explained_isolated :
    ∃ e r, EvalResult.fromConfig .logging Collected.isolated.toConfig "/c" = .ok e ∧
      assessEvalResult .logging e = .ok r ∧
      ∀ g, ∃ res, r.result g = some res ∧ (res.state = ProtoEnum.toI32 ok ↔ res.info = []) := by
  obtain ⟨e, he⟩ := fromConfig_isolated
  obtain ⟨_, y, -, hr, -⟩ := exists_report he
  obtain ⟨_, -, hg⟩ := grades_explained hr
  refine ⟨e, y.report, he, hr, fun g => ?_⟩
  obtain ⟨res, hres, -, -, hok, -⟩ := hg g
  exact ⟨res, hres, hok⟩

/-! ## Goal S1 -/

theorem Evaluation.missing_eq_empty_iff {x : Evaluation env config root} :
    x.posture.missing = ∅ ↔ ∀ t ∈ NsType.list, t ∈ x.nsSet := by
  simp only [Finset.eq_empty_iff_forall_notMem, Evaluation.mem_missing, NsType.mem_list]
  exact forall_congr' fun t => by tauto

theorem Evaluation.rootShared_eq_false_iff {x : Evaluation env config root} :
    x.posture.rootShared = false ↔
      (x.input.hostRoot.stDev ≠ x.input.containerRoot.stDev ∨
        x.input.hostRoot.stIno ≠ x.input.containerRoot.stIno) ∧
      x.input.containerRoot.path = "/" := by
  simp only [Evaluation.posture, chrootState, Chroot.Issue, decide_eq_false_iff_not,
    decide_eq_true_eq, not_or, not_not]
  tauto

theorem Evaluation.mem_permitted_iff {x : Evaluation env config root} {cap : Capability} :
    cap ∈ x.posture.permitted ↔
      cap ≠ .unspecified ∧ ProtoEnum.toI32 cap ∈ x.input.caps.capPrm := by
  rw [x.mem_permitted, Evaluation.capabilities, HashSet.mem_ofList, Caps.Config.getCapPrm,
    List.mem_filterMap]
  simp [ProtoEnum.fromI32_eq_some]

theorem Evaluation.unspecified_notMem_permitted {x : Evaluation env config root} :
    .unspecified ∉ x.posture.permitted := by
  simp [x.mem_permitted]

/-- Goal S1 is met exactly when all namespaces are active, the root directory of the container
is separate, no user of the container is root on the host, and `CAP_SYS_CHROOT` is only
permitted with restricted device access. -/
theorem goalS1_verdict (h : EvalResult.fromConfig env config root = .ok e) :
    ∃ k u nsSet r, config = Collected.toConfig k ∧
      activeNamespaces env k.ns = .ok (u, nsSet) ∧ assessEvalResult env e = .ok r ∧
      (r.Graded .s1 .ok ↔
        (∀ t ∈ NsType.list, t ∈ nsSet) ∧
        ((k.hostRoot.stDev ≠ k.containerRoot.stDev ∨ k.hostRoot.stIno ≠ k.containerRoot.stIno) ∧
          k.containerRoot.path = "/") ∧
        (∀ mapping ∈ k.userNs.uidMap, mapping.parent ≠ 0) ∧
        (ProtoEnum.toI32 Capability.capSysChroot ∈ k.caps.capPrm → r.Graded .s2 .ok)) ∧
      (¬ r.Graded .s1 .ok → r.Graded .s1 .error) := by
  obtain ⟨x, y, -, hr, hg⟩ := exists_report h
  refine ⟨x.input, x.unprivileged, x.nsSet, y.report, x.config_eq, x.active_eq, hr, ?_, ?_⟩
  · rw [(hg .s1).unique, (hg .s2).unique,
      Posture.verdict_s1_eq_ok_iff Evaluation.unspecified_notMem_permitted,
      Evaluation.missing_eq_empty_iff, Evaluation.rootShared_eq_false_iff,
      Evaluation.mem_permitted_iff]
    simp [Evaluation.posture]
  · rw [(hg .s1).unique, (hg .s1).unique]
    exact (Posture.binary_verdict Evaluation.unspecified_notMem_permitted .s1).resolve_left

theorem goalS1_verdict_isolated :
    ∃ e r, EvalResult.fromConfig .logging Collected.isolated.toConfig "/c" = .ok e ∧
      assessEvalResult .logging e = .ok r ∧ r.Graded .s1 .ok := by
  obtain ⟨e, he⟩ := fromConfig_isolated
  obtain ⟨k, u, nsSet, r, hk, hact, hr, hiff, -⟩ := goalS1_verdict he
  obtain rfl := Collected.toConfig_injective hk
  refine ⟨e, r, he, hr, hiff.mpr ⟨fun t ht => ?_, by decide, by decide, ?_⟩⟩
  · cases hact
    revert t
    decide
  · exact fun hc => absurd hc (by decide)

/-! ## Goal S2 -/

/-- The device is a character or a block device. -/
def Device.IsNode (dev : Device) : Prop :=
  ∃ id ∈ dev.id, id.getType = .char ∨ id.getType = .block

instance (dev : Device) : Decidable dev.IsNode :=
  match h : dev.id with
  | none => isFalse fun ⟨_, hi, _⟩ => by simp [h] at hi
  | some id => decidable_of_iff (id.getType = .char ∨ id.getType = .block)
      (by simp [Device.IsNode, h])

/-- Only character and block devices can offend. -/
theorem offending_filter_isNode {u : Bool} {l : List Device} :
    (∀ dev ∈ l.filter Device.IsNode, ¬ dev.Offending u) ↔ ∀ dev ∈ l, ¬ dev.Offending u := by
  simp only [List.mem_filter, decide_eq_true_eq]
  constructor
  · intro h dev hd ho
    have ⟨id, hid, ht, _⟩ := ho
    exact h dev ⟨hd, id, hid, ht⟩ ho
  · exact fun h dev hd => h dev hd.1

/-- The container's own user namespace makes it unprivileged. -/
theorem Evaluation.user_mem_nsSet {x : Evaluation env config root} :
    decide (.user ∈ x.nsSet) = decide x.input.ns.OwnUserNs := by
  rw [decide_eq_decide, x.mem_nsSet, Ns.Config.Active]
  constructor
  · rintro (⟨-, h⟩ | ⟨ns, hns, -⟩)
    · exact h
    · exact ⟨ns, Ns.Config.of_get_unsharedNs hns⟩
  · exact fun h => Or.inl ⟨rfl, h⟩

theorem Evaluation.verdict_s2_eq_ok_iff {x : Evaluation env config root} :
    x.posture.verdict .s2 = ok ↔
      ∀ dev ∈ x.input.device.devDevices ++ x.input.device.mknodDevices,
        ¬ dev.Offending (decide x.input.ns.OwnUserNs) := by
  rw [Posture.verdict, Posture.verdictS2, errorIf_eq_ok]
  simp only [Evaluation.posture, Evaluation.user_mem_nsSet, List.forall_mem_append,
    ← whitelistResult_passed, not_or, Bool.not_eq_true', Bool.not_eq_false]

/-- A device that is not whitelisted is a character or a block device. -/
theorem Device.not_offending_iff {dev : Device} {u : Bool} : ¬ dev.Offending u ↔
    ∀ id ∈ dev.id, id.getType = .char ∨ id.getType = .block → id.Whitelisted u := by
  simp only [Device.Offending, not_exists, not_and, not_not]

/-- The verdict on goal S2 depends only on the character and block devices and on the
namespaces. -/
theorem Evaluation.verdict_s2_congr {env' : Env} {config' : Config} {root' : PathBuf}
    {x : Evaluation env config root} {x' : Evaluation env' config' root'}
    (hns : x.input.ns = x'.input.ns)
    (hd : x'.input.device.devDevices.filter Device.IsNode =
      x.input.device.devDevices.filter Device.IsNode)
    (hm : x'.input.device.mknodDevices.filter Device.IsNode =
      x.input.device.mknodDevices.filter Device.IsNode) :
    x'.posture.verdict .s2 = x.posture.verdict .s2 := by
  refine Posture.eq_of_binary (Posture.binary_errorIf _) (Posture.binary_errorIf _) ?_
  rw [verdict_s2_eq_ok_iff, verdict_s2_eq_ok_iff, ← hns, List.forall_mem_append,
    List.forall_mem_append]
  apply and_congr
  · rw [← offending_filter_isNode, hd, offending_filter_isNode]
  · rw [← offending_filter_isNode, hm, offending_filter_isNode]

/-- Goal S2 is met exactly when every character or block device is whitelisted. The tests list
the other ones, and devices of another kind do not matter. -/
theorem goalS2_verdict (h : EvalResult.fromConfig env config root = .ok e) :
    ∃ k r, config = Collected.toConfig k ∧ assessEvalResult env e = .ok r ∧
      (r.Graded .s2 .ok ↔ ∀ dev ∈ k.device.devDevices ++ k.device.mknodDevices, ∀ id ∈ dev.id,
        id.getType = .char ∨ id.getType = .block →
          (id.getType = .char ∧ 136 ≤ id.major.toNat ∧ id.major.toNat ≤ 143) ∨
          (devWhitelistGeneral.get id).isSome = true ∨
          ((devWhitelistUnprivileged.get id).isSome = true ∧
            ∃ ns ∈ k.ns.unshared, ns.getType = .user)) ∧
      (¬ r.Graded .s2 .ok → r.Graded .s2 .error) ∧
      (∃ test, e.getTest "devices" "dev_whitelist_compliance" = .ok test ∧ test.info =
        (k.device.devDevices.filter (Device.Offending (decide k.ns.OwnUserNs))).map Device.line) ∧
      (∃ test, e.getTest "devices" "mknod_whitelist_compliance" = .ok test ∧ test.info =
        (k.device.mknodDevices.filter (Device.Offending (decide k.ns.OwnUserNs))).map
          Device.line) ∧
      ∀ env' device e',
        device.devDevices.filter Device.IsNode = k.device.devDevices.filter Device.IsNode →
        device.mknodDevices.filter Device.IsNode = k.device.mknodDevices.filter Device.IsNode →
        EvalResult.fromConfig env' { config with deviceConfig := some device } root = .ok e' →
        ∃ r', assessEvalResult env' e' = .ok r' ∧ ∀ c, r'.Graded .s2 c ↔ r.Graded .s2 c := by
  obtain ⟨x, y, rfl, hr, hg⟩ := exists_report h
  refine ⟨x.input, y.report, x.config_eq, hr, ?_, ?_, ⟨_, rfl, ?_⟩, ⟨_, rfl, ?_⟩, ?_⟩
  · rw [(hg .s2).unique, Evaluation.verdict_s2_eq_ok_iff]
    simp only [Device.not_offending_iff, Device.Id.Whitelisted, decide_eq_true_eq]
    rfl
  · rw [(hg .s2).unique, (hg .s2).unique]
    exact (Posture.binary_verdict Evaluation.unspecified_notMem_permitted .s2).resolve_left
  · rw [← Evaluation.user_mem_nsSet]; rfl
  · rw [← Evaluation.user_mem_nsSet]; rfl
  · intro env' device e' hd hm h'
    obtain ⟨x', y', rfl, hr', hg'⟩ := exists_report h'
    have hdev : device = x'.input.device :=
      Option.some.inj (congrArg Config.deviceConfig x'.config_eq)
    have hns : some x.input.ns = some x'.input.ns :=
      (congrArg Config.nsConfig x.config_eq).symm.trans (congrArg Config.nsConfig x'.config_eq)
    rw [hdev] at hd hm
    have hv := Evaluation.verdict_s2_congr (Option.some.inj hns) hd hm
    exact ⟨y'.report, hr', fun c => by rw [(hg' .s2).unique, (hg .s2).unique, hv]⟩

theorem goalS2_verdict_isolated :
    ∃ e r, EvalResult.fromConfig .logging Collected.isolated.toConfig "/c" = .ok e ∧
      assessEvalResult .logging e = .ok r ∧ r.Graded .s2 .ok := by
  obtain ⟨e, he⟩ := fromConfig_isolated
  obtain ⟨k, r, hk, hr, hiff, -⟩ := goalS2_verdict he
  obtain rfl := Collected.toConfig_injective hk
  refine ⟨e, r, he, hr, hiff.mpr fun dev hd id hid _ => Or.inr (Or.inl ?_)⟩
  obtain rfl := List.mem_singleton.mp hd
  cases hid
  decide

/-! ## Goal S3 -/

/-- The same namespaces with the same flag files, both in any order. -/
def Reordered (l l' : List MountNamespace) : Prop :=
  ∃ m, l.Perm m ∧ List.Forall₂ (fun a b =>
    b = { a with flagFiles := b.flagFiles } ∧ a.flagFiles.Perm b.flagFiles) m l'

theorem Evaluation.verdict_s3_eq_ok_iff {x : Evaluation env config root} :
    x.posture.verdict .s3 = ok ↔ x.input.userNs.uniqueMapping = true ∧
      (∀ mountns ∈ x.input.fs.refContainerNamespaces, mountns.flagFiles = []) ∧
      ∀ mountns ∈ x.input.fs.hostNamespaces, ∀ flag ∈ mountns.flagFiles, ¬ Leaks root flag := by
  rw [Posture.verdict, errorIf_eq_ok, ← doCheckFlagsHost_eq_nil x.host_eq,
    ← doCheckFlagsRefcontainer_eq_nil x.refcontainer_eq]
  simp [Evaluation.posture]

theorem Reordered.exists_flag_iff {l l' : List MountNamespace} (h : Reordered l l')
    {P : String → Prop} : (∃ mountns ∈ l, ∃ flag ∈ mountns.flagFiles, P flag) ↔
      ∃ mountns ∈ l', ∃ flag ∈ mountns.flagFiles, P flag := by
  obtain ⟨m, hp, hf⟩ := h
  simp only [hp.mem_iff]
  exact exists_mem_iff_of_forall₂ hf fun a b hab => by simp only [hab.2.mem_iff]

theorem Reordered.forall_flag_iff {l l' : List MountNamespace} (h : Reordered l l')
    {P : String → Prop} : (∀ mountns ∈ l, ∀ flag ∈ mountns.flagFiles, P flag) ↔
      ∀ mountns ∈ l', ∀ flag ∈ mountns.flagFiles, P flag := by
  rw [← not_iff_not]
  push Not
  exact h.exists_flag_iff

/-- The verdict on goal S3 does not depend on the order of the namespaces and flag files. -/
theorem Evaluation.verdict_s3_congr {env' : Env} {config' : Config}
    {x : Evaluation env config root} {x' : Evaluation env' config' root}
    (hu : x.input.userNs = x'.input.userNs)
    (hhost : Reordered x.input.fs.hostNamespaces x'.input.fs.hostNamespaces)
    (href : Reordered x.input.fs.refContainerNamespaces x'.input.fs.refContainerNamespaces) :
    x'.posture.verdict .s3 = x.posture.verdict .s3 := by
  refine Posture.eq_of_binary (Posture.binary_errorIf _) (Posture.binary_errorIf _) ?_
  rw [verdict_s3_eq_ok_iff, verdict_s3_eq_ok_iff, ← hu, ← hhost.forall_flag_iff]
  simp only [List.eq_nil_iff_forall_not_mem, ← href.forall_flag_iff]

/-- Goal S3 is met exactly when the user mapping is unique, no flag file is seen in the
reference container, and those seen on the host that contain a UUID lie below the root of
the container. The order in which they are listed does not matter. -/
theorem goalS3_verdict (h : EvalResult.fromConfig env config root = .ok e) :
    ∃ k r, config = Collected.toConfig k ∧ assessEvalResult env e = .ok r ∧
      (r.Graded .s3 .ok ↔ k.userNs.uniqueMapping = true ∧
        (∀ mountns ∈ k.fs.refContainerNamespaces, mountns.flagFiles = []) ∧
        ∀ mountns ∈ k.fs.hostNamespaces, ∀ flag ∈ mountns.flagFiles,
          ¬ ContainsUuid flag ∨ Path.Below flag root) ∧
      (¬ r.Graded .s3 .ok → r.Graded .s3 .error) ∧
      ∀ env' fs e', Reordered k.fs.hostNamespaces fs.hostNamespaces →
        Reordered k.fs.refContainerNamespaces fs.refContainerNamespaces →
        EvalResult.fromConfig env' { config with fsConfig := some fs } root = .ok e' →
        ∃ r', assessEvalResult env' e' = .ok r' ∧ ∀ c, r'.Graded .s3 c ↔ r.Graded .s3 c := by
  obtain ⟨x, y, rfl, hr, hg⟩ := exists_report h
  refine ⟨x.input, y.report, x.config_eq, hr, ?_, ?_, ?_⟩
  · rw [(hg .s3).unique, Evaluation.verdict_s3_eq_ok_iff]
    simp only [Leaks, not_and_or, not_not]
  · rw [(hg .s3).unique, (hg .s3).unique]
    exact (Posture.binary_errorIf _).resolve_left
  · intro env' fs e' hhost href h'
    obtain ⟨x', y', rfl, hr', hg'⟩ := exists_report h'
    have hfs : fs = x'.input.fs := Option.some.inj (congrArg Config.fsConfig x'.config_eq)
    have hu : some x.input.userNs = some x'.input.userNs :=
      (congrArg Config.userNsConfig x.config_eq).symm.trans
        (congrArg Config.userNsConfig x'.config_eq)
    rw [hfs] at hhost href
    have hv := Evaluation.verdict_s3_congr (Option.some.inj hu) hhost href
    exact ⟨y'.report, hr', fun c => by rw [(hg' .s3).unique, (hg .s3).unique, hv]⟩

theorem goalS3_verdict_isolated :
    ∃ e r, EvalResult.fromConfig .logging Collected.isolated.toConfig "/c" = .ok e ∧
      assessEvalResult .logging e = .ok r ∧ r.Graded .s3 .ok := by
  obtain ⟨e, he⟩ := fromConfig_isolated
  obtain ⟨k, r, hk, hr, hiff, -⟩ := goalS3_verdict he
  obtain rfl := Collected.toConfig_injective hk
  refine ⟨e, r, he, hr, hiff.mpr ⟨rfl, by decide, ?_⟩⟩
  intro mountns hm flag hf
  obtain rfl := List.mem_singleton.mp hm
  obtain rfl := List.mem_singleton.mp hf
  exact Or.inr (Path.startsWith_iff.mp (by decide))

end Pipeline

/-! ## Weaker isolation -/

/-- The configuration `k'` differs from `k` only by weaker isolation. -/
structure Collected.Weakens (k k' : Collected) : Prop where
  types_nodup : (k.ns.unshared.map Ns.Info.getType).Nodup
  types_nodup' : (k'.ns.unshared.map Ns.Info.getType).Nodup
  user :
    (∃ u ∈ k.ns.unshared, u ∈ k'.ns.unshared ∧ u.getType = .user) ∨
    (¬ k.ns.OwnUserNs ∧ ¬ k'.ns.OwnUserNs ∧
      k.ns.sharedHost.find? (·.getType = .user) = k'.ns.sharedHost.find? (·.getType = .user))
  unshared : k'.ns.unshared ⊆ k.ns.unshared
  capPrm : k.caps.capPrm ⊆ k'.caps.capPrm
  devDevices : k.device.devDevices ⊆ k'.device.devDevices
  mknodDevices : k.device.mknodDevices ⊆ k'.device.mknodDevices
  uidMap : k.userNs.uidMap ⊆ k'.userNs.uidMap
  hostFlags : k.fs.hostNamespaces.flatMap (·.flagFiles) ⊆
    k'.fs.hostNamespaces.flatMap (·.flagFiles)
  refContainerFlags : k.fs.refContainerNamespaces.flatMap (·.flagFiles) ⊆
    k'.fs.refContainerNamespaces.flatMap (·.flagFiles)
  uniqueMapping : k'.userNs.uniqueMapping = true → k.userNs.uniqueMapping = true
  rootDiffers :
    k'.hostRoot.stDev ≠ k'.containerRoot.stDev ∨ k'.hostRoot.stIno ≠ k'.containerRoot.stIno →
    k.hostRoot.stDev ≠ k.containerRoot.stDev ∨ k.hostRoot.stIno ≠ k.containerRoot.stIno
  rootPath : k'.containerRoot.path = "/" → k.containerRoot.path = "/"
  limits : ∀ file ∈ ["cpu.max", "memory.max"],
    (∃ limit ∈ k'.cgroup.interfaceFiles.get file, ¬ "max".toList <:+: limit.toList) →
    ∃ limit ∈ k.cgroup.interfaceFiles.get file, ¬ "max".toList <:+: limit.toList

/-- The map of the unshared namespaces holds exactly the listed ones if the types differ. -/
theorem Ns.Config.get_unsharedNs_iff {c : Ns.Config} (h : (c.unshared.map Ns.Info.getType).Nodup)
    {t : NsType} {ns : Ns.Info} :
    c.unsharedNs.get t = some ns ↔ ns ∈ c.unshared ∧ ns.getType = t := by
  rw [unsharedNs, HashMap.get_ofList_eq_some_iff (by rwa [List.map_map]), List.mem_map]
  simp only [Prod.mk.injEq]
  constructor
  · rintro ⟨ns, hns, rfl, rfl⟩
    exact ⟨hns, rfl⟩
  · rintro ⟨hns, rfl⟩
    exact ⟨ns, hns, rfl, rfl⟩

namespace Collected.Weakens

variable {k k' : Collected} (h : k.Weakens k')

include h

theorem ownUserNs_iff : k.ns.OwnUserNs ↔ k'.ns.OwnUserNs := by
  rcases h.user with ⟨u, hu, hu', ht⟩ | ⟨hn, hn', -⟩
  · exact ⟨fun _ => ⟨u, hu', ht⟩, fun _ => ⟨u, hu, ht⟩⟩
  · exact iff_of_false hn hn'

theorem userNs_eq : k.ns.userNs = k'.ns.userNs := by
  unfold Ns.Config.userNs
  rcases h.user with ⟨u, hu, hu', ht⟩ | ⟨hn, hn', hf⟩
  · rw [(Ns.Config.get_unsharedNs_iff h.types_nodup).mpr ⟨hu, ht⟩,
      (Ns.Config.get_unsharedNs_iff h.types_nodup').mpr ⟨hu', ht⟩]
    rfl
  · rw [← Ns.Config.isSome_get_user, Bool.not_eq_true, Option.isSome_eq_false_iff,
      Option.isNone_iff_eq_none] at hn hn'
    rw [hn, hn', hf]

/-- A namespace that is active in the weaker configuration is active in the other one. -/
theorem active {t : NsType} (ht : k'.ns.Active t) : k.ns.Active t := by
  rcases ht with ⟨rfl, hu⟩ | ⟨ns, hns, u, hu, ho⟩
  · exact Or.inl ⟨rfl, h.ownUserNs_iff.mpr hu⟩
  · obtain ⟨hm, hty⟩ := Ns.Config.of_get_unsharedNs hns
    refine Or.inr ⟨ns, ?_, u, h.userNs_eq ▸ hu, ho⟩
    exact (Ns.Config.get_unsharedNs_iff h.types_nodup).mpr ⟨h.unshared hm, hty⟩

end Collected.Weakens

section

variable {env env' : Env} {config config' : Config} {root : PathBuf}

theorem forall_flag_of_subset {l l' : List MountNamespace} {P : String → Prop}
    (h : l.flatMap (·.flagFiles) ⊆ l'.flatMap (·.flagFiles))
    (hp : ∀ mountns ∈ l', ∀ flag ∈ mountns.flagFiles, P flag) :
    ∀ mountns ∈ l, ∀ flag ∈ mountns.flagFiles, P flag := by
  intro mountns hm flag hf
  obtain ⟨mountns', hm', hf'⟩ := List.mem_flatMap.mp (h (List.mem_flatMap.mpr ⟨_, hm, hf⟩))
  exact hp mountns' hm' flag hf'

theorem le_of_false_imp {a b : Bool} (h : b = false → a = false) : a ≤ b := by
  cases a <;> cases b <;> simp_all

/-- Weaker isolation gives a weaker posture. -/
theorem Collected.Weakens.posture_le {x : Evaluation env config root}
    {x' : Evaluation env' config' root} (h : x.input.Weakens x'.input) :
    x.posture ≤ x'.posture := by
  have hu : decide (.user ∈ x'.nsSet) = decide (.user ∈ x.nsSet) := by
    rw [Evaluation.user_mem_nsSet, Evaluation.user_mem_nsSet, decide_eq_decide, h.ownUserNs_iff]
  constructor
  · intro t ht
    rw [Evaluation.mem_missing, Evaluation.mem_nsSet] at ht ⊢
    exact ⟨ht.1, fun ha => ht.2 (h.active ha)⟩
  · intro cap hc
    rw [Evaluation.mem_permitted_iff] at hc ⊢
    exact ⟨hc.1, h.capPrm hc.2⟩
  · apply le_of_false_imp
    intro hr
    rw [Evaluation.rootShared_eq_false_iff] at hr ⊢
    exact ⟨h.rootDiffers hr.1, h.rootPath hr.2⟩
  · apply le_of_false_imp
    intro hm
    simp only [Evaluation.posture, Option.isSome_eq_false_iff, Option.isNone_iff_eq_none,
      List.find?_eq_none] at hm ⊢
    exact fun m hm' => hm m (h.uidMap hm')
  · apply le_of_false_imp
    intro hm
    simp only [Evaluation.posture, Bool.not_eq_false'] at hm ⊢
    exact h.uniqueMapping hm
  · apply le_of_false_imp
    intro hl
    simp only [Evaluation.posture, Bool.not_eq_false', List.isEmpty_iff,
      doCheckFlagsHost_eq_nil x.host_eq, doCheckFlagsHost_eq_nil x'.host_eq] at hl ⊢
    exact forall_flag_of_subset h.hostFlags hl
  · apply le_of_false_imp
    intro hl
    simp only [Evaluation.posture, Bool.not_eq_false', List.isEmpty_iff,
      doCheckFlagsRefcontainer_eq_nil x.refcontainer_eq,
      doCheckFlagsRefcontainer_eq_nil x'.refcontainer_eq,
      List.eq_nil_iff_forall_not_mem] at hl ⊢
    exact forall_flag_of_subset (P := fun _ => False) h.refContainerFlags hl
  · apply le_of_false_imp
    intro hd
    simp only [Evaluation.posture, Bool.not_eq_false', whitelistResult_passed, hu] at hd ⊢
    exact fun dev hm => hd dev (h.devDevices hm)
  · apply le_of_false_imp
    intro hd
    simp only [Evaluation.posture, Bool.not_eq_false', whitelistResult_passed, hu] at hd ⊢
    exact fun dev hm => hd dev (h.mknodDevices hm)
  · apply le_of_false_imp
    intro hl
    simp only [Evaluation.posture, Bool.not_eq_false', limitTest_passed] at hl ⊢
    exact h.limits _ (by simp) hl
  · apply le_of_false_imp
    intro hl
    simp only [Evaluation.posture, Bool.not_eq_false', limitTest_passed] at hl ⊢
    exact h.limits _ (by simp) hl

/-- Weaker isolation never earns a better grade. -/
theorem grades_mono {k k' : Collected} {e e' : EvalResult} (h : k.Weakens k')
    (he : EvalResult.fromConfig env k.toConfig root = .ok e)
    (he' : EvalResult.fromConfig env' k'.toConfig root = .ok e') :
    ∃ r r', assessEvalResult env e = .ok r ∧ assessEvalResult env' e' = .ok r' ∧
      ∀ g, ∃ c c', r.Graded g c ∧ r'.Graded g c' ∧ c ≤ c' := by
  obtain ⟨x, y, rfl, hr, hg⟩ := exists_report he
  obtain ⟨x', y', rfl, hr', hg'⟩ := exists_report he'
  rw [Collected.toConfig_injective x.config_eq, Collected.toConfig_injective x'.config_eq] at h
  exact ⟨y.report, y'.report, hr, hr', fun g => ⟨_, _, hg g, hg' g,
    Posture.verdict_mono g h.posture_le⟩⟩

/-- The isolated container with a mapped root user and with the root directory of the host. -/
def Collected.weakened : Collected :=
  { Collected.isolated with
    userNs := { Collected.isolated.userNs with uidMap := [⟨0, 100000, 65536⟩, ⟨65536, 0, 1⟩] }
    containerRoot := Collected.isolated.hostRoot }

theorem Collected.weakens_weakened : Collected.isolated.Weakens Collected.weakened where
  types_nodup := by decide
  types_nodup' := by decide
  user := Or.inl ⟨⟨7, some ⟨4, 107⟩, some ⟨4, 107⟩⟩, by decide, by decide, by decide⟩
  unshared := List.Subset.refl _
  capPrm := List.Subset.refl _
  devDevices := List.Subset.refl _
  mknodDevices := List.Subset.refl _
  uidMap := List.subset_append_left _ _
  hostFlags := List.Subset.refl _
  refContainerFlags := List.Subset.refl _
  uniqueMapping := id
  rootDiffers := fun _ => Or.inl (by decide)
  rootPath := id
  limits := fun _ _ => id

theorem grades_mono_weakened : ∃ e e' r r',
    EvalResult.fromConfig .logging Collected.isolated.toConfig "/c" = .ok e ∧
    EvalResult.fromConfig .logging Collected.weakened.toConfig "/c" = .ok e' ∧
    assessEvalResult .logging e = .ok r ∧ assessEvalResult .logging e' = .ok r' ∧
    ∀ g, ∃ c c', r.Graded g c ∧ r'.Graded g c' ∧ c ≤ c' := by
  obtain ⟨e, he⟩ := fromConfig_isolated
  obtain ⟨e', he'⟩ : ∃ e',
    EvalResult.fromConfig .logging Collected.weakened.toConfig "/c" = .ok e' := ⟨_, rfl⟩
  obtain ⟨r, r', hr, hr', hg⟩ := grades_mono Collected.weakens_weakened he he'
  exact ⟨e, e', r, r', he, he', hr, hr', hg⟩

end

end Checkc
