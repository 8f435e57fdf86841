import Checkc.Main.Runs

/-! # What reaches the grades

The orders in which sets are traversed do not reach the grades of a run on the host and a run in the
container. The report from the container reaches only the goals that it should.
-/

namespace Checkc

open Criticality Fs

/-! ## Iteration orders -/

section

variable {env env' : Env} {root : PathBuf} {config config' : Config}

namespace Collected.UpToOrder

variable {x : Evaluation env config root} {x' : Evaluation env' config' root}
  (h : x.input.UpToOrder x'.input)

include h

/-- The postures differ only in what they say about devices. -/
theorem posture_eq : x'.posture = { x.posture with
    devOffending := x'.posture.devOffending
    mknodOffending := x'.posture.mknodOffending } := by
  have hmissing : x'.posture.missing = x.posture.missing := by
    ext t
    rw [Evaluation.mem_missing, Evaluation.mem_missing, x'.mem_nsSet, x.mem_nsSet, h.active]
  have hpermitted : x'.posture.permitted = x.posture.permitted := by
    ext cap
    rw [Evaluation.mem_permitted_iff, Evaluation.mem_permitted_iff, h.capPrm]
  have hhost : x'.flagsHost.isEmpty = x.flagsHost.isEmpty := by
    rw [Bool.eq_iff_iff, List.isEmpty_iff, List.isEmpty_iff, doCheckFlagsHost_eq_nil x'.host_eq,
      doCheckFlagsHost_eq_nil x.host_eq, h.hostNamespaces]
  have href : x'.flagsRefcontainer.isEmpty = x.flagsRefcontainer.isEmpty := by
    rw [Bool.eq_iff_iff, List.isEmpty_iff, List.isEmpty_iff,
      doCheckFlagsRefcontainer_eq_nil x'.refcontainer_eq,
      doCheckFlagsRefcontainer_eq_nil x.refcontainer_eq, h.refContainerNamespaces]
  rw [Evaluation.posture, Evaluation.posture, Posture.mk.injEq, h.interfaceFiles, h.userNs,
    h.hostRoot, h.containerRoot, hhost, href]
  exact ⟨hmissing, hpermitted, rfl, rfl, rfl, rfl, rfl, rfl, rfl, rfl, rfl⟩

/-- Goal S1 depends on devices only by way of goal S2, and only if `CAP_SYS_CHROOT` is permitted. -/
theorem verdict_s1_eq (hs : .capSysChroot ∈ x.posture.permitted →
    (x'.posture.verdict .s2 = ok ↔ x.posture.verdict .s2 = ok)) :
    x'.posture.verdict .s1 = x.posture.verdict .s1 := by
  refine Posture.eq_of_binary (Posture.binary_verdict Evaluation.unspecified_notMem_permitted .s1)
    (Posture.binary_verdict Evaluation.unspecified_notMem_permitted .s1) ?_
  rw [Posture.verdict_s1_eq_ok_iff Evaluation.unspecified_notMem_permitted,
    Posture.verdict_s1_eq_ok_iff Evaluation.unspecified_notMem_permitted]
  have hp := h.posture_eq
  have hmissing : x'.posture.missing = x.posture.missing := by rw [hp]
  have hpermitted : x'.posture.permitted = x.posture.permitted := by rw [hp]
  have hroot : x'.posture.rootShared = x.posture.rootShared := by rw [hp]
  have hmaps : x'.posture.mapsToRoot = x.posture.mapsToRoot := by rw [hp]
  rw [hmissing, hpermitted, hroot, hmaps]
  refine and_congr_right fun _ => and_congr_right fun _ => and_congr_right fun _ => ?_
  exact imp_congr_right hs

theorem verdict_eq (hs : x'.posture.verdict .s2 = ok ↔ x.posture.verdict .s2 = ok) (g : Goal) :
    x'.posture.verdict g = x.posture.verdict g := by
  cases g with
  | s1 => exact h.verdict_s1_eq fun _ => hs
  | s2 =>
    exact Posture.eq_of_binary (Posture.binary_verdict Evaluation.unspecified_notMem_permitted .s2)
      (Posture.binary_verdict Evaluation.unspecified_notMem_permitted .s2) hs
  | s3 | s4 =>
    rw [h.posture_eq]
    rfl

end Collected.UpToOrder

end

/-- The grades are a matter of what the system answers alone: the orders in which sets are traversed
on the host, in the container, in the evaluation and in the assessment do not reach them. -/
theorem grades_of_orders {S : HostSystem} {args : HostArgs} {π ι : Type} [DecidableEq ι]
    {C : ContainerSystem π ι} {s s' u t t' v : Process} {host host' container container' : Config}
    {envH envC : Env} (hh : (S.hostReport args).run s = (.ok host, s'))
    (hh' : ({ S with env := envH }.hostReport args).run s = (.ok host', u))
    (hc : C.containerReport.run t = (.ok container, t'))
    (hc' : { C with env := envC }.containerReport.run t = (.ok container', v)) (env env' : Env)
    (root : PathBuf) :
    ∃ e e' r r', evaluate env container host root = .ok e ∧
      evaluate env' container' host' root = .ok e' ∧ assessEvalResult env e = .ok r ∧
      assessEvalResult env' e' = .ok r' ∧ e'.unprivileged = e.unprivileged ∧
      ∀ g c, r'.Graded g c ↔ r.Graded g c := by
  obtain ⟨e, h⟩ := exists_evaluate hh hc env root
  obtain ⟨e', h'⟩ := exists_evaluate hh' hc' env' root
  obtain ⟨⟨p, p', rfl, rfl, hp⟩, rfl⟩ := S.agrees_hostReport args envH s host host' s' u hh hh'
  obtain ⟨c, rfl, hreports⟩ := ContainerSystem.exists_report hc
  obtain ⟨c', rfl, hreports'⟩ := ContainerSystem.exists_report hc'
  obtain ⟨x, y, rfl, hr, hg⟩ := exists_report (evaluate_report env p c root ▸ h)
  obtain ⟨x', y', rfl, hr', hg'⟩ := exists_report (evaluate_report env' p' c' root ▸ h')
  have hx : p.combined c = x.input := Collected.toConfig_injective x.config_eq
  have hx' : p'.combined c' = x'.input := Collected.toConfig_injective x'.config_eq
  have horder : x.input.UpToOrder x'.input := hx ▸ hx' ▸ hp c c'
  have hs : x'.posture.verdict .s2 = ok ↔ x.posture.verdict .s2 = ok := by
    have hdevice : deviceConfig C.env C.devTree C.nodes C.mknod = .ok x.input.device :=
      hx ▸ hreports.device
    have hdevice' : deviceConfig envC C.devTree C.nodes C.mknod = .ok x'.input.device :=
      hx' ▸ hreports'.device
    rw [Evaluation.verdict_s2_eq_ok_iff, Evaluation.verdict_s2_eq_ok_iff,
      decide_eq_decide.mpr horder.ownUserNs, compliant_iff hdevice, compliant_iff hdevice']
  refine ⟨x.result, x'.result, y.report, y'.report, h, h', hr, hr', ?_, fun g c => ?_⟩
  · change x'.unprivileged = x.unprivileged
    rw [Bool.eq_iff_iff, x'.unprivileged_iff, x.unprivileged_iff, horder.ownUserNs]
  · rw [(hg' g).unique, (hg g).unique, horder.verdict_eq hs]

theorem grades_of_orders_restricted : ∃ host s' host' u container t' container' v e e' r r',
    (leakyHost.hostReport ⟨1, 2, 3⟩).run startProcess = (.ok host, s') ∧
    ({ leakyHost with env := .reversing }.hostReport ⟨1, 2, 3⟩).run startProcess = (.ok host', u) ∧
    restricted.containerReport.run startProcess = (.ok container, t') ∧
    { restricted with env := .reversing }.containerReport.run startProcess = (.ok container', v) ∧
    evaluate .logging container host "/c" = .ok e ∧
    evaluate .reversing container' host' "/c" = .ok e' ∧ assessEvalResult .logging e = .ok r ∧
    assessEvalResult .reversing e' = .ok r' ∧ ∀ g c, r'.Graded g c ↔ r.Graded g c := by
  obtain ⟨host, s', hh⟩ := exists_leakyHost
  obtain ⟨container, t', hc⟩ := exists_restricted
  obtain ⟨host', u, hh'⟩ : ∃ host' u, ({ leakyHost with env := .reversing }.hostReport
    ⟨1, 2, 3⟩).run startProcess = (.ok host', u) := ⟨_, _, rfl⟩
  obtain ⟨container', v, hc'⟩ : ∃ container' v, { restricted with
    env := .reversing }.containerReport.run startProcess = (.ok container', v) := ⟨_, _, rfl⟩
  obtain ⟨e, e', r, r', h, h', hr, hr', -, hg⟩ :=
    grades_of_orders hh hh' hc hc' .logging .reversing "/c"
  exact ⟨host, s', host', u, container, t', container', v, e, e', r, r', hh, hh', hc, hc', h, h',
    hr, hr', hg⟩

/-! ## What the container reaches -/

/-- The host reported the same for both configurations. -/
structure Collected.SameHost (k k' : Collected) : Prop where
  ns : k'.ns = k.ns
  caps : k'.caps = k.caps
  cgroup : k'.cgroup = k.cgroup
  refContainerNamespaces : k'.fs.refContainerNamespaces = k.fs.refContainerNamespaces
  hostNamespaces : k'.fs.hostNamespaces = k.fs.hostNamespaces
  userNs : k'.userNs = k.userNs
  hostRoot : k'.hostRoot = k.hostRoot
  containerRoot : k'.containerRoot = k.containerRoot
  info : k'.info = k.info

section

variable {env : Env} {root : PathBuf} {container container' host config config' : Config}

theorem Combined.sameHost {k k' : Collected} (h : Combined container host k.toConfig)
    (h' : Combined container' host k'.toConfig) : k.SameHost k' := by
  obtain ⟨_, fs, -, hfs, hconf⟩ := h.fsConfig
  obtain ⟨_, fs', -, hfs', hconf'⟩ := h'.fsConfig
  obtain rfl := Option.some.inj (hfs.symm.trans hfs')
  have hk := Option.some.inj hconf
  have hk' := Option.some.inj hconf'
  have hroots := Option.some.inj (h'.chrootConfig.trans h.chrootConfig.symm)
  exact ⟨Option.some.inj (h'.nsConfig.trans h.nsConfig.symm),
    Option.some.inj (h'.capsConfig.trans h.capsConfig.symm),
    Option.some.inj (h'.cgroupConfig.trans h.cgroupConfig.symm), by rw [hk, hk'], by rw [hk, hk'],
    Option.some.inj (h'.userNsConfig.trans h.userNsConfig.symm),
    Option.some.inj (congrArg Chroot.Config.host hroots),
    Option.some.inj (congrArg Chroot.Config.container hroots),
    Option.some.inj (h'.info.trans h.info.symm)⟩

theorem Collected.SameHost.upToOrder {k k' : Collected} (h : k.SameHost k') : k.UpToOrder k' where
  active _ := by rw [h.ns]
  ownUserNs := by rw [h.ns]
  capPrm _ := by rw [h.caps]
  interfaceFiles := by rw [h.cgroup]
  refContainerNamespaces := h.refContainerNamespaces
  hostNamespaces := h.hostNamespaces
  userNs := h.userNs
  hostRoot := h.hostRoot
  containerRoot := h.containerRoot

namespace Collected.SameHost

variable {x : Evaluation env config root} {x' : Evaluation env config' root}
  (h : x.input.SameHost x'.input)

include h

theorem active_eq : (x'.unprivileged, x'.nsSet) = (x.unprivileged, x.nsSet) :=
  Outcome.ok_unique (h.ns ▸ x'.active_eq) x.active_eq

theorem nsSet_eq : x'.nsSet = x.nsSet := congrArg Prod.snd h.active_eq

theorem flagsHost_eq : x'.flagsHost = x.flagsHost :=
  Outcome.ok_unique (h.hostNamespaces ▸ x'.host_eq) x.host_eq

theorem flagsRefcontainer_eq : x'.flagsRefcontainer = x.flagsRefcontainer :=
  Outcome.ok_unique (h.refContainerNamespaces ▸ x'.refcontainer_eq) x.refcontainer_eq

theorem capabilities_eq : x'.capabilities = x.capabilities := by
  rw [Evaluation.capabilities, h.caps]
  rfl

theorem category_eq (spec : CategorySpec) (chroot : Option Chroot) (cgroup : Option Bool)
    (tests : HashMap String TestResult) :
    x'.category spec chroot cgroup tests = x.category spec chroot cgroup tests := by
  rw [Evaluation.category, h.nsSet_eq, h.capabilities_eq]
  rfl

/-- The report of the container reaches three categories. -/
theorem get_categories_eq {label : String} (hl : label ∉ ["network", "devices", "access_control"]) :
    x'.result.categories.get label = x.result.categories.get label := by
  simp only [List.mem_cons, List.not_mem_nil, or_false, not_or] at hl
  have hm : ∀ c, (label, c) ∈ x'.categories ↔ (label, c) ∈ x.categories := by
    intro c
    simp [Evaluation.categories, hl, h.category_eq, h.flagsHost_eq, h.flagsRefcontainer_eq,
      h.cgroup, h.hostRoot, h.containerRoot]
  ext c
  rw [Evaluation.get_categories, Evaluation.get_categories, hm]

theorem assessGoalS3_eq : assessGoalS3 x'.result = assessGoalS3 x.result := by
  have hfilesystem : x'.result.categories.get "filesystem" =
      x.result.categories.get "filesystem" := h.get_categories_eq (by decide)
  have hunique : x'.result.getTest "access_control" "user_ns_mapping_unique" =
      x.result.getTest "access_control" "user_ns_mapping_unique" := by
    change Outcome.ok (TestResult.plain x'.input.userNs.uniqueMapping) = _
    rw [h.userNs]
    rfl
  simp only [assessGoalS3, hunique]
  simp only [EvalResult.getTest, hfilesystem]

theorem assessGoalS4_eq : assessGoalS4 x'.result = assessGoalS4 x.result := by
  have hresource : x'.result.categories.get "resource_control" =
      x.result.categories.get "resource_control" := h.get_categories_eq (by decide)
  simp only [assessGoalS4, EvalResult.getTest, hresource]

end Collected.SameHost

/-- A container that finds a disk. -/
def diskContainer : ContainerSystem String Unit :=
  { restricted with
    devTree := linkedDisk
    nodes := fun _ => ⟨0o060600, 1000, 1000⟩ }

end

end Checkc
