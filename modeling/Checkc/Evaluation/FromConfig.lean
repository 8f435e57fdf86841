import Checkc.Evaluation.Categories

/-! # The evaluation of a configuration

The evaluation first computes the set of namespace types that isolate the container:
its own user namespace and the unshared namespaces that its user namespace owns. It
then reports each category on this set and on the permitted capabilities.
-/

namespace Checkc

open Outcome

/-! ## The active namespaces -/

/-- The unshared namespaces by type. -/
def Ns.Config.unsharedNs (c : Ns.Config) : HashMap NsType Ns.Info :=
  HashMap.ofList (c.unshared.map fun ns => (ns.getType, ns))

/-- The loops over the unshared namespaces, which add those owned by the user namespace. -/
def collectOwned (env : Env) (userNs : Ns.Info) (unsharedNs : HashMap NsType Ns.Info)
    (nsSet : HashSet NsType) : Result (HashSet NsType) :=
  (unsharedNs.iter env.σ "unshared_ns").foldlM (fun nsSet ns => do
    let owner ← unwrap ns.2.owner
    let id ← unwrap userNs.id
    pure (if owner = id then nsSet.insert ns.1 else nsSet)) nsSet

/-- Whether the container is unprivileged, and the set of its active namespaces. -/
def activeNamespaces (env : Env) (nsConfig : Ns.Config) : Result (Bool × HashSet NsType) :=
  match nsConfig.unsharedNs.get .user with
  | some userNs => do
    let nsSet ← collectOwned env userNs nsConfig.unsharedNs ((∅ : HashSet NsType).insert .user)
    pure (true, nsSet)
  | none => do
    -- check against the host user namespace
    let userNs ← unwrap (nsConfig.sharedHost.find? (·.getType = .user))
    let nsSet ← collectOwned env userNs nsConfig.unsharedNs ∅
    pure (false, nsSet)

namespace Ns.Config

variable {c : Ns.Config}

/-- The container has a user namespace of its own. -/
def OwnUserNs (c : Ns.Config) : Prop := ∃ ns ∈ c.unshared, ns.getType = .user

instance (c : Ns.Config) : Decidable c.OwnUserNs := by unfold OwnUserNs; infer_instance

/-- The user namespace in which the container runs. -/
def userNs (c : Ns.Config) : Option Ns.Info :=
  (c.unsharedNs.get .user).or (c.sharedHost.find? (·.getType = .user))

/-- The namespace type isolates the container. -/
def Active (c : Ns.Config) (t : NsType) : Prop :=
  (t = .user ∧ c.OwnUserNs) ∨ ∃ ns ∈ c.unsharedNs.get t, ∃ u ∈ c.userNs, ns.owner = u.id

theorem get_unsharedNs_eq_none {t : NsType} :
    c.unsharedNs.get t = none ↔ ∀ ns ∈ c.unshared, ns.getType ≠ t := by
  simp [unsharedNs, HashMap.get_ofList]

theorem isSome_get_user : (c.unsharedNs.get .user).isSome = true ↔ c.OwnUserNs := by
  rw [← not_iff_not, Bool.not_eq_true, Option.isSome_eq_false_iff, Option.isNone_iff_eq_none,
    get_unsharedNs_eq_none]
  simp [OwnUserNs]

/-- The map holds unshared namespaces under their type. -/
theorem of_get_unsharedNs {t : NsType} {ns : Ns.Info} (h : c.unsharedNs.get t = some ns) :
    ns ∈ c.unshared ∧ ns.getType = t := by
  rw [unsharedNs, HashMap.get_ofList, Option.map_eq_some_iff] at h
  obtain ⟨e, he, rfl⟩ := h
  obtain ⟨ns, hns, rfl⟩ := List.mem_map.mp (List.mem_reverse.mp (List.mem_of_find?_eq_some he))
  exact ⟨hns, by simpa using List.find?_some he⟩

end Ns.Config

theorem mem_collectOwned {env : Env} {userNs : Ns.Info} {m : HashMap NsType Ns.Info}
    {s s' : HashSet NsType} (h : collectOwned env userNs m s = .ok s') {t : NsType} :
    t ∈ s' ↔ t ∈ s ∨ ∃ ns ∈ m.get t, ns.owner = userNs.id := by
  rw [foldlM_accumulates (M := fun s => t ∈ s)
    (Q := fun e => e.1 = t ∧ e.2.owner = userNs.id) (fun s s' e _ hs => ?_) h]
  · refine or_congr_right ⟨?_, ?_⟩
    · rintro ⟨⟨_, ns⟩, hm, rfl, ho⟩
      exact ⟨ns, HashMap.mem_iter.mp hm, ho⟩
    · rintro ⟨ns, hm, ho⟩
      exact ⟨(t, ns), HashMap.mem_iter.mpr hm, rfl, ho⟩
  · simp only [bind_eq_ok, unwrap_eq_ok, pure_eq_ok] at hs
    obtain ⟨owner, ho, id, hid, rfl⟩ := hs
    by_cases he : owner = id <;> simp [ho, hid, he, eq_comm]

theorem collectOwned_isOk (env : Env) {userNs : Ns.Info} {m : HashMap NsType Ns.Info}
    (hu : userNs.id.isSome = true) (hm : ∀ t, ∀ ns ∈ m.get t, ns.owner.isSome = true)
    (s : HashSet NsType) : ∃ s', collectOwned env userNs m s = .ok s' := by
  refine foldlM_isOk (fun s e he => ?_) s
  obtain ⟨id, hid⟩ := Option.isSome_iff_exists.mp hu
  obtain ⟨owner, ho⟩ := Option.isSome_iff_exists.mp (hm e.1 e.2 (HashMap.mem_iter.mp he))
  exact ⟨_, by rw [ho, hid]; rfl⟩

/-- The active namespaces of the report are those that isolate the container. -/
theorem activeNamespaces_eq_ok {env : Env} {c : Ns.Config} {u : Bool} {s : HashSet NsType}
    (h : activeNamespaces env c = .ok (u, s)) :
    (u = true ↔ c.OwnUserNs) ∧ ∀ t, t ∈ s ↔ c.Active t := by
  rw [← Ns.Config.isSome_get_user]
  unfold activeNamespaces at h
  simp only [Ns.Config.Active, ← Ns.Config.isSome_get_user, Ns.Config.userNs]
  cases hg : c.unsharedNs.get .user with
  | some userNs =>
    simp only [hg, bind_eq_ok, pure_eq_ok, Prod.mk.injEq] at h
    obtain ⟨s, hs, rfl, rfl⟩ := h
    exact ⟨by simp, fun t => by simp [mem_collectOwned hs]⟩
  | none =>
    simp only [hg, bind_eq_ok, pure_eq_ok, Prod.mk.injEq, unwrap_eq_ok] at h
    obtain ⟨userNs, hf, s, hs, rfl, rfl⟩ := h
    exact ⟨by simp, fun t => by simp [mem_collectOwned hs, hf]⟩

/-- The active namespaces are computed whenever the container has a user namespace and
every namespace has an id and an owner. -/
theorem activeNamespaces_isOk (env : Env) {c : Ns.Config} (hu : c.userNs.isSome = true)
    (hid : ∀ ns ∈ c.unshared ++ c.sharedHost, ns.id.isSome = true)
    (ho : ∀ ns ∈ c.unshared, ns.owner.isSome = true) : ∃ r, activeNamespaces env c = .ok r := by
  have hm : ∀ t, ∀ ns ∈ c.unsharedNs.get t, ns.owner.isSome = true :=
    fun t ns h => ho ns (Ns.Config.of_get_unsharedNs h).1
  obtain ⟨u, hu⟩ := Option.isSome_iff_exists.mp hu
  unfold activeNamespaces
  rw [Ns.Config.userNs] at hu
  cases hg : c.unsharedNs.get .user with
  | some userNs =>
    have hi := hid userNs (List.mem_append_left _ (Ns.Config.of_get_unsharedNs hg).1)
    obtain ⟨s, hs⟩ := collectOwned_isOk env hi hm ((∅ : HashSet NsType).insert .user)
    exact ⟨(true, s), bind_eq_ok.mpr ⟨s, hs, rfl⟩⟩
  | none =>
    rw [hg, Option.none_or] at hu
    have hi := hid u (List.mem_append_right _ (List.mem_of_find?_eq_some hu))
    obtain ⟨s, hs⟩ := collectOwned_isOk env hi hm ∅
    exact ⟨(false, s), by rw [hu, unwrap_some, ok_bind]; exact bind_eq_ok.mpr ⟨s, hs, rfl⟩⟩

/-! ## The report -/

/-- `EvalResult::from_config`. -/
def EvalResult.fromConfig (env : Env) (config : Config) (containerRootHost : PathBuf) :
    Result EvalResult := do
  let info ← unwrap config.info
  let nsConfig ← unwrap config.nsConfig
  let (unprivileged, nsSet) ← activeNamespaces env nsConfig
  let capsConfig ← unwrap config.capsConfig
  let capabilities := HashSet.ofList capsConfig.getCapPrm
  let network ← categoryNetwork env config nsSet capabilities
  let filesystem ← categoryFilesystem env config nsSet capabilities containerRootHost
  let devices ← categoryDevices env config nsSet capabilities
  let resourceControl ← categoryResourceControl env config nsSet capabilities
  let processControl ← categoryProcessControl env nsSet capabilities
  let accessControl ← categoryAccessControl env config nsSet capabilities
  let time ← categoryTime env nsSet capabilities
  let global ← categoryGlobal env nsSet capabilities
  pure
    { unprivileged
      categories := HashMap.ofList
        [("network", network), ("filesystem", filesystem), ("devices", devices),
         ("resource_control", resourceControl), ("process_control", processControl),
         ("access_control", accessControl), ("time", time), ("global", global)]
      info := some
        { pidsContainer := info.pidsContainer
          pidsRefContainer := info.pidsRefContainer
          pidHost := info.pidHost
          containerRootHost := containerRootHost } }

/-- The steps of an evaluation that returns. -/
structure Evaluation (env : Env) (config : Config) (root : PathBuf) where
  input : Collected
  unprivileged : Bool
  nsSet : HashSet NsType
  flagsHost : List String
  flagsRefcontainer : List String
  config_eq : config = input.toConfig
  active_eq : activeNamespaces env input.ns = .ok (unprivileged, nsSet)
  host_eq : doCheckFlagsHost env flagLocationAllow input.fs.hostNamespaces root = .ok flagsHost
  refcontainer_eq :
    doCheckFlagsRefcontainer env input.fs.refContainerNamespaces = .ok flagsRefcontainer
  dev_processable : ∀ dev ∈ input.device.devDevices, dev.Processable
  mknod_processable : ∀ dev ∈ input.device.mknodDevices, dev.Processable

namespace Evaluation

variable {env : Env} {config : Config} {root : PathBuf} (x : Evaluation env config root)

/-- The permitted capabilities. -/
def capabilities : HashSet Capability := HashSet.ofList x.input.caps.getCapPrm

/-- The report of a category without own tests. -/
def category (spec : CategorySpec) (chroot : Option Chroot) (cgroup : Option Bool)
    (tests : HashMap String TestResult) : Category :=
  spec.category env x.nsSet x.capabilities chroot cgroup tests

/-- The reported categories. -/
def categories : List (String × Category) :=
  [("network", x.category .network none none
      (networkTests x.input.utsHost x.input.utsContainer)),
   ("filesystem", x.category .filesystem
      (some (chrootState x.input.hostRoot x.input.containerRoot)) none
      (filesystemTests x.flagsHost x.flagsRefcontainer)),
   ("devices", x.category .devices none none
      (devicesTests (whitelistResult x.input.device.devDevices (.user ∈ x.nsSet))
        (whitelistResult x.input.device.mknodDevices (.user ∈ x.nsSet)))),
   ("resource_control", x.category .resourceControl none
      (some !x.input.cgroup.controllers.isEmpty) (resourceControlTests x.input.cgroup)),
   ("process_control", x.category .processControl none none ∅),
   ("access_control", x.category .accessControl none none
      (accessControlTests x.input.userNs x.input.seccomp)),
   ("time", x.category .time none none ∅),
   ("global", x.category .global none none ∅)]

/-- The report. -/
def result : EvalResult where
  unprivileged := x.unprivileged
  categories := HashMap.ofList x.categories
  info := some
    { pidsContainer := x.input.info.pidsContainer
      pidsRefContainer := x.input.info.pidsRefContainer
      pidHost := x.input.info.pidHost
      containerRootHost := root }

theorem unprivileged_iff : x.unprivileged = true ↔ x.input.ns.OwnUserNs :=
  (activeNamespaces_eq_ok x.active_eq).1

theorem mem_nsSet {t : NsType} : t ∈ x.nsSet ↔ x.input.ns.Active t :=
  (activeNamespaces_eq_ok x.active_eq).2 t

end Evaluation

/-- The evaluation returns exactly when all of its steps do, and then with their report. -/
theorem fromConfig_eq_ok {env : Env} {config : Config} {root : PathBuf} {e : EvalResult} :
    EvalResult.fromConfig env config root = .ok e ↔
      ∃ x : Evaluation env config root, e = x.result := by
  simp only [EvalResult.fromConfig, bind_eq_ok, unwrap_eq_ok, pure_eq_ok, categoryNetwork_eq_ok,
    categoryFilesystem_eq_ok, categoryDevices_eq_ok, categoryResourceControl_eq_ok,
    categoryAccessControl_eq_ok]
  constructor
  · rintro ⟨info, hi, ns, hn, ⟨u, nsSet⟩, ha, caps, hc, _, ⟨host, container, hh, hco, rfl⟩,
      _, ⟨hostRoot, containerRoot, fs, lh, lr, hch, hfs, hlh, hlr, rfl⟩,
      _, ⟨device, hd, hdev, hmk, rfl⟩, _, ⟨cgroup, hcg, rfl⟩, _, hp,
      _, ⟨userNs, seccomp, hu, hs, rfl⟩, _, ht, _, hg, rfl⟩
    obtain rfl := pure_eq_ok.mp hp
    obtain rfl := pure_eq_ok.mp ht
    obtain rfl := pure_eq_ok.mp hg
    refine ⟨⟨⟨ns, caps, cgroup, fs, userNs, seccomp, host, container, hostRoot, containerRoot,
      device, info⟩, u, nsSet, lh, lr, ?_, ha, hlh, hlr, hdev, hmk⟩, rfl⟩
    cases config
    simp_all only [Collected.toConfig]
  · rintro ⟨x, rfl⟩
    obtain ⟨k, u, nsSet, lh, lr, rfl, ha, hlh, hlr, hdev, hmk⟩ := x
    exact ⟨k.info, rfl, k.ns, rfl, (u, nsSet), ha, k.caps, rfl, _, ⟨_, _, rfl, rfl, rfl⟩,
      _, ⟨_, _, _, lh, lr, rfl, rfl, hlh, hlr, rfl⟩, _, ⟨_, rfl, hdev, hmk, rfl⟩, _, ⟨_, rfl, rfl⟩,
      _, rfl, _, ⟨_, _, rfl, rfl, rfl⟩, _, rfl, _, rfl, rfl⟩

end Checkc
