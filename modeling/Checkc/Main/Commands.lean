import Checkc.CConfig.Cgroup
import Checkc.CConfig.ContainerPids
import Checkc.CConfig.MountSession
import Checkc.CConfig.NsSession
import Checkc.Pipeline.Collected
import Checkc.Pipeline.Namespaces

/-! # The commands

A run on the host and a run in the container each report a part of the configuration. The evaluation
combines a part of each kind, and the assessment grades what it finds.
-/

namespace Checkc

open Outcome (bind_eq_ok pure_eq_ok)

open Fs (Process CollectError collectOutcome)

/-! ## Roots and names -/

/-- What the system answers about the root directory of a process: the inode and the device, and
where the link leads. -/
structure RootAnswers where
  metadata : PidT → Except Errno (UInt64 × UInt64)
  readLink : PidT → Except Errno String

/-- `Root::from_pid`. -/
def Chroot.Root.fromPid (answers : RootAnswers) (pid : PidT) : Result Chroot.Root := do
  let (stIno, stDev) ← ioResult (answers.metadata pid)
  let path ← ioResult (answers.readLink pid)
  pure { path, stIno, stDev }

/-- `chroot_config`. -/
def Chroot.chrootConfig (answers : RootAnswers) (pidHost pidContainer : PidT) :
    Result Chroot.Config := do
  let hostRoot ← Chroot.Root.fromPid answers pidHost
  let containerRoot ← Chroot.Root.fromPid answers pidContainer
  pure { host := some hostRoot, container := some containerRoot }

/-- The conversion of an error of `nix` by `?`. -/
def nixResult {α : Type} : Except Errno α → Result α
  | .error e => .err (.nixError e)
  | .ok a => .ok a

/-- `uts_config`. -/
def Uts.utsConfig (hostname domainname : Except Errno String) : Result Uts.Config := do
  let hostname ← nixResult hostname
  let domainname ← nixResult domainname
  pure { hostname, domainname }

/-! ## The run on the host -/

structure HostArgs where
  pidHost : PidT
  pidContainer : PidT
  pidRefContainer : PidT

/-- What the system answers to the run on the host. The processes are listed six times, each time in
the mount namespace that the run is in, and mount namespaces are searched three times. -/
structure HostSystem where
  env : Env
  fuel : ℕ
  alloc : Descriptors.Allocator
  kernel : Ns.Kernel
  procDir : Ns.ProcDir
  status : PidT → Except Errno (List (Option String))
  cgroup : Cgroup.System
  hostname : Except Errno String
  domainname : Except Errno String
  overflowChecks : Bool
  idMaps : PidT → IdMapping.Files
  roots : RootAnswers
  listed : ℕ → Ns.Id → Ns.ProcDir
  stat : ℕ → Ns.Id → PidT → ℕ → PidT → StatAnswer
  mounts : ℕ → Fs.MountKernel

/-- A call whose answer does not depend on the state, and that closes what it opens. -/
def collect {α : Type} (x : Result α) : Session Process CollectError α :=
  .lift (collectOutcome x)

/-- A call that may leave descriptors open. -/
def collectOpen {α : Type} (m : Session Descriptors.Table Error α) :
    Session Process CollectError α where
  run s := (collectOutcome (m.run s.table).1, { s with table := (m.run s.table).2 })

namespace HostSystem

variable (S : HostSystem)

/-- The processes of a container in the `i`-th listing, in this mount namespace. -/
def pids (i : ℕ) (ns : Ns.Id) (pid : PidT) : Result (List PidT) :=
  getContainerPids S.fuel (S.listed i ns) (S.stat i ns) pid

/-- `get_container_pids`, where the run is. -/
def containerPids (i : ℕ) (pid : PidT) : Session Process CollectError (Result (List PidT)) :=
  .step fun s => (S.pids i s.mntns pid, s)

/-- The command `Host`, up to the report. -/
def hostReport (args : HostArgs) : Session Process CollectError Config := do
  let nsConfig ← collectOpen
    (Descriptors.nsConfig S.alloc S.kernel S.env S.procDir S.fuel args.pidHost args.pidContainer)
  let capsConfig ← collect (Caps.capsConfig S.env (S.status args.pidContainer))
  let cgroupConfig ← collect (Cgroup.cgroupConfig S.env S.cgroup S.fuel args.pidContainer)
  let utsConfig ← collect (Uts.utsConfig S.hostname S.domainname)
  let userNsConfig ← collectOpen (Descriptors.userNsConfig S.alloc S.kernel S.overflowChecks
    S.idMaps S.procDir args.pidContainer)
  let fsRootConfig ← collect (Chroot.chrootConfig S.roots args.pidHost args.pidContainer)
  let includesTestContainer ← collect (unwrapOk (← S.containerPids 0 args.pidContainer))
  let includesRefContainer ← collect (unwrapOk (← S.containerPids 1 args.pidRefContainer))
  let testContainerNamespaces ← Fs.fsConfigHostview (S.mounts 0) includesTestContainer true
  let refContainerNamespaces ← Fs.fsConfigHostview (S.mounts 1) includesRefContainer true
  let excludesTestContainer ← collect (← S.containerPids 2 args.pidContainer)
  let excludesRefContainer ← collect (← S.containerPids 3 args.pidRefContainer)
  let excludesHost := excludesTestContainer ++ excludesRefContainer
  let hostNamespaces ← Fs.fsConfigHostview (S.mounts 2) excludesHost false
  let pidsContainer ← collect (← S.containerPids 4 args.pidContainer)
  let pidsRefContainer ← collect (← S.containerPids 5 args.pidRefContainer)
  pure
    { nsConfig := some nsConfig
      capsConfig := some capsConfig
      cgroupConfig := some cgroupConfig
      fsConfig := some
        { containerNamespaces := testContainerNamespaces, refContainerNamespaces, hostNamespaces }
      userNsConfig := some userNsConfig
      seccompConfig := none
      utsConfigHost := some utsConfig
      utsConfigContainer := none
      chrootConfig := some fsRootConfig
      deviceConfig := none
      info := some { pidsContainer, pidsRefContainer, pidHost := args.pidHost } }

end HostSystem

/-! ## The run in the container -/

/-- What the system answers to the run in the container. -/
structure ContainerSystem (π ι : Type) where
  env : Env
  euid : UInt32
  hostname : Except Errno String
  domainname : Except Errno String
  devTree : DevTree π ι
  nodes : ι → Device.Inode
  mknod : MknodSystem
  status : Except Errno (List (Option String))
  mount : Except String Unit
  mounts : Fs.MountKernel
  os : List String → String → Fs.FlagAnswer
  uuid : String

/-- The command `Container`, up to the report. -/
def ContainerSystem.containerReport {π ι : Type} [DecidableEq ι] (S : ContainerSystem π ι) :
    Session Process CollectError Config := do
  if S.euid ≠ 0 then
    .lift (.panic s!"assertion `left == right` failed\n  left: {S.euid}\n right: 0")
  let utsConfig ← collect (Uts.utsConfig S.hostname S.domainname)
  let deviceConf ← collect (deviceConfig S.env S.devTree S.nodes S.mknod)
  let seccompConfig ← collect (Seccomp.seccompConfig S.status S.mount)
  let containerNamespaces ← Fs.fsConfigContainer S.mounts S.os S.uuid
  pure
    { nsConfig := none
      capsConfig := none
      cgroupConfig := none
      fsConfig := some
        { containerNamespaces, refContainerNamespaces := [], hostNamespaces := [] }
      userNsConfig := none
      seccompConfig := some seccompConfig.toConfig
      utsConfigHost := none
      utsConfigContainer := some utsConfig
      chrootConfig := none
      deviceConfig := some deviceConf
      info := none }

/-! ## The evaluation -/

/-- `Option::expect`. -/
def expect {ε α : Type} (msg : String) : Option α → Outcome ε α
  | none => .panic msg
  | some a => .ok a

/-- The combination of the parts from the container and from the host. -/
def combine (container host : Config) : Result Config := do
  let fsContainer ← expect "host part does not contain ns_config" container.fsConfig
  let fsHost ← expect "host part does not contain ns_config" host.fsConfig
  let nsConfig ← expect "host part does not contain ns_config" host.nsConfig
  let capsConfig ← expect "host part does not contain caps_config" host.capsConfig
  let cgroupConfig ← expect "host part does not contain cgroup_config" host.cgroupConfig
  let userNsConfig ← expect "host part does not contain user_ns_config" host.userNsConfig
  let seccompConfig ←
    expect "container part does not contain seccomp_config" container.seccompConfig
  let utsConfigHost ← expect "host part does not contain uts_config" host.utsConfigHost
  let utsConfigContainer ←
    expect "container part does not contain uts_config" container.utsConfigContainer
  let chrootConfig ← expect "host part does not contain fs_root_config" host.chrootConfig
  let deviceConfig ←
    expect "container part does not contain device_config" container.deviceConfig
  let info ← expect "host part does not contain field info" host.info
  pure
    { nsConfig := some nsConfig
      capsConfig := some capsConfig
      cgroupConfig := some cgroupConfig
      fsConfig := some { fsHost with containerNamespaces := fsContainer.containerNamespaces }
      userNsConfig := some userNsConfig
      seccompConfig := some seccompConfig
      utsConfigHost := some utsConfigHost
      utsConfigContainer := some utsConfigContainer
      chrootConfig := some chrootConfig
      deviceConfig := some deviceConfig
      info := some info }

/-- The command `Evaluation`, from the parts to the report. -/
def evaluate (env : Env) (container host : Config) (containerRootHost : PathBuf) :
    Result EvalResult := do
  let config ← combine container host
  EvalResult.fromConfig env config containerRootHost

/-! ## Parts of a configuration -/

/-- What a run in the container reports. -/
structure ContainerPart where
  fs : Fs.Config
  seccomp : Seccomp.Config
  uts : Uts.Config
  device : Device.Config

/-- What a run on the host reports. -/
structure HostPart where
  ns : Ns.Config
  caps : Caps.Config
  cgroup : Cgroup.Config
  fs : Fs.Config
  userNs : UserNs.Config
  uts : Uts.Config
  hostRoot : Chroot.Root
  containerRoot : Chroot.Root
  info : HostInfo

/-- The report of the part. -/
def ContainerPart.report (c : ContainerPart) : Config where
  nsConfig := none
  capsConfig := none
  cgroupConfig := none
  fsConfig := some c.fs
  userNsConfig := none
  seccompConfig := some c.seccomp
  utsConfigHost := none
  utsConfigContainer := some c.uts
  chrootConfig := none
  deviceConfig := some c.device
  info := none

/-- The report of the part. -/
def HostPart.report (h : HostPart) : Config where
  nsConfig := some h.ns
  capsConfig := some h.caps
  cgroupConfig := some h.cgroup
  fsConfig := some h.fs
  userNsConfig := some h.userNs
  seccompConfig := none
  utsConfigHost := some h.uts
  utsConfigContainer := none
  chrootConfig := some { host := some h.hostRoot, container := some h.containerRoot }
  deviceConfig := none
  info := some h.info

/-- Both parts together. -/
def HostPart.combined (h : HostPart) (c : ContainerPart) : Collected where
  ns := h.ns
  caps := h.caps
  cgroup := h.cgroup
  fs := { h.fs with containerNamespaces := c.fs.containerNamespaces }
  userNs := h.userNs
  seccomp := c.seccomp
  utsHost := h.uts
  utsContainer := c.uts
  hostRoot := h.hostRoot
  containerRoot := h.containerRoot
  device := c.device
  info := h.info

theorem evaluate_report (env : Env) (h : HostPart) (c : ContainerPart) (root : PathBuf) :
    evaluate env c.report h.report root =
      EvalResult.fromConfig env (h.combined c).toConfig root := rfl

/-- Where a combined configuration is from. -/
structure Combined (container host config : Config) : Prop where
  nsConfig : config.nsConfig = host.nsConfig
  capsConfig : config.capsConfig = host.capsConfig
  cgroupConfig : config.cgroupConfig = host.cgroupConfig
  userNsConfig : config.userNsConfig = host.userNsConfig
  utsConfigHost : config.utsConfigHost = host.utsConfigHost
  chrootConfig : config.chrootConfig = host.chrootConfig
  info : config.info = host.info
  seccompConfig : config.seccompConfig = container.seccompConfig
  utsConfigContainer : config.utsConfigContainer = container.utsConfigContainer
  deviceConfig : config.deviceConfig = container.deviceConfig
  fsConfig : ∃ fsContainer fsHost, container.fsConfig = some fsContainer ∧
    host.fsConfig = some fsHost ∧ config.fsConfig =
      some { fsHost with containerNamespaces := fsContainer.containerNamespaces }

theorem expect_eq_ok {ε α : Type} {msg : String} {o : Option α} {a : α} :
    (expect msg o : Outcome ε α) = .ok a ↔ o = some a := by
  cases o <;> simp [expect]

theorem combined_of_combine {container host config : Config}
    (h : combine container host = .ok config) : Combined container host config := by
  simp only [combine, bind_eq_ok, expect_eq_ok, pure_eq_ok] at h
  obtain ⟨fsContainer, hfc, fsHost, hfh, ns, hns, caps, hcaps, cgroup, hcgroup, userNs, huserNs,
    seccomp, hseccomp, utsHost, hutsHost, uts, huts, chroot, hchroot, device, hdevice, info, hinfo,
    rfl⟩ := h
  exact ⟨hns.symm, hcaps.symm, hcgroup.symm, huserNs.symm, hutsHost.symm, hchroot.symm, hinfo.symm,
    hseccomp.symm, huts.symm, hdevice.symm, fsContainer, fsHost, hfc, hfh, rfl⟩

theorem HostPart.exists_combined {p : HostPart} {container config : Config}
    (h : combine container p.report = .ok config) : ∃ c, config = (p.combined c).toConfig := by
  simp only [combine, bind_eq_ok, expect_eq_ok, pure_eq_ok, report, Option.some.injEq,
    exists_eq_left'] at h
  obtain ⟨fs, -, seccomp, -, uts, -, device, -, rfl⟩ := h
  exact ⟨⟨fs, seccomp, uts, device⟩, rfl⟩

theorem evaluate_eq_ok {env : Env} {container host : Config} {root : PathBuf} {e : EvalResult} :
    evaluate env container host root = .ok e ↔ ∃ config, combine container host = .ok config ∧
      EvalResult.fromConfig env config root = .ok e := bind_eq_ok

/-! ## Reports of runs -/

open Session (Agrees Follows Yields agrees_bind agrees_lift agrees_pure yields_lift yields_pure)

theorem collectOutcome_eq_ok {α : Type} {x : Result α} {a : α} :
    collectOutcome x = .ok a ↔ x = .ok a := by
  cases x <;> simp [collectOutcome]

theorem yields_collect {α : Type} {I J : Process → Prop} (x : Result α) :
    Yields I J (collect x) fun a => x = .ok a := yields_lift fun _ => collectOutcome_eq_ok.mp

/-- A call that may leave descriptors open keeps what is about the rest of the process. -/
theorem yields_collectOpen {α : Type} {N : Descriptors.Table → Descriptors.Table → Prop}
    {m : Session Descriptors.Table Error α} {x : Result α} {I J : Process → Prop}
    (h : Follows N m x) (hI : ∀ s t, I s → I { s with table := t })
    (hJ : ∀ s t, N s.table t → J s → J { s with table := t }) :
    Yields I J (collectOpen m) fun a => x = .ok a := by
  rintro s ⟨hIs, hJs⟩
  obtain ⟨hx, ht⟩ := h s.table
  have hIs' := hI s (m.run s.table).2 hIs
  simp only [collectOpen, hx]
  cases x with
  | ok a => exact ⟨rfl, hIs', hJ s _ (ht trivial) hJs⟩
  | err e | panic msg | outOfFuel => exact hIs'

theorem Chroot.chrootConfig_eq_ok {answers : RootAnswers} {pidHost pidContainer : PidT}
    {c : Chroot.Config} : Chroot.chrootConfig answers pidHost pidContainer = .ok c ↔
      ∃ hostRoot, Root.fromPid answers pidHost = .ok hostRoot ∧
        ∃ containerRoot, Root.fromPid answers pidContainer = .ok containerRoot ∧
          { host := some hostRoot, container := some containerRoot } = c := by
  simp only [Chroot.chrootConfig, bind_eq_ok, pure_eq_ok]

/-- What the part has of a run on the host, in which each listing has this property and each
collection that one. -/
structure HostSystem.Reports (S : HostSystem) (args : HostArgs)
    (L : ℕ → PidT → List PidT → Prop)
    (V : ℕ → List PidT → Bool → List MountNamespace → Prop) (h : HostPart) : Prop where
  ns : Ns.nsConfig S.env S.kernel S.procDir S.fuel args.pidHost args.pidContainer = .ok h.ns
  caps : Caps.capsConfig S.env (S.status args.pidContainer) = .ok h.caps
  cgroup : Cgroup.cgroupConfig S.env S.cgroup S.fuel args.pidContainer = .ok h.cgroup
  hostRoot : Chroot.Root.fromPid S.roots args.pidHost = .ok h.hostRoot
  containerRoot : Chroot.Root.fromPid S.roots args.pidContainer = .ok h.containerRoot
  userNs : UserNs.userNsConfig S.overflowChecks S.kernel S.idMaps S.procDir args.pidContainer =
    .ok h.userNs
  containers : ∃ test ref, L 0 args.pidContainer test ∧ L 1 args.pidRefContainer ref ∧
    V 0 test true h.fs.containerNamespaces ∧ V 1 ref true h.fs.refContainerNamespaces
  others : ∃ test ref, L 2 args.pidContainer test ∧ L 3 args.pidRefContainer ref ∧
    V 2 (test ++ ref) false h.fs.hostNamespaces

/-- A run on the host reports the parts of the host, and no others. -/
theorem HostSystem.yields_hostReport (S : HostSystem) (args : HostArgs) {I J : Process → Prop}
    {L : ℕ → PidT → List PidT → Prop} {V : ℕ → List PidT → Bool → List MountNamespace → Prop}
    (hI : ∀ s t, I s → I { s with table := t })
    (hJ : ∀ s t, Descriptors.Kept S.kernel s.table t → J s → J { s with table := t })
    (hL : ∀ i pid, Yields I J (S.containerPids i pid) fun r => ∀ l, r = .ok l → L i pid l)
    (hV : ∀ i l mode, Yields I J (Fs.fsConfigHostview (S.mounts i) l mode) (V i l mode)) :
    Yields I J (S.hostReport args) fun config =>
      ∃ h : HostPart, config = h.report ∧ S.Reports args L V h := by
  refine (yields_collectOpen (Descriptors.follows_nsConfig _ _ _ _ _) hI hJ).bind
    fun nsConfig hns => ?_
  refine (yields_collect _).bind fun capsConfig hcaps => ?_
  refine (yields_collect _).bind fun cgroupConfig hcgroup => ?_
  refine (yields_collect _).bind fun utsConfig huts => ?_
  refine (yields_collectOpen (Descriptors.follows_userNsConfig _ _ _ _) hI hJ).bind
    fun userNsConfig huserNs => ?_
  refine (yields_collect _).bind fun fsRootConfig hroot => ?_
  refine (hL 0 _).bind fun r₀ h₀ => (yields_collect _).bind fun test htest => ?_
  refine (hL 1 _).bind fun r₁ h₁ => (yields_collect _).bind fun ref href => ?_
  rw [unwrapOk_eq_ok] at htest href
  refine (hV 0 test true).bind fun testNs hv₀ => (hV 1 ref true).bind fun refNs hv₁ => ?_
  refine (hL 2 _).bind fun r₂ h₂ => (yields_collect _).bind fun test' htest' => ?_
  refine (hL 3 _).bind fun r₃ h₃ => (yields_collect _).bind fun ref' href' => ?_
  refine (hV 2 (test' ++ ref') false).bind fun hostNs hv₂ => ?_
  refine (hL 4 _).bind fun r₄ _ => (yields_collect _).bind fun pidsContainer _ => ?_
  refine (hL 5 _).bind fun r₅ _ => (yields_collect _).bind fun pidsRefContainer _ => ?_
  obtain ⟨hostRoot, hhost, containerRoot, hcontainer, rfl⟩ := Chroot.chrootConfig_eq_ok.mp hroot
  refine yields_pure ⟨⟨nsConfig, capsConfig, cgroupConfig, ⟨testNs, refNs, hostNs⟩, userNsConfig,
    utsConfig, hostRoot, containerRoot, ⟨pidsContainer, pidsRefContainer, args.pidHost⟩⟩, rfl, ?_⟩
  exact ⟨hns, hcaps, hcgroup, hhost, hcontainer, huserNs,
    ⟨test, ref, h₀ _ htest, h₁ _ href, hv₀, hv₁⟩, test', ref', h₂ _ htest', h₃ _ href', hv₂⟩

/-- The host reported the same for both configurations, up to the order in lists. -/
structure Collected.UpToOrder (k k' : Collected) : Prop where
  active : ∀ t, k'.ns.Active t ↔ k.ns.Active t
  ownUserNs : k'.ns.OwnUserNs ↔ k.ns.OwnUserNs
  capPrm : ∀ n, n ∈ k'.caps.capPrm ↔ n ∈ k.caps.capPrm
  interfaceFiles : k'.cgroup.interfaceFiles = k.cgroup.interfaceFiles
  refContainerNamespaces : k'.fs.refContainerNamespaces = k.fs.refContainerNamespaces
  hostNamespaces : k'.fs.hostNamespaces = k.fs.hostNamespaces
  userNs : k'.userNs = k.userNs
  hostRoot : k'.hostRoot = k.hostRoot
  containerRoot : k'.containerRoot = k.containerRoot

theorem agrees_collect {α : Type} (x y : Result α) :
    Agrees (collect x) (collect y) fun a b => x = .ok a ∧ y = .ok b :=
  agrees_lift fun _ _ ha hb => ⟨collectOutcome_eq_ok.mp ha, collectOutcome_eq_ok.mp hb⟩

/-- Calls that leave the same descriptors open leave the same process. -/
theorem agrees_collectOpen {α : Type} {N N' : Descriptors.Table → Descriptors.Table → Prop}
    {m m' : Session Descriptors.Table Error α} {x y : Result α}
    (h : Agrees m m' fun _ _ => True) (hm : Follows N m x) (hm' : Follows N' m' y) :
    Agrees (collectOpen m) (collectOpen m') fun a b => x = .ok a ∧ y = .ok b := by
  intro s a b t u ha hb
  obtain ⟨hx, rfl⟩ := Prod.mk.inj ha
  obtain ⟨hy, rfl⟩ := Prod.mk.inj hb
  rw [collectOutcome_eq_ok] at hx hy
  obtain ⟨-, htable⟩ := h s.table a b _ _ (Prod.ext hx rfl) (Prod.ext hy rfl)
  exact ⟨⟨(hm s.table).1.symm.trans hx, (hm' s.table).1.symm.trans hy⟩,
    congrArg (fun t => { s with table := t }) htable⟩

/-- Two runs on the host that get the same answers report the same, in whatever orders they traverse
sets. -/
theorem HostSystem.agrees_hostReport (S : HostSystem) (args : HostArgs) (env : Env) :
    Agrees (S.hostReport args) ({ S with env := env }.hostReport args) fun host host' =>
      ∃ p p' : HostPart, host = p.report ∧ host' = p'.report ∧
        ∀ c c', (p.combined c).UpToOrder (p'.combined c') := by
  refine (agrees_collectOpen (Descriptors.agrees_nsConfig _ _ _ _ _ _)
    (Descriptors.follows_nsConfig _ _ _ _ _) (Descriptors.follows_nsConfig _ _ _ _ _)).bind
    fun ns ns' ⟨hns, hns'⟩ => ?_
  refine (agrees_collect _ _).bind fun caps caps' ⟨hcaps, hcaps'⟩ => ?_
  refine (agrees_collect _ _).bind fun cgroup cgroup' ⟨hcgroup, hcgroup'⟩ => ?_
  refine agrees_bind fun uts => agrees_bind fun userNs => ?_
  refine (agrees_collect _ _).bind fun root root' ⟨hroot, hroot'⟩ => ?_
  obtain rfl := Outcome.ok_unique hroot hroot'
  obtain ⟨hostRoot, -, containerRoot, -, rfl⟩ := Chroot.chrootConfig_eq_ok.mp hroot
  refine agrees_bind fun r₀ => agrees_bind fun test => ?_
  refine agrees_bind fun r₁ => agrees_bind fun ref => ?_
  refine agrees_bind fun testNs => agrees_bind fun refNs => ?_
  refine agrees_bind fun r₂ => agrees_bind fun test' => ?_
  refine agrees_bind fun r₃ => agrees_bind fun ref' => agrees_bind fun hostNs => ?_
  refine agrees_bind fun r₄ => agrees_bind fun pidsContainer => ?_
  refine agrees_bind fun r₅ => agrees_bind fun pidsRefContainer => ?_
  refine agrees_pure ⟨⟨ns, caps, cgroup, ⟨testNs, refNs, hostNs⟩, userNs, uts, hostRoot,
    containerRoot, ⟨pidsContainer, pidsRefContainer, args.pidHost⟩⟩, ⟨ns', caps', cgroup',
    ⟨testNs, refNs, hostNs⟩, userNs, uts, hostRoot, containerRoot,
    ⟨pidsContainer, pidsRefContainer, args.pidHost⟩⟩, rfl, rfl, fun c c' => ?_⟩
  obtain ⟨hown, hactive⟩ := Ns.nsConfig_active_iff hns hns'
  obtain ⟨_, _, hcpu, hmemory, hfiles⟩ := Cgroup.interfaceFiles_of_cgroupConfig hcgroup
  obtain ⟨_, _, hcpu', hmemory', hfiles'⟩ := Cgroup.interfaceFiles_of_cgroupConfig hcgroup'
  obtain rfl := Outcome.ok_unique hcpu hcpu'
  obtain rfl := Outcome.ok_unique hmemory hmemory'
  exact ⟨hactive, hown, fun _ => Caps.capsConfig_mem_capPrm hcaps hcaps', hfiles'.trans hfiles.symm,
    rfl, rfl, rfl, rfl, rfl⟩

/-- What the part has of a run in the container. -/
structure ContainerSystem.Reports {π ι : Type} [DecidableEq ι] (S : ContainerSystem π ι)
    (c : ContainerPart) : Prop where
  device : deviceConfig S.env S.devTree S.nodes S.mknod = .ok c.device
  seccomp : ∃ m, Seccomp.seccompConfig S.status S.mount = .ok m ∧ c.seccomp = m.toConfig
  mounts : ∃ ns tried, Fs.processMountpointsContainer (S.mounts.procDir ns) (S.mounts.answers ns)
    S.os S.uuid = .ok (tried, c.fs.containerNamespaces)

/-- A run in the container reports the parts of the container, and no others. -/
theorem ContainerSystem.yields_containerReport {π ι : Type} [DecidableEq ι]
    (S : ContainerSystem π ι) : Yields (fun _ => True) (fun _ => True) S.containerReport
      fun config => ∃ c : ContainerPart, config = c.report ∧ S.Reports c := by
  unfold containerReport
  split_ifs
  · exact Yields.bind (V := fun _ => False) (yields_lift nofun) fun _ hf => hf.elim
  refine (yields_collect _).bind fun utsConfig huts => ?_
  refine (yields_collect _).bind fun deviceConf hdevice => ?_
  refine (yields_collect _).bind fun seccompConfig hseccomp => ?_
  refine (Fs.yields_fsConfigContainer _ _).bind fun containerNamespaces hmounts => ?_
  exact yields_pure ⟨⟨⟨containerNamespaces, [], []⟩, seccompConfig.toConfig, utsConfig, deviceConf⟩,
    rfl, hdevice, ⟨seccompConfig, hseccomp, rfl⟩, hmounts⟩

end Checkc
