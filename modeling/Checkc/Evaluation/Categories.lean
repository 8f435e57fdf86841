import Checkc.Evaluation.Devices
import Checkc.Evaluation.Flags

/-! # The categories of the evaluation

Each category lists the capabilities and namespaces that belong to it, reports which
of them the container has, and runs its tests.
-/

namespace Checkc

open Outcome Capability

/-- What a category is about: its capabilities, and its namespaces if it has any. -/
structure CategorySpec where
  label : String
  caps : HashSet Capability
  namespaces : Option (HashSet NsType)
  description : String

namespace CategorySpec

def network : CategorySpec where
  label := "network"
  caps := HashSet.ofList [capNetAdmin, capNetBindService, capNetRaw]
  namespaces := some (HashSet.ofList [.network, .uts])
  description := "Network namespace and UTS namespace status, networking-related capabilities"

def filesystem : CategorySpec where
  label := "filesystem"
  caps := HashSet.ofList [capSysChroot, capLinuxImmutable, capLease]
  namespaces := some (HashSet.ofList [.mount])
  description := "Container filesystem isolation (Mount namespace, Chroot), filesystem-related " ++
    "capabilities, filesystem configuration"

def devices : CategorySpec where
  label := "devices"
  caps := HashSet.ofList [capMknod, capSysRawio, capSysTtyConfig]
  namespaces := none
  description := "Capabilities related to device handling, device whitelist compliance"

def resourceControl : CategorySpec where
  label := "resource_control"
  caps := HashSet.ofList [capSysNice, capSysResource]
  namespaces := some (HashSet.ofList [.cgroup])
  description := "Cgroup namespace, Cgroup status, capabilities related to resource managment, " ++
    "tests on Cgroup limits"

def processControl : CategorySpec where
  label := "process_control"
  caps := HashSet.ofList [capSysPtrace, capSysPacct, capCheckpointRestore, capKill, capSysBoot]
  namespaces := some (HashSet.ofList [.pid, .ipc])
  description := "PID namespace and IPC namespace state, capabilities related to process " ++
    "handling/management"

def accessControl : CategorySpec where
  label := "access_control"
  caps := HashSet.ofList
    [capChown, capDacOverride, capDacReadSearch, capFowner, capFsetid, capSetuid, capSetgid,
     capSetpcap, capSetfcap, capIpcOwner, capMacOverride, capMacAdmin]
  namespaces := some (HashSet.ofList [.user])
  description := "User namespace status, capabilities related to access control management, " ++
    "tests on User namespace mapping"

def time : CategorySpec where
  label := "time"
  caps := HashSet.ofList [capSysTime]
  namespaces := some (HashSet.ofList [.time])
  description := "Time namespace status, capabilities related to system clock interaction"

def global : CategorySpec where
  label := "global"
  caps := HashSet.ofList
    [capSysAdmin, capAuditControl, capAuditRead, capAuditWrite, capSysModule, capSyslog,
     capWakeAlarm, capPerfmon, capBpf, capNetBroadcast, capIpcLock, capBlockSuspend]
  namespaces := none
  description := "Default category for capabilities and tests not matching other categories"

/-- The eight categories in the order in which they are evaluated. -/
def all : List CategorySpec :=
  [network, filesystem, devices, resourceControl, processControl, accessControl, time, global]

/-- The namespaces of the category that the container has and those that it should have. -/
def isolated (spec : CategorySpec) (env : Env) (nsSet namespaces : HashSet NsType) :
    Namespaces where
  active := ((namespaces.inter nsSet).iter env.σ (spec.label ++ ".active")).map ProtoEnum.toI32
  desired := (namespaces.iter env.σ (spec.label ++ ".desired")).map ProtoEnum.toI32

/-- The report of a category, given its tests and its further isolation mechanisms. -/
def category (spec : CategorySpec) (env : Env) (nsSet : HashSet NsType)
    (capabilities : HashSet Capability) (chroot : Option Chroot) (cgroup : Option Bool)
    (tests : HashMap String TestResult) : Category where
  isolation := spec.namespaces.map fun namespaces =>
    { namespaces := some (spec.isolated env nsSet namespaces), chroot, cgroup }
  capabilities :=
    ((spec.caps.inter capabilities).iter env.σ (spec.label ++ ".capabilities")).map ProtoEnum.toI32
  tests := tests
  description := spec.description

end CategorySpec

/-- A valid test without further information. -/
def TestResult.plain (passed : Bool) : TestResult := { passed, valid := true, info := [""] }

/-- A valid test that passes when its report is empty. -/
def TestResult.ofLines (lines : List String) : TestResult :=
  { passed := lines.isEmpty, valid := true, info := lines }

variable (env : Env) (config : Config) (nsSet : HashSet NsType) (capabilities : HashSet Capability)

/-! ## The tests of each category -/

def networkTests (host container : Uts.Config) : HashMap String TestResult :=
  HashMap.ofList
    [("container_specific_hostname",
       { passed := host.hostname ≠ container.hostname, valid := true, info := [] }),
     ("container_specific_domainname",
       { passed := host.domainname ≠ container.domainname, valid := true, info := [] })]

/-- The chroot state of the container's root directory. -/
def chrootState (hostRoot containerRoot : Chroot.Root) : Chroot :=
  let chroot := hostRoot.stDev ≠ containerRoot.stDev ∨ hostRoot.stIno ≠ containerRoot.stIno
  { chroot, pivotRoot := chroot ∧ containerRoot.path = "/" }

def filesystemTests (flagMatchesHost flagMatchesRefContainer : List String) :
    HashMap String TestResult :=
  HashMap.ofList
    [("flag_matches_host", .ofLines flagMatchesHost),
     ("flag_matches_refcontainer", .ofLines flagMatchesRefContainer)]

def devicesTests (dev mknod : TestResult) : HashMap String TestResult :=
  HashMap.ofList [("dev_whitelist_compliance", dev), ("mknod_whitelist_compliance", mknod)]

/-- The test whether an interface file of the cgroup sets a limit. -/
def limitTest (interfaceFiles : HashMap String String) (file : String) : TestResult :=
  match interfaceFiles.get file with
  | some limit =>
    { passed := !containsStr limit.toList "max".toList, valid := true, info := [limit] }
  | none => { passed := false, valid := true, info := [s!"{file} not available"] }

theorem limitTest_valid (interfaceFiles : HashMap String String) (file : String) :
    (limitTest interfaceFiles file).valid = true := by
  unfold limitTest; split <;> rfl

theorem limitTest_passed {files : HashMap String String} {file : String} :
    (limitTest files file).passed = true ↔
      ∃ limit ∈ files.get file, ¬ "max".toList <:+: limit.toList := by
  unfold limitTest
  cases files.get file <;> simp [← containsStr_iff]

/-- The test whether all required controllers are active. -/
def controllersTest (controllers : List Int) : TestResult :=
  let missing := cgroupsControllersRequired.filter (· ∉ controllers)
  { passed := missing.isEmpty, valid := true, info := [] }

def resourceControlTests (cgroup : Cgroup.Config) : HashMap String TestResult :=
  HashMap.ofList
    [("cpu_max_limited", limitTest cgroup.interfaceFiles "cpu.max"),
     ("memory_max_limited", limitTest cgroup.interfaceFiles "memory.max"),
     ("", controllersTest cgroup.controllers)]

def accessControlTests (userNs : UserNs.Config) (seccomp : Seccomp.Config) :
    HashMap String TestResult :=
  let uidMapsToRoot := userNs.uidMap.find? (·.parent = 0)
  let seccompMode := seccomp.getMode
  HashMap.ofList
    [("user_ns_maps_to_non_root_user", .plain uidMapsToRoot.isNone),
     ("user_ns_mapping_unique", .plain userNs.uniqueMapping),
     ("seccomp_enabled", .plain (seccompMode = .filter ∨ seccompMode = .strict))]

/-! ## The categories -/

/-- `category_network`. -/
def categoryNetwork : Result Category := do
  let host ← unwrap config.utsConfigHost
  let container ← unwrap config.utsConfigContainer
  pure (CategorySpec.network.category env nsSet capabilities none none
    (networkTests host container))

/-- `category_filesystem`. -/
def categoryFilesystem (containerRootHost : PathBuf) : Result Category := do
  let chrootConfig ← unwrap config.chrootConfig
  let hostRoot ← unwrap chrootConfig.host
  let containerRoot ← unwrap chrootConfig.container
  let fsConfig ← unwrap config.fsConfig
  let flagMatchesHost ←
    doCheckFlagsHost env flagLocationAllow fsConfig.hostNamespaces containerRootHost
  let flagMatchesRefContainer ← doCheckFlagsRefcontainer env fsConfig.refContainerNamespaces
  pure (CategorySpec.filesystem.category env nsSet capabilities
    (some (chrootState hostRoot containerRoot)) none
    (filesystemTests flagMatchesHost flagMatchesRefContainer))

/-- `category_devices`. -/
def categoryDevices : Result Category := do
  let deviceConfig ← unwrap config.deviceConfig
  let dev ← devWhitelistCompliance deviceConfig.devDevices (.user ∈ nsSet)
  let mknod ← devWhitelistCompliance deviceConfig.mknodDevices (.user ∈ nsSet)
  pure (CategorySpec.devices.category env nsSet capabilities none none (devicesTests dev mknod))

/-- `category_resource_control`. -/
def categoryResourceControl : Result Category := do
  let cgroup ← unwrap config.cgroupConfig
  pure (CategorySpec.resourceControl.category env nsSet capabilities none
    (some !cgroup.controllers.isEmpty) (resourceControlTests cgroup))

/-- `category_process_control`. -/
def categoryProcessControl : Result Category :=
  pure (CategorySpec.processControl.category env nsSet capabilities none none ∅)

/-- `category_access_control`. -/
def categoryAccessControl : Result Category := do
  let userNs ← unwrap config.userNsConfig
  let seccomp ← unwrap config.seccompConfig
  pure (CategorySpec.accessControl.category env nsSet capabilities none none
    (accessControlTests userNs seccomp))

/-- `category_time`. -/
def categoryTime : Result Category :=
  pure (CategorySpec.time.category env nsSet capabilities none none ∅)

/-- `category_global`. -/
def categoryGlobal : Result Category :=
  pure (CategorySpec.global.category env nsSet capabilities none none ∅)

/-! ## When a category is reported -/

section

variable {env : Env} {config : Config} {nsSet : HashSet NsType} {capabilities : HashSet Capability}
  {root : PathBuf} {c : Category}

theorem categoryNetwork_eq_ok : categoryNetwork env config nsSet capabilities = .ok c ↔
    ∃ host container, config.utsConfigHost = some host ∧
      config.utsConfigContainer = some container ∧
      c = CategorySpec.network.category env nsSet capabilities none none
        (networkTests host container) := by
  simp only [categoryNetwork, bind_eq_ok, unwrap_eq_ok, pure_eq_ok]
  constructor
  · rintro ⟨host, hh, container, hc, rfl⟩
    exact ⟨host, container, hh, hc, rfl⟩
  · rintro ⟨host, container, hh, hc, rfl⟩
    exact ⟨host, hh, container, hc, rfl⟩

theorem categoryFilesystem_eq_ok :
    categoryFilesystem env config nsSet capabilities root = .ok c ↔
      ∃ hostRoot containerRoot fs flagsHost flagsRefcontainer,
        config.chrootConfig = some ⟨some hostRoot, some containerRoot⟩ ∧
        config.fsConfig = some fs ∧
        doCheckFlagsHost env flagLocationAllow fs.hostNamespaces root = .ok flagsHost ∧
        doCheckFlagsRefcontainer env fs.refContainerNamespaces = .ok flagsRefcontainer ∧
        c = CategorySpec.filesystem.category env nsSet capabilities
          (some (chrootState hostRoot containerRoot)) none
          (filesystemTests flagsHost flagsRefcontainer) := by
  simp only [categoryFilesystem, bind_eq_ok, unwrap_eq_ok, pure_eq_ok]
  constructor
  · rintro ⟨⟨_, _⟩, hch, hostRoot, rfl, containerRoot, rfl, fs, hfs, host, hh, ref, hr, rfl⟩
    exact ⟨hostRoot, containerRoot, fs, host, ref, hch, hfs, hh, hr, rfl⟩
  · rintro ⟨hostRoot, containerRoot, fs, host, ref, hch, hfs, hh, hr, rfl⟩
    exact ⟨_, hch, hostRoot, rfl, containerRoot, rfl, fs, hfs, host, hh, ref, hr, rfl⟩

theorem categoryDevices_eq_ok : categoryDevices env config nsSet capabilities = .ok c ↔
    ∃ device, config.deviceConfig = some device ∧ (∀ dev ∈ device.devDevices, dev.Processable) ∧
      (∀ dev ∈ device.mknodDevices, dev.Processable) ∧
      c = CategorySpec.devices.category env nsSet capabilities none none
        (devicesTests (whitelistResult device.devDevices (.user ∈ nsSet))
          (whitelistResult device.mknodDevices (.user ∈ nsSet))) := by
  simp only [categoryDevices, bind_eq_ok, unwrap_eq_ok, pure_eq_ok, devWhitelistCompliance_eq_ok]
  constructor
  · rintro ⟨device, hd, _, ⟨hdev, rfl⟩, _, ⟨hmk, rfl⟩, rfl⟩
    exact ⟨device, hd, hdev, hmk, rfl⟩
  · rintro ⟨device, hd, hdev, hmk, rfl⟩
    exact ⟨device, hd, _, ⟨hdev, rfl⟩, _, ⟨hmk, rfl⟩, rfl⟩

theorem categoryResourceControl_eq_ok :
    categoryResourceControl env config nsSet capabilities = .ok c ↔
      ∃ cgroup, config.cgroupConfig = some cgroup ∧
        c = CategorySpec.resourceControl.category env nsSet capabilities none
          (some !cgroup.controllers.isEmpty) (resourceControlTests cgroup) := by
  simp only [categoryResourceControl, bind_eq_ok, unwrap_eq_ok, pure_eq_ok, eq_comm (a := c)]

theorem categoryAccessControl_eq_ok : categoryAccessControl env config nsSet capabilities = .ok c ↔
    ∃ userNs seccomp, config.userNsConfig = some userNs ∧ config.seccompConfig = some seccomp ∧
      c = CategorySpec.accessControl.category env nsSet capabilities none none
        (accessControlTests userNs seccomp) := by
  simp only [categoryAccessControl, bind_eq_ok, unwrap_eq_ok, pure_eq_ok]
  constructor
  · rintro ⟨userNs, hu, seccomp, hs, rfl⟩
    exact ⟨userNs, seccomp, hu, hs, rfl⟩
  · rintro ⟨userNs, seccomp, hu, hs, rfl⟩
    exact ⟨userNs, hu, seccomp, hs, rfl⟩

end

end Checkc
