import Checkc.CConfig.Caps
import Checkc.CConfig.Ns

/-! # The container configuration

The messages that the collectors fill and that the evaluation reads. A message
field is optional, so a configuration may lack any of its parts.
-/

namespace Checkc

/-! ## Devices -/

/-- `c_config.device.Type`. -/
inductive DeviceType where
  | block | char | socket | fifo
  deriving DecidableEq, Repr

namespace DeviceType

instance : ProtoEnum DeviceType where
  variants := [block, char, socket, fifo]
  toI32 | block => 0 | char => 1 | socket => 2 | fifo => 3
  mem_variants a := by cases a <;> decide
  nodup_codes := by decide

/-- The `Display` text. -/
def display : DeviceType → String
  | block => "block"
  | char => "char"
  | socket => "socket"
  | fifo => "fifo"

end DeviceType

namespace Device

/-- The type and the numbers of a device. -/
structure Id where
  type : Int
  major : UInt32
  minor : UInt32
  deriving DecidableEq, Repr

/-- The getter `r#type()`. -/
def Id.getType (i : Id) : DeviceType := ProtoEnum.getter .block i.type

end Device

structure Device where
  file : String
  id : Option Device.Id
  permissions : UInt32
  user : UInt32
  group : UInt32
  readAccess : Bool
  writeAccess : Bool
  deriving DecidableEq, Repr

/-- Devices found in the container and devices that could be created with `mknod`. -/
structure Device.Config where
  devDevices : List Device
  mknodDevices : List Device

/-! ## File systems -/

structure MountNamespace where
  nsId : Option Ns.Id
  nsPids : List PidT
  mounts : List String
  mountinfo : List String
  flagFiles : List String
  deriving DecidableEq, Repr

structure Fs.Config where
  containerNamespaces : List MountNamespace
  refContainerNamespaces : List MountNamespace
  hostNamespaces : List MountNamespace

structure Chroot.Root where
  path : String
  stIno : UInt64
  stDev : UInt64
  deriving DecidableEq, Repr

structure Chroot.Config where
  host : Option Chroot.Root
  container : Option Chroot.Root

/-! ## Resources, users, system calls and names -/

structure Cgroup.Config where
  cgroup : String
  controllers : List Int
  interfaceFiles : HashMap String String

structure IdMapping where
  current : UInt32
  parent : UInt32
  range : UInt32
  deriving DecidableEq, Repr

structure UserNs.Config where
  uidMap : List IdMapping
  gidMap : List IdMapping
  uniqueMapping : Bool

/-- `c_config.seccomp.Mode`. -/
inductive SeccompMode where
  | unspecified | disabled | strict | filter
  deriving DecidableEq, Repr

instance : ProtoEnum SeccompMode where
  variants := [.unspecified, .disabled, .strict, .filter]
  toI32 | .unspecified => 0 | .disabled => 1 | .strict => 2 | .filter => 3
  mem_variants a := by cases a <;> decide
  nodup_codes := by decide

structure Seccomp.Config where
  mode : Int

/-- The getter `mode()`. -/
def Seccomp.Config.getMode (c : Seccomp.Config) : SeccompMode :=
  ProtoEnum.getter .unspecified c.mode

structure Uts.Config where
  hostname : String
  domainname : String

structure HostInfo where
  pidsContainer : List PidT
  pidsRefContainer : List PidT
  pidHost : PidT

/-! ## The whole configuration -/

structure Config where
  nsConfig : Option Ns.Config
  capsConfig : Option Caps.Config
  cgroupConfig : Option Cgroup.Config
  fsConfig : Option Fs.Config
  userNsConfig : Option UserNs.Config
  seccompConfig : Option Seccomp.Config
  utsConfigHost : Option Uts.Config
  utsConfigContainer : Option Uts.Config
  chrootConfig : Option Chroot.Config
  deviceConfig : Option Device.Config
  info : Option HostInfo

/-- A configuration without missing parts. -/
structure Collected where
  ns : Ns.Config
  caps : Caps.Config
  cgroup : Cgroup.Config
  fs : Fs.Config
  userNs : UserNs.Config
  seccomp : Seccomp.Config
  utsHost : Uts.Config
  utsContainer : Uts.Config
  hostRoot : Chroot.Root
  containerRoot : Chroot.Root
  device : Device.Config
  info : HostInfo

/-- The message form of a configuration without missing parts. -/
def Collected.toConfig (k : Collected) : Config where
  nsConfig := some k.ns
  capsConfig := some k.caps
  cgroupConfig := some k.cgroup
  fsConfig := some k.fs
  userNsConfig := some k.userNs
  seccompConfig := some k.seccomp
  utsConfigHost := some k.utsHost
  utsConfigContainer := some k.utsContainer
  chrootConfig := some { host := some k.hostRoot, container := some k.containerRoot }
  deviceConfig := some k.device
  info := some k.info

theorem Collected.toConfig_injective : Function.Injective Collected.toConfig := by
  rintro ⟨⟩ ⟨⟩ h
  simp only [toConfig, Config.mk.injEq, Option.some.injEq, Chroot.Config.mk.injEq] at h
  simp_all

end Checkc
