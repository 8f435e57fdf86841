import Checkc.CConfig.Config
import Checkc.Rust.Path

/-! # The configured lists

Device whitelists, the locations where flag files are allowed, the file systems that
are not searched for flag files and the required controllers.
-/

namespace Checkc

open Device

/-- `FLAG_LOCATION_ALLOW`. -/
def flagLocationAllow : List PathBuf := []

/-- `MOUNTPOINT_FS_SKIPS`. -/
def mountpointFsSkips : List String :=
  ["proc", "sysfs", "devtmpfs", "devpts", "securityfs", "cgroup", "cgroup2", "pstore", "efivarfs",
   "bpf", "autofs", "mqueue", "hugetlbfs", "debugfs", "tracefs", "fusectl", "configfs",
   "binfmt_misc"]

/-- `MOUNTPOINT_PATH_SKIPS`. -/
def mountpointPathSkips : List String := []

/-- `CGROUPS_CONTROLLERS_REQUIRED`. -/
def cgroupsControllersRequired : List Int := []

/-- `DEV_MAJOR_WHITELIST`: the Unix98 PTY slaves. -/
def devMajorWhitelist : HashSet (DeviceType × UInt32) :=
  HashSet.ofList ((List.range' 136 8).map fun i => (.char, UInt32.ofNat i))

/-- A whitelist entry for a character device. -/
def charDevice (file : String) (major minor : UInt32) : Device.Id × Device :=
  let id : Device.Id := { type := ProtoEnum.toI32 DeviceType.char, major, minor }
  (id, { file, id := some id, permissions := 0, user := 0, group := 0,
         readAccess := true, writeAccess := true })

/-- `DEV_WHITELIST_GENERAL`. -/
def devWhitelistGeneral : HashMap Device.Id Device :=
  HashMap.ofList
    [charDevice "/dev/null" 1 3, charDevice "/dev/zero" 1 5, charDevice "/dev/full" 1 7,
     charDevice "/dev/random" 1 8, charDevice "/dev/urandom" 1 9, charDevice "ptmx" 5 2,
     charDevice "/dev/tty" 5 0, charDevice "/dev/tty0" 4 0, charDevice "/dev/tty1" 4 1,
     charDevice "/dev/net/tun" 10 200, charDevice "/dev/hwrng" 10 183, charDevice "" 0 0]

/-- `DEV_WHITELIST_UNPRIVILEGED`. -/
def devWhitelistUnprivileged : HashMap Device.Id Device :=
  HashMap.ofList [charDevice "/dev/fuse" 10 229]

theorem mem_devMajorWhitelist {t : DeviceType} {major : UInt32} :
    (t, major) ∈ devMajorWhitelist ↔ t = .char ∧ 136 ≤ major.toNat ∧ major.toNat ≤ 143 := by
  simp only [devMajorWhitelist, HashSet.mem_ofList, List.mem_map, List.mem_range'_1,
    Prod.mk.injEq]
  constructor
  · rintro ⟨i, hi, rfl, rfl⟩
    rw [UInt32.toNat_ofNat_of_lt' (by simp only [UInt32.size]; omega)]
    exact ⟨rfl, by omega⟩
  · rintro ⟨rfl, h₁, h₂⟩
    exact ⟨major.toNat, by omega, rfl, UInt32.ofNat_toNat⟩

/-- Every entry of the two maps is a character device. -/
theorem type_of_mem_whitelist {id : Device.Id} (h : (devWhitelistGeneral.get id).isSome = true ∨
    (devWhitelistUnprivileged.get id).isSome = true) :
    id.type = ProtoEnum.toI32 DeviceType.char := by
  simp only [devWhitelistGeneral, devWhitelistUnprivileged, HashMap.get_ofList, Option.isSome_map,
    List.find?_isSome, List.mem_reverse, decide_eq_true_eq] at h
  rcases h with ⟨e, he, rfl⟩ | ⟨e, he, rfl⟩
  · simp only [List.mem_cons, List.not_mem_nil, or_false] at he
    rcases he with rfl | rfl | rfl | rfl | rfl | rfl | rfl | rfl | rfl | rfl | rfl | rfl <;> rfl
  · obtain rfl := List.mem_singleton.mp he
    rfl

end Checkc
