import Checkc.Assessment.Message

/-! # The capability table

For each capability: the namespaces whose isolation makes it harmless, those that make
it a warning, and its criticality otherwise.
-/

namespace Checkc

/-- A record of the table. -/
structure CapabilityRecord where
  ok : HashSet NsType
  warn : HashSet NsType
  default : Criticality
  notes : String

/-- The entries of the table in the order of their insertion. -/
def capRecords : List (Capability × CapabilityRecord) :=
  [(.capAuditControl, ⟨.ofList [.user], ∅, .error,
     "Manage kernel auditing (activation, rules, etc.)"⟩),
   (.capAuditRead, ⟨.ofList [.user], ∅, .warn, "Allows reading audit log via netlink"⟩),
   (.capAuditWrite, ⟨.ofList [.user], ∅, .error, "Allows writing to audit log"⟩),
   (.capBlockSuspend, ⟨.ofList [.user], ∅, .warn, "Allows blocking system suspend"⟩),
   (.capBpf, ⟨.ofList [.user], ∅, .error, "Allows privileged BPF operations"⟩),
   (.capCheckpointRestore, ⟨.ofList [.user, .pid], ∅, .error,
     "Allows writing to /proc/sys/kernel/ns_last_pid, clonse set_tid-feature, read " ++
       "/proc/pid/map_files"⟩),
   (.capChown, ⟨.ofList [.user], ∅, .error, "Arbitrary changes to file uids / gids"⟩),
   (.capDacOverride, ⟨.ofList [.user], ∅, .warn, "Allows bypassing DAC"⟩),
   (.capDacReadSearch, ⟨.ofList [.user], ∅, .error,
     "Bypass permissions of files/directories, create link to file by fd, allows " ++
       "open_by_handle_at (https://www.exploit-db.com/exploits/33808)"⟩),
   (.capFowner, ⟨.ofList [.user], ∅, .error, "Bypass file owner permission checks"⟩),
   (.capFsetid, ⟨.ofList [.user], ∅, .error,
     "Functionality related to the set UID and set GID bits, e.g. not clearing them when " ++
       "modifying a file"⟩),
   (.capIpcLock, ⟨.ofList [.user], ∅, .error, "Lock memory, allocate memory via huge pages"⟩),
   (.capIpcOwner, ⟨.ofList [.user, .ipc], ∅, .error,
     "Bypass permission checks on System V IPC objects"⟩),
   (.capKill, ⟨.ofList [.user], .ofList [.pid], .error,
     "Bypass permission checks for sending signals"⟩),
   (.capLease, ⟨.ofList [.user], ∅, .error, "Leases on arbitrary files"⟩),
   (.capLinuxImmutable, ⟨.ofList [.user], ∅, .error,
     "Set FS_APPEND_FL and FS_IMMUTABLE_FL inode flags"⟩),
   (.capMacAdmin, ⟨.ofList [.user], ∅, .error, "Allow MAC configuration or state changes"⟩),
   (.capMacOverride, ⟨.ofList [.user], ∅, .error,
     "Smack LSM: Allow Mandatory Access Control override"⟩),
   (.capMknod, ⟨.ofList [.user], ∅, .info,
     "Use of  the mknod system call to create device nodes"⟩),
   (.capNetAdmin, ⟨.ofList [.user], ∅, .error, "Allows various network-related operations"⟩),
   (.capNetBindService, ⟨.ofList [.user], .ofList [.network], .error,
     "Bind socket to privileged ports"⟩),
   (.capNetBroadcast, ⟨.ofList [.user, .network], ∅, .error,
     "Unused capability, related to socket broadcasts / listening to multicast transmissions"⟩),
   (.capNetRaw, ⟨.ofList [.user], .ofList [.network], .error, "Use RAW and PACKET sockets"⟩),
   (.capPerfmon, ⟨.ofList [.user], ∅, .warn,
     "Allows performance monitoring related functionality"⟩),
   (.capSetgid, ⟨.ofList [.user], ∅, .error, "Allows arbitrary manipulation of process GID"⟩),
   (.capSetfcap, ⟨.ofList [.user], ∅, .error, "Allows setting arbitrary capabilities on a file"⟩),
   (.capSetpcap, ⟨.ofList [.user], ∅, .error,
     "Depending on whether file caps are supported: allows manipulation of cap perm set"⟩),
   (.capSetuid, ⟨.ofList [.user], ∅, .error, "Allows arbitrary manipulations of process UID"⟩),
   (.capSysAdmin, ⟨.ofList [.user], ∅, .error, "Overloaded Capability, defacto root"⟩),
   (.capSysBoot, ⟨.ofList [.user, .pid], ∅, .error, "System reboot; allows to load new kernel"⟩),
   (.capSysChroot, ⟨∅, ∅, .error, "Perform chroot; join mount namespaces"⟩),
   (.capSysModule, ⟨.ofList [.user], ∅, .error, "Allows loading/unloading of kernel modules"⟩),
   (.capSysNice, ⟨.ofList [.user], ∅, .warn,
     "Allows various operations regarding process scheduling"⟩),
   (.capSysPacct, ⟨.ofList [.user], ∅, .warn, "Switch process accounting on or off"⟩),
   (.capSysPtrace, ⟨.ofList [.user], .ofList [.pid], .error,
     "Allow tracing processes via ptrace"⟩),
   (.capSysRawio, ⟨.ofList [.user], ∅, .error, "Grants access to /dev/mem, /dev/kmem and others"⟩),
   (.capSysResource, ⟨.ofList [.user], ∅, .error, "Allows various resource-related operations"⟩),
   (.capSysTime, ⟨.ofList [.user], ∅, .error, "Set system clock and realtime clock"⟩),
   (.capSysTtyConfig, ⟨.ofList [.user], ∅, .error,
     "vhangup system call, various privileged ioctl operations"⟩),
   (.capSyslog, ⟨.ofList [.user], ∅, .error,
     "Privileged operations on the system log; view kernel addresses via procfs and others"⟩),
   (.capWakeAlarm, ⟨.ofList [.user], ∅, .error, "Set CLOCK_REALTIME_ALARM, CLOCK_BOOTTIME_ALARM"⟩)]

/-- `CAP_MAP`. -/
def capMap : HashMap Capability CapabilityRecord := HashMap.ofList capRecords

/-- The assertion at the end of the construction of the table. -/
theorem capMap_length : capMap.keys.length = Capability.last + 1 := by decide +kernel

theorem nodup_capRecords : (capRecords.map Prod.fst).Nodup := by decide +kernel

/-- Every capability but `unspecified` has a record. -/
theorem capMap_isSome_iff {c : Capability} : (capMap.get c).isSome = true ↔ c ≠ .unspecified := by
  cases c <;> decide +kernel

/-- A record grades a capability that is harmless in some namespaces no better without them. -/
structure CapabilityRecord.WellGraded (r : CapabilityRecord) : Prop where
  ok_lt_default : .ok < r.default
  warn_le_default : r.warn.isEmpty = false → .warn ≤ r.default
  ok_supported : ∀ t ∈ r.ok, t ≠ .unspecified
  warn_supported : ∀ t ∈ r.warn, t ≠ .unspecified

instance (r : CapabilityRecord) : Decidable r.WellGraded :=
  decidable_of_iff (.ok < r.default ∧ (r.warn.isEmpty = false → .warn ≤ r.default) ∧
    (∀ t ∈ r.ok.elems, t ≠ .unspecified) ∧ ∀ t ∈ r.warn.elems, t ≠ .unspecified)
    ⟨fun ⟨h, h', ho, hw⟩ => ⟨h, h', ho, hw⟩, fun ⟨h, h', ho, hw⟩ => ⟨h, h', ho, hw⟩⟩

theorem wellGraded_of_mem_capRecords : ∀ e ∈ capRecords, e.2.WellGraded := by decide +kernel

/-- Only the record of `capSysChroot` has no namespaces that make the capability harmless. -/
theorem ok_isEmpty_of_mem_capRecords :
    ∀ e ∈ capRecords, e.2.ok.isEmpty = true ↔ e.1 = .capSysChroot := by decide +kernel

theorem mem_capRecords_of_get {c : Capability} {r : CapabilityRecord} (h : capMap.get c = some r) :
    (c, r) ∈ capRecords :=
  (HashMap.get_ofList_eq_some_iff nodup_capRecords).mp h

/-- Every record of the table is well graded. -/
theorem wellGraded_of_get {c : Capability} {r : CapabilityRecord} (h : capMap.get c = some r) :
    r.WellGraded :=
  wellGraded_of_mem_capRecords _ (mem_capRecords_of_get h)

theorem ok_isEmpty_iff_of_get {c : Capability} {r : CapabilityRecord}
    (h : capMap.get c = some r) : r.ok.isEmpty = true ↔ c = .capSysChroot :=
  ok_isEmpty_of_mem_capRecords _ (mem_capRecords_of_get h)

end Checkc
