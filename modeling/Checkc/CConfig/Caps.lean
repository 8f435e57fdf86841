import Checkc.CConfig.Basic
import Checkc.Rust.Enumeration
import Checkc.Rust.Text

/-! # Capabilities

The capability sets of a process are decoded from the hexadecimal masks of
`/proc/<pid>/status`. Bit `i` of a mask stands for the capability with number `i + 1`.
-/

namespace Checkc

/-- `c_config.caps.Capability`. -/
inductive Capability where
  | unspecified
  | capChown | capDacOverride | capDacReadSearch | capFowner | capFsetid | capKill | capSetgid
  | capSetuid | capSetpcap | capLinuxImmutable | capNetBindService | capNetBroadcast | capNetAdmin
  | capNetRaw | capIpcLock | capIpcOwner | capSysModule | capSysRawio | capSysChroot | capSysPtrace
  | capSysPacct | capSysAdmin | capSysBoot | capSysNice | capSysResource | capSysTime
  | capSysTtyConfig | capMknod | capLease | capAuditWrite | capAuditControl | capSetfcap
  | capMacOverride | capMacAdmin | capSyslog | capWakeAlarm | capBlockSuspend | capAuditRead
  | capPerfmon | capBpf | capCheckpointRestore
  deriving DecidableEq, Repr

namespace Capability

/-- The numbers of the proto file. -/
def number : Capability → Nat
  | unspecified => 0
  | capChown => 1
  | capDacOverride => 2
  | capDacReadSearch => 3
  | capFowner => 4
  | capFsetid => 5
  | capKill => 6
  | capSetgid => 7
  | capSetuid => 8
  | capSetpcap => 9
  | capLinuxImmutable => 10
  | capNetBindService => 11
  | capNetBroadcast => 12
  | capNetAdmin => 13
  | capNetRaw => 14
  | capIpcLock => 15
  | capIpcOwner => 16
  | capSysModule => 17
  | capSysRawio => 18
  | capSysChroot => 19
  | capSysPtrace => 20
  | capSysPacct => 21
  | capSysAdmin => 22
  | capSysBoot => 23
  | capSysNice => 24
  | capSysResource => 25
  | capSysTime => 26
  | capSysTtyConfig => 27
  | capMknod => 28
  | capLease => 29
  | capAuditWrite => 30
  | capAuditControl => 31
  | capSetfcap => 32
  | capMacOverride => 33
  | capMacAdmin => 34
  | capSyslog => 35
  | capWakeAlarm => 36
  | capBlockSuspend => 37
  | capAuditRead => 38
  | capPerfmon => 39
  | capBpf => 40
  | capCheckpointRestore => 41

/-- The capabilities in the order of their numbers. -/
def list : List Capability :=
  [capChown, capDacOverride, capDacReadSearch, capFowner, capFsetid, capKill, capSetgid,
   capSetuid, capSetpcap, capLinuxImmutable, capNetBindService, capNetBroadcast, capNetAdmin,
   capNetRaw, capIpcLock, capIpcOwner, capSysModule, capSysRawio, capSysChroot, capSysPtrace,
   capSysPacct, capSysAdmin, capSysBoot, capSysNice, capSysResource, capSysTime,
   capSysTtyConfig, capMknod, capLease, capAuditWrite, capAuditControl, capSetfcap,
   capMacOverride, capMacAdmin, capSyslog, capWakeAlarm, capBlockSuspend, capAuditRead,
   capPerfmon, capBpf, capCheckpointRestore]

theorem mem_list {c : Capability} : c ∈ list ↔ c ≠ unspecified := by
  cases c <;> decide

theorem list_map_number : list.map number = List.range' 1 41 := by decide

instance : ProtoEnum Capability where
  variants := unspecified :: list
  toI32 c := c.number
  mem_variants c := by
    by_cases h : c = unspecified
    · simp [h]
    · exact List.mem_cons_of_mem _ (mem_list.mpr h)
  nodup_codes := by decide

theorem toI32_eq (c : Capability) : ProtoEnum.toI32 c = (c.number : Int) := rfl

/-- `Capability::first`: the bit of the first capability. -/
def first : ℕ := capChown.number - 1

/-- `Capability::last`: the bit of the last capability. -/
def last : ℕ := capCheckpointRestore.number - 1

/-- The `Display` text. -/
def display : Capability → String
  | capChown => "CAP_CHOWN"
  | capDacOverride => "CAP_DAC_OVERRIDE"
  | capDacReadSearch => "CAP_DAC_READ_SEARCH"
  | capFowner => "CAP_FOWNER"
  | capFsetid => "CAP_FSETID"
  | capKill => "CAP_KILL"
  | capSetgid => "CAP_SETGID"
  | capSetuid => "CAP_SETUID"
  | capSetpcap => "CAP_SETPCAP"
  | capLinuxImmutable => "CAP_LINUX_IMMUTABLE"
  | capNetBindService => "CAP_NET_BIND_SERVICE"
  | capNetBroadcast => "CAP_NET_BROADCAST"
  | capNetAdmin => "CAP_NET_ADMIN"
  | capNetRaw => "CAP_NET_RAW"
  | capIpcLock => "CAP_IPC_LOCK"
  | capIpcOwner => "CAP_IPC_OWNER"
  | capSysModule => "CAP_SYS_MODULE"
  | capSysRawio => "CAP_SYS_RAWIO"
  | capSysChroot => "CAP_SYS_CHROOT"
  | capSysPtrace => "CAP_SYS_PTRACE"
  | capSysPacct => "CAP_SYS_PACCT"
  | capSysAdmin => "CAP_SYS_ADMIN"
  | capSysBoot => "CAP_SYS_BOOT"
  | capSysNice => "CAP_SYS_NICE"
  | capSysResource => "CAP_SYS_RESOURCE"
  | capSysTime => "CAP_SYS_TIME"
  | capSysTtyConfig => "CAP_SYS_TTY_CONFIG"
  | capMknod => "CAP_MKNOD"
  | capLease => "CAP_LEASE"
  | capAuditWrite => "CAP_AUDIT_WRITE"
  | capAuditControl => "CAP_AUDIT_CONTROL"
  | capSetfcap => "CAP_SETFCAP"
  | capMacOverride => "CAP_MAC_OVERRIDE"
  | capMacAdmin => "CAP_MAC_ADMIN"
  | capSyslog => "CAP_SYSLOG"
  | capWakeAlarm => "CAP_WAKE_ALARM"
  | capBlockSuspend => "CAP_BLOCK_SUSPEND"
  | capAuditRead => "CAP_AUDIT_READ"
  | capPerfmon => "CAP_PERFMON"
  | capBpf => "CAP_BPF"
  | capCheckpointRestore => "CAP_CHECKPOINT_RESTORE"
  | unspecified => "UNSPECIFIED"

end Capability

/-- The capability sets of a process. -/
inductive CapSet where
  | capInh | capPrm | capEff | capBnd | capAmb
  deriving DecidableEq, Repr

namespace CapSet

/-- The `Display` text, which is also the key of the set's line in a status file. -/
def display : CapSet → String
  | capInh => "CapInh"
  | capPrm => "CapPrm"
  | capEff => "CapEff"
  | capBnd => "CapBnd"
  | capAmb => "CapAmb"

def list : List CapSet := [capInh, capPrm, capEff, capBnd, capAmb]

theorem mem_list (s : CapSet) : s ∈ list := by cases s <;> decide

/-- The mask in the first line that contains the name of the set. -/
def capsEncoded (set : CapSet) (statusContent : List String) : Result (BitVec 64) := do
  let line ← unwrap (statusContent.find? fun line => containsStr line.toList set.display.toList)
  let token ← unwrap (splitAsciiWhitespace line.toList).getLast?
  match fromStrRadix 16 (UInt64.size - 1) token with
  | .error e => .err (.conversionFailed e.message)
  | .ok n => .ok (BitVec.ofNat 64 n)

/-- One step of the decoding loop: bit `i` of the mask. -/
def decodeBit (encoded : BitVec 64) (caps : HashSet Capability) (i : ℕ) :
    Result (HashSet Capability) :=
  if 0 < encoded &&& (1#64 <<< i) then
    match ProtoEnum.fromI32 ((i + 1 : ℕ) : Int) with
    | some cap => .ok (caps.insert cap)
    | none => .err (.conversionFailed "Could not convert capability")
  else .ok caps

/-- The capabilities whose bits are set. -/
def decode (encoded : BitVec 64) : Result (HashSet Capability) :=
  (List.range' Capability.first (Capability.last + 1 - Capability.first)).foldlM
    (decodeBit encoded) ∅

theorem bit_set_iff (encoded : BitVec 64) {i : ℕ} (hi : i < 64) :
    0 < encoded &&& (1#64 <<< i) ↔ encoded.getLsbD i = true := by
  rw [← BitVec.twoPow_eq, BitVec.and_twoPow]
  have hp : 0#64 < BitVec.twoPow 64 i := by
    rw [BitVec.lt_def, BitVec.toNat_twoPow, Nat.mod_eq_of_lt (Nat.pow_lt_pow_right (by omega) hi)]
    exact Nat.two_pow_pos i
  cases encoded.getLsbD i <;> simp [hp]

theorem fromI32_eq_some {i : ℕ} {c : Capability} :
    ProtoEnum.fromI32 ((i + 1 : ℕ) : Int) = some c ↔ c.number = i + 1 := by
  rw [ProtoEnum.fromI32_eq_some, Capability.toI32_eq, Int.natCast_inj]

theorem mem_bits {i : ℕ} :
    i ∈ List.range' Capability.first (Capability.last + 1 - Capability.first) ↔ i < 41 := by
  have hf : Capability.first = 0 := rfl
  have hl : Capability.last = 40 := rfl
  rw [hf, hl, List.mem_range'_1]
  omega

/-- The loop reaches every bit of a known capability, and each of these bits decodes. -/
theorem exists_number_eq {i : ℕ} (hi : i ∈ List.range' Capability.first
    (Capability.last + 1 - Capability.first)) : ∃ c : Capability, c.number = i + 1 := by
  have hm : i + 1 ∈ Capability.list.map Capability.number := by
    rw [Capability.list_map_number, List.mem_range'_1]
    have := mem_bits.mp hi
    omega
  obtain ⟨c, -, hc⟩ := List.mem_map.mp hm
  exact ⟨c, hc⟩

theorem mem_decodeBit {encoded : BitVec 64} {caps caps' : HashSet Capability} {i : ℕ}
    (hi : i < 64) (h : decodeBit encoded caps i = .ok caps') {c : Capability} :
    c ∈ caps' ↔ c ∈ caps ∨ (c.number = i + 1 ∧ encoded.getLsbD i = true) := by
  unfold decodeBit at h
  split at h
  · case isTrue hb =>
    rw [bit_set_iff encoded hi] at hb
    split at h
    · case h_1 cap hc =>
      obtain rfl := Outcome.ok.inj h
      rw [fromI32_eq_some] at hc
      have he : c = cap ↔ c.number = i + 1 := by
        rw [← hc, ← Int.natCast_inj]
        exact ProtoEnum.toI32_inj.symm
      simp [hb, he]
    · cases h
  · case isFalse hb =>
    rw [bit_set_iff encoded hi] at hb
    obtain rfl := Outcome.ok.inj h
    simp [hb]

/-- Decoding returns for every mask. -/
theorem decode_isOk (encoded : BitVec 64) : ∃ caps, decode encoded = .ok caps := by
  refine foldlM_isOk (fun caps i hi => ?_) ∅
  obtain ⟨c, hc⟩ := exists_number_eq hi
  unfold decodeBit
  split
  · rw [fromI32_eq_some.mpr hc]; exact ⟨_, rfl⟩
  · exact ⟨_, rfl⟩

/-- The decoded set has exactly the capabilities whose bits are set. -/
theorem mem_decode {encoded : BitVec 64} {caps : HashSet Capability}
    (h : decode encoded = .ok caps) {c : Capability} :
    c ∈ caps ↔ c ≠ .unspecified ∧ encoded.getLsbD (c.number - 1) = true := by
  have hs : ∀ s r, ∀ i ∈ List.range' Capability.first (Capability.last + 1 - Capability.first),
      decodeBit encoded s i = .ok r →
        (c ∈ r ↔ c ∈ s ∨ (c.number = i + 1 ∧ encoded.getLsbD i = true)) := by
    intro s r i hi hr
    exact mem_decodeBit (lt_trans (mem_bits.mp hi) (by decide)) hr
  rw [foldlM_accumulates (M := fun s => c ∈ s) hs h]
  simp only [HashSet.not_mem_empty, false_or]
  constructor
  · rintro ⟨i, -, hc, hb⟩
    refine ⟨fun h0 => ?_, by rwa [hc]⟩
    subst h0
    simp [Capability.number] at hc
  · rintro ⟨h0, hb⟩
    have hn : c.number ∈ List.range' 1 41 :=
      Capability.list_map_number ▸ List.mem_map_of_mem (Capability.mem_list.mpr h0)
    rw [List.mem_range'_1] at hn
    exact ⟨c.number - 1, mem_bits.mpr (by omega), by omega, hb⟩

/-- The set that the body of the loop over the sets computes. -/
def decodeLine (set : CapSet) (statusContent : List String) : Result (HashSet Capability) := do
  let encoded ← set.capsEncoded statusContent
  decode encoded

/-- `CapSet::parse_proc_status`. A line of the file is `none` when it is not valid text. -/
def parseProcStatus (status : Except Errno (List (Option String))) :
    Result (HashMap CapSet (HashSet Capability)) := do
  let lines ← ioResult status
  list.foldlM (fun setMap set =>
    set.decodeLine (lines.filterMap id) >>= fun caps => pure (setMap.insert set caps)) ∅

/-- The sets that `parse_proc_status` returns are those of their lines. -/
theorem parseProcStatus_eq_ok {status : Except Errno (List (Option String))}
    {capSets : HashMap CapSet (HashSet Capability)} (h : parseProcStatus status = .ok capSets) :
    ∃ lines, status = .ok lines ∧ ∀ set, ∃ caps,
      set.decodeLine (lines.filterMap id) = .ok caps ∧ capSets.get set = some caps := by
  simp only [parseProcStatus, Outcome.bind_eq_ok, ioResult_eq_ok] at h
  obtain ⟨lines, hl, h⟩ := h
  exact ⟨lines, hl, fun set => (HashMap.get_foldlM_insert h set).1 (mem_list set)⟩

end CapSet

namespace Caps

/-- `c_config.caps.Config`. -/
structure Config where
  capInh : List Int
  capPrm : List Int
  capEff : List Int
  capBnd : List Int
  capAmb : List Int
  deriving DecidableEq, Repr

def Config.empty : Config := ⟨[], [], [], [], []⟩

/-- The getter `cap_prm()`, which leaves out unknown numbers. -/
def Config.getCapPrm (c : Config) : List Capability := c.capPrm.filterMap ProtoEnum.fromI32

/-- Store one decoded set in the message. -/
def Config.store (env : Env) (c : Config) (set : CapSet) (caps : HashSet Capability) : Config :=
  let codes := (caps.iter env.σ set.display).map ProtoEnum.toI32
  match set with
  | .capAmb => { c with capAmb := codes }
  | .capBnd => { c with capBnd := codes }
  | .capEff => { c with capEff := codes }
  | .capInh => { c with capInh := codes }
  | .capPrm => { c with capPrm := codes }

/-- `caps_config`. -/
def capsConfig (env : Env) (status : Except Errno (List (Option String))) : Result Config := do
  let capSets ← CapSet.parseProcStatus status
  pure ((capSets.iter env.σ "cap_sets").foldl (fun c e => c.store env e.1 e.2) Config.empty)

theorem capPrm_foldl_store (env : Env) {caps : HashSet Capability}
    {l : List (CapSet × HashSet Capability)} (hl : ∀ v, (CapSet.capPrm, v) ∈ l → v = caps)
    (hm : (CapSet.capPrm, caps) ∈ l) (c : Config) :
    (l.foldl (fun c e => c.store env e.1 e.2) c).capPrm =
      (caps.iter env.σ CapSet.capPrm.display).map ProtoEnum.toI32 := by
  induction l using List.reverseRecOn with
  | nil => cases hm
  | append_singleton l e ih =>
    obtain ⟨set, v⟩ := e
    rw [List.foldl_append, List.foldl_cons, List.foldl_nil]
    by_cases hs : set = .capPrm
    · subst hs
      rw [hl v (by simp)]
      rfl
    · have hm' : (CapSet.capPrm, caps) ∈ l := by simpa [Ne.symm hs] using hm
      have ih' := ih (fun v hv => hl v (List.mem_append_left _ hv)) hm'
      cases set <;> first | exact ih' | exact absurd rfl hs

/-- `caps_config` stores the permitted set that its line of the status file encodes. -/
theorem capsConfig_capPrm {env : Env} {status : Except Errno (List (Option String))} {c : Config}
    (h : capsConfig env status = .ok c) :
    ∃ lines encoded caps, status = .ok lines ∧
      CapSet.capPrm.capsEncoded (lines.filterMap id) = .ok encoded ∧
      CapSet.decode encoded = .ok caps ∧
      c.capPrm = (caps.iter env.σ CapSet.capPrm.display).map ProtoEnum.toI32 := by
  simp only [capsConfig, Outcome.bind_eq_ok, Outcome.pure_eq_ok] at h
  obtain ⟨capSets, hs, rfl⟩ := h
  obtain ⟨lines, hl, hg⟩ := CapSet.parseProcStatus_eq_ok hs
  obtain ⟨caps, hd, hg⟩ := hg .capPrm
  rw [CapSet.decodeLine, Outcome.bind_eq_ok] at hd
  obtain ⟨encoded, he, hd⟩ := hd
  refine ⟨lines, encoded, caps, hl, he, hd, capPrm_foldl_store env (fun v hv => ?_) ?_ _⟩
  · rw [HashMap.mem_iter, hg] at hv
    exact (Option.some.inj hv).symm
  · rw [HashMap.mem_iter, hg]

/-- The members of the permitted set do not depend on the order in which sets are traversed. -/
theorem capsConfig_mem_capPrm {env env' : Env} {status : Except Errno (List (Option String))}
    {c c' : Config} (h : capsConfig env status = .ok c) (h' : capsConfig env' status = .ok c')
    {n : Int} : n ∈ c'.capPrm ↔ n ∈ c.capPrm := by
  obtain ⟨lines, encoded, caps, hl, he, hd, hc⟩ := capsConfig_capPrm h
  obtain ⟨lines', encoded', caps', hl', he', hd', hc'⟩ := capsConfig_capPrm h'
  obtain rfl := Except.ok.inj (hl.symm.trans hl')
  obtain rfl := Outcome.ok_unique he he'
  obtain rfl := Outcome.ok_unique hd hd'
  rw [hc, hc']
  simp

end Caps

end Checkc
