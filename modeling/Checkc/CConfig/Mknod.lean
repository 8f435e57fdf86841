import Checkc.CConfig.Device
import Checkc.Rust.Path
import Checkc.Rust.Text

/-! # Device nodes that can be made

The container tries to make a device node for each number up to a bound, and it lists those that
it can open then. The numbers that are listed for a node are those that a visit to it reads.
-/

namespace Checkc

open Outcome (bind_eq_ok pure_eq_ok)

/-! ## Device numbers -/

/-- The number of a device on Linux. -/
def Device.makedev (major minor : UInt64) : UInt64 :=
  (major &&& 0x00000000fffff000) <<< 32 ||| (major &&& 0x0000000000000fff) <<< 8 |||
    (minor &&& 0x00000000ffffff00) <<< 12 ||| (minor &&& 0x00000000000000ff)

theorem Device.majorOf_makedev (major minor : UInt64) :
    majorOf (makedev major minor) = major.toUInt32 := by
  apply UInt32.toBitVec_inj.mp
  apply BitVec.eq_of_getLsbD_eq
  intro i hi
  simp only [majorOf, makedev, UInt64.toBitVec_toUInt32, UInt64.toBitVec_or, UInt64.toBitVec_and,
    UInt64.toBitVec_shiftLeft, UInt64.toBitVec_shiftRight]
  interval_cases i <;> simp

theorem Device.minorOf_makedev (major minor : UInt64) :
    minorOf (makedev major minor) = minor.toUInt32 := by
  apply UInt32.toBitVec_inj.mp
  apply BitVec.eq_of_getLsbD_eq
  intro i hi
  simp only [minorOf, makedev, UInt64.toBitVec_toUInt32, UInt64.toBitVec_or, UInt64.toBitVec_and,
    UInt64.toBitVec_shiftLeft, UInt64.toBitVec_shiftRight]
  interval_cases i <;> simp

/-- A device number is made of its major and its minor number. -/
theorem Device.makedev_majorOf_minorOf (dev : UInt64) :
    makedev (majorOf dev).toUInt64 (minorOf dev).toUInt64 = dev := by
  apply UInt64.toBitVec_inj.mp
  apply BitVec.eq_of_getLsbD_eq
  intro i hi
  simp only [majorOf, minorOf, makedev, UInt32.toBitVec_toUInt64, UInt64.toBitVec_toUInt32,
    UInt64.toBitVec_or, UInt64.toBitVec_and, UInt64.toBitVec_shiftLeft, UInt64.toBitVec_shiftRight]
  interval_cases i <;> simp

/-! ## The attempts -/

/-- The kinds of device nodes that the container tries to make. -/
inductive NodeKind where
  | char | block
  deriving DecidableEq, Repr

namespace NodeKind

def name : NodeKind → String
  | char => "char"
  | block => "block"

def sflag : NodeKind → UInt32
  | char => Device.S_IFCHR
  | block => Device.S_IFBLK

def type : NodeKind → DeviceType
  | char => .char
  | block => .block

end NodeKind

/-- What the system answers when nodes are made in a temporary directory below `/dev`. Each path is
used for one node, and `nix` makes the number of a device. -/
structure MknodSystem where
  tempdirIn : Except Errno PathBuf
  makedev : UInt64 → UInt64 → UInt64
  mknod : PathBuf → UInt32 → UInt32 → UInt64 → Except Errno Unit
  openAs : PathBuf → OFlag → Except Errno Unit
  getuid : UInt32
  getgid : UInt32
  close : Except Errno Unit

namespace MknodSystem

variable (S : MknodSystem) (dir : PathBuf)

/-- The path of a node. -/
def nodePath (k : NodeKind) (i j : ℕ) : PathBuf := Path.join dir s!"{k.name}_{i}_{j}"

/-- The record of a node that was made. -/
def node (k : NodeKind) (i j : ℕ) : Device :=
  let path := nodePath dir k i j
  { file := path
    id := some
      { type := ProtoEnum.toI32 k.type
        major := i.toUInt64.toUInt32
        minor := j.toUInt64.toUInt32 }
    permissions := Device.S_IRWXU
    user := S.getuid
    group := S.getgid
    readAccess := (S.openAs path .rdonly).isOk
    writeAccess := (S.openAs path .wronly).isOk }

/-- Try to make a node. It is listed if it can be opened. -/
def tryNode (k : NodeKind) (i j : ℕ) (result : List Device) : List Device :=
  match S.mknod (nodePath dir k i j) k.sflag Device.S_IRWXU
      (S.makedev i.toUInt64 j.toUInt64) with
  | .ok () =>
    let device := S.node dir k i j
    if device.readAccess || device.writeAccess then result ++ [device] else result
  | .error _ => result

/-- The loops over the numbers. -/
def tryNodes (m n : ℕ) : List Device :=
  (List.range (m + 1)).foldl (fun result i =>
    (List.range (n + 1)).foldl (fun result j =>
      S.tryNode dir .block i j (S.tryNode dir .char i j result)) result) []

def majorMax : ℕ := 2 ^ 12

def minorMax : ℕ := 256

/-- `Device::mknod_brute_force`. -/
def mknodBruteForce : Result (List Device) := do
  let dir ← ioResult S.tempdirIn
  let result := S.tryNodes dir majorMax minorMax
  ioResult S.close
  pure result

/-- The container can make the node and open it. -/
def Makes (k : NodeKind) (i j : ℕ) : Prop :=
  S.mknod (nodePath dir k i j) k.sflag Device.S_IRWXU
      (S.makedev i.toUInt64 j.toUInt64) = .ok () ∧
    ∃ flag, (S.openAs (nodePath dir k i j) flag).isOk = true

/-- The attempts, in order. -/
def attempts (m n : ℕ) : List (NodeKind × ℕ × ℕ) :=
  (List.range (m + 1)).flatMap fun i => (List.range (n + 1)).flatMap fun j =>
    [(.char, i, j), (.block, i, j)]

/-- The device that an attempt lists. -/
def listed (a : NodeKind × ℕ × ℕ) : Option Device :=
  match S.mknod (nodePath dir a.1 a.2.1 a.2.2) a.1.sflag Device.S_IRWXU
      (S.makedev a.2.1.toUInt64 a.2.2.toUInt64) with
  | .ok () =>
    let device := S.node dir a.1 a.2.1 a.2.2
    if device.readAccess || device.writeAccess then some device else none
  | .error _ => none

variable {S dir} {k : NodeKind} {i j m n : ℕ}

theorem mem_attempts : (k, i, j) ∈ attempts m n ↔ i ≤ m ∧ j ≤ n := by
  simp only [attempts, List.mem_flatMap, List.mem_range, Nat.lt_succ_iff, List.mem_cons,
    List.not_mem_nil, or_false, Prod.mk.injEq]
  constructor
  · rintro ⟨_, hi, _, hj, ⟨-, rfl, rfl⟩ | ⟨-, rfl, rfl⟩⟩ <;> exact ⟨hi, hj⟩
  · rintro ⟨hi, hj⟩
    cases k
    · exact ⟨i, hi, j, hj, Or.inl ⟨rfl, rfl, rfl⟩⟩
    · exact ⟨i, hi, j, hj, Or.inr ⟨rfl, rfl, rfl⟩⟩

theorem nodup_attempts : (attempts m n).Nodup := by
  rw [attempts, List.nodup_flatMap]
  constructor
  · intro i _
    rw [List.nodup_flatMap]
    refine ⟨fun j _ => by simp, List.nodup_range.imp fun {j j'} hne => ?_⟩
    simp [Function.onFun, Ne.symm hne]
  · refine List.nodup_range.imp fun {i i'} hne => ?_
    simp only [Function.onFun, List.disjoint_left, List.mem_flatMap, List.mem_cons,
      List.not_mem_nil, or_false]
    rintro _ ⟨j, -, rfl | rfl⟩ ⟨j', -, h | h⟩ <;> simp_all

theorem tryNode_eq (result : List Device) :
    S.tryNode dir k i j result = result ++ (S.listed dir (k, i, j)).toList := by
  unfold tryNode listed
  cases S.mknod (nodePath dir k i j) k.sflag Device.S_IRWXU
    (S.makedev i.toUInt64 j.toUInt64) with
  | error errno => exact (List.append_nil result).symm
  | ok _ =>
    dsimp only
    split_ifs
    · rfl
    · exact (List.append_nil result).symm

theorem tryNodes_eq :
    S.tryNodes dir m n = (attempts m n).filterMap (S.listed dir) := by
  rw [List.filterMap_eq_flatMap_toList, List.flatMap_eq_foldl, attempts]
  simp only [List.foldl_flatMap, List.foldl_cons, List.foldl_nil, tryNodes, tryNode_eq]

theorem mknodBruteForce_eq_ok {devices : List Device} : S.mknodBruteForce = .ok devices ↔
    ∃ dir, S.tempdirIn = .ok dir ∧ S.close = .ok () ∧
      devices = (attempts majorMax minorMax).filterMap (S.listed dir) := by
  simp only [mknodBruteForce, bind_eq_ok, ioResult_eq_ok, pure_eq_ok, tryNodes_eq]
  constructor
  · rintro ⟨dir, hdir, _, hclose, h⟩
    exact ⟨dir, hdir, hclose, h.symm⟩
  · rintro ⟨dir, hdir, hclose, h⟩
    exact ⟨dir, hdir, (), hclose, h.symm⟩

theorem listed_eq_some_iff {d : Device} :
    S.listed dir (k, i, j) = some d ↔ S.Makes dir k i j ∧ d = S.node dir k i j := by
  unfold listed Makes
  cases S.mknod (nodePath dir k i j) k.sflag Device.S_IRWXU
    (S.makedev i.toUInt64 j.toUInt64) with
  | error errno => simp
  | ok _ =>
    have hopen : ((S.node dir k i j).readAccess || (S.node dir k i j).writeAccess) = true ↔
        ∃ flag, (S.openAs (nodePath dir k i j) flag).isOk = true := by
      rw [Bool.or_eq_true]
      constructor
      · rintro (h | h)
        · exact ⟨.rdonly, h⟩
        · exact ⟨.wronly, h⟩
      · rintro ⟨_ | _, h⟩
        · exact Or.inl h
        · exact Or.inr h
    simp only [← hopen, true_and]
    split_ifs with h <;> simp [h, eq_comm]

/-! ## Names of nodes -/

theorem join_injective {name name' : String} (h : name.toList.head? ≠ some '/')
    (h' : name'.toList.head? ≠ some '/') (he : Path.join dir name = Path.join dir name') :
    name = name' := by
  unfold Path.join at he
  rw [if_neg h, if_neg h'] at he
  split_ifs at he
  all_goals exact (String.append_right_inj _).mp he

/-- The name of a node is made of its kind and its numbers, with underscores between them. -/
theorem toList_name (k : NodeKind) (i j : ℕ) : (s!"{k.name}_{i}_{j}").toList =
    ['_'].intercalate [k.name.toList, Nat.toDigits 10 i, Nat.toDigits 10 j] := by
  simp [Nat.toList_repr, toString]

theorem toDigits_inj {i i' : ℕ} (h : Nat.toDigits 10 i = Nat.toDigits 10 i') : i = i' := by
  rw [← Nat.ofDigitChars_ten_toDigits (n := i), h, Nat.ofDigitChars_ten_toDigits]

theorem name_injective {l : NodeKind} {m n : ℕ}
    (h : s!"{k.name}_{i}_{j}" = s!"{l.name}_{m}_{n}") : k = l ∧ i = m ∧ j = n := by
  have hparts : ∀ (k : NodeKind) (i j : ℕ),
      ∀ part ∈ [k.name.toList, Nat.toDigits 10 i, Nat.toDigits 10 j], '_' ∉ part := by
    intro k i j
    have hdigits : ∀ n, '_' ∉ Nat.toDigits 10 n := fun n =>
      not_mem_toDigits (by decide) (by decide) (by decide)
    simp only [List.forall_mem_cons, List.not_mem_nil, false_imp_iff, implies_true, and_true]
    exact ⟨by cases k <;> decide, hdigits i, hdigits j⟩
  have hlist := congrArg (fun name => name.toList.splitOn '_') h
  simp only [toList_name] at hlist
  rw [List.splitOn_intercalate '_' (hparts k i j) (by simp),
    List.splitOn_intercalate '_' (hparts l m n) (by simp)] at hlist
  simp only [List.cons.injEq, and_true] at hlist
  obtain ⟨hk, hi, hj⟩ := hlist
  refine ⟨?_, toDigits_inj hi, toDigits_inj hj⟩
  revert hk
  cases k <;> cases l <;> decide

theorem nodePath_injective {k' : NodeKind} {i' j' : ℕ}
    (h : nodePath dir k i j = nodePath dir k' i' j') : k = k' ∧ i = i' ∧ j = j' := by
  have hhead : ∀ (k : NodeKind) (i j : ℕ),
      (s!"{k.name}_{i}_{j}").toList.head? ≠ some '/' := by
    intro k i j
    rw [toList_name]
    cases k <;> exact nofun
  exact name_injective (join_injective (hhead k i j) (hhead k' i' j') h)

/-! ## The list -/

theorem mem_filterMap_listed {d : Device} : d ∈ (attempts m n).filterMap (S.listed dir) ↔
    ∃ k i j, i ≤ m ∧ j ≤ n ∧ S.Makes dir k i j ∧ d = S.node dir k i j := by
  simp only [List.mem_filterMap, Prod.exists, mem_attempts, listed_eq_some_iff, and_assoc]

/-- What tells the attempts apart tells the devices apart that are listed. -/
theorem nodup_map_filterMap_listed {β : Type} {f : Device → β}
    (h : ∀ k k' i i' j j', i ≤ m → i' ≤ m → j ≤ n → j' ≤ n →
      f (S.node dir k i j) = f (S.node dir k' i' j') → k = k' ∧ i = i' ∧ j = j') :
    (((attempts m n).filterMap (S.listed dir)).map f).Nodup := by
  rw [List.Nodup, List.pairwise_map, List.pairwise_filterMap]
  refine nodup_attempts.imp_of_mem fun {a a'} ha ha' hne d hd d' hd' he => hne ?_
  obtain ⟨k, i, j⟩ := a
  obtain ⟨k', i', j'⟩ := a'
  rw [mem_attempts] at ha ha'
  rw [listed_eq_some_iff] at hd hd'
  obtain ⟨-, rfl⟩ := hd
  obtain ⟨-, rfl⟩ := hd'
  obtain ⟨rfl, rfl, rfl⟩ := h k k' i i' j j' ha.1 ha'.1 ha.2 ha'.2 he
  rfl

theorem toUInt32_inj {i i' : ℕ} (hi : i ≤ majorMax) (hi' : i' ≤ majorMax)
    (h : i.toUInt64.toUInt32 = i'.toUInt64.toUInt32) : i = i' := by
  have hmod : ∀ i : ℕ, i.toUInt64.toUInt32.toNat = i % 2 ^ 64 % 2 ^ 32 := fun i => by simp
  have h := congrArg UInt32.toNat h
  rw [hmod, hmod] at h
  unfold majorMax at hi hi'
  omega

/-- The list has each node that can be made and opened, up to the largest numbers. No path and no id
is listed twice. -/
theorem mknodBruteForce_lists {devices : List Device} (h : S.mknodBruteForce = .ok devices) :
    ∃ dir, S.tempdirIn = .ok dir ∧
      (∀ d, d ∈ devices ↔ ∃ k i j, i ≤ majorMax ∧ j ≤ minorMax ∧ S.Makes dir k i j ∧
        d = S.node dir k i j) ∧
      (devices.map Device.file).Nodup ∧ (devices.map Device.id).Nodup := by
  obtain ⟨dir, hdir, -, hd⟩ := mknodBruteForce_eq_ok.mp h
  refine ⟨dir, hdir, fun d => hd ▸ mem_filterMap_listed, hd ▸ ?_, hd ▸ ?_⟩
  · exact nodup_map_filterMap_listed fun _ _ _ _ _ _ _ _ _ _ he => nodePath_injective he
  · refine nodup_map_filterMap_listed fun k k' i i' j j' hi hi' hj hj' he => ?_
    have hmax : minorMax ≤ majorMax := by decide
    simp only [node, Option.some.injEq, Device.Id.mk.injEq] at he
    obtain ⟨hk, hi₀, hj₀⟩ := he
    refine ⟨?_, toUInt32_inj hi hi' hi₀, toUInt32_inj (hj.trans hmax) (hj'.trans hmax) hj₀⟩
    revert hk
    cases k <;> cases k' <;> decide

/-- The container may make the null device and no other one. -/
def nullOnly : MknodSystem where
  tempdirIn := .ok "/dev/.tmpA1b2C3"
  makedev := Device.makedev
  mknod path _ _ dev :=
    if path = nodePath "/dev/.tmpA1b2C3" .char 1 3 ∧ dev = 0x103 then .ok () else .error .EPERM
  openAs _ _ := .ok ()
  getuid := 0
  getgid := 0
  close := .ok ()

theorem nullOnly_lists : ∃ devices, nullOnly.mknodBruteForce = .ok devices ∧
    (∀ d, d ∈ devices ↔ d = nullOnly.node "/dev/.tmpA1b2C3" .char 1 3) ∧
      (devices.map Device.id).Nodup := by
  have hrun : ∃ devices, nullOnly.mknodBruteForce = .ok devices :=
    ⟨_, mknodBruteForce_eq_ok.mpr ⟨_, rfl, rfl, Eq.refl _⟩⟩
  obtain ⟨devices, hrun⟩ := hrun
  obtain ⟨dir, hdir, hmem, -, hnodup⟩ := mknodBruteForce_lists hrun
  refine ⟨devices, hrun, ?_⟩
  obtain rfl := Except.ok.inj hdir
  refine ⟨fun d => (hmem d).trans ⟨?_, ?_⟩, hnodup⟩
  · rintro ⟨k, i, j, -, -, ⟨hmade, -⟩, rfl⟩
    simp only [nullOnly] at hmade
    split_ifs at hmade with h
    obtain ⟨rfl, rfl, rfl⟩ := nodePath_injective h.1
    rfl
  · rintro rfl
    refine ⟨.char, 1, 3, by decide, by decide, ⟨?_, .rdonly, rfl⟩, rfl⟩
    simp only [nullOnly]
    exact if_pos ⟨trivial, by decide⟩

/-! ## Numbers and ids -/

end MknodSystem

/-! ## The configuration of devices -/

section

variable {π ι : Type} [DecidableEq ι]

/-- `device_config`. -/
def deviceConfig (env : Env) (T : DevTree π ι) (nodes : ι → Device.Inode) (S : MknodSystem) :
    Result Device.Config := do
  let devDevices ← T.parseDev env nodes
  let mknodDevices ← S.mknodBruteForce
  pure { devDevices, mknodDevices }

/-- Each device that is collected has an id with a type. -/
theorem typed_of_deviceConfig {env : Env} {T : DevTree π ι} {nodes : ι → Device.Inode}
    {S : MknodSystem} {c : Device.Config} (h : deviceConfig env T nodes S = .ok c) :
    ∀ dev ∈ c.devDevices ++ c.mknodDevices, ∃ id ∈ dev.id, ∃ t : DeviceType,
      id.type = ProtoEnum.toI32 t := by
  simp only [deviceConfig, bind_eq_ok, pure_eq_ok] at h
  obtain ⟨devDevices, hdev, mknodDevices, hmknod, rfl⟩ := h
  rw [List.forall_mem_append]
  constructor
  · obtain rfl := pure_eq_ok.mp hdev
    intro dev hd
    obtain ⟨_, _, path, a, t, file, -, -, -, rfl⟩ :=
      (DevTree.mem_foldl_collect _ _).mp (HashSet.mem_iter.mp hd)
    exact ⟨_, rfl, t, rfl⟩
  · obtain ⟨dir, -, -, hd⟩ := MknodSystem.mknodBruteForce_eq_ok.mp hmknod
    intro dev hmem
    obtain ⟨k, i, j, -, -, -, rfl⟩ := MknodSystem.mem_filterMap_listed.mp (hd ▸ hmem)
    exact ⟨_, rfl, k.type, rfl⟩

end

end Checkc
