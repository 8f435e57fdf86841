import Checkc.CConfig.Config

/-! # Devices

The devices below `/dev`. A visit to a device that cannot be opened tries to change its owner and
its mode, and the next visit to it finds what the earlier ones have left. Devices are equal if
their records are, so that a path is listed once just if all visits to it find the same
permissions and the same owner.
-/

namespace Checkc

namespace Device

/-! ## Modes -/

def S_IFMT : UInt32 := 0o170000
def S_IFSOCK : UInt32 := 0o140000
def S_IFREG : UInt32 := 0o100000
def S_IFBLK : UInt32 := 0o060000
def S_IFDIR : UInt32 := 0o040000
def S_IFCHR : UInt32 := 0o020000
def S_IFIFO : UInt32 := 0o010000
def S_IRWXU : UInt32 := 0o700
def S_IRWXG : UInt32 := 0o070
def S_IRWXO : UInt32 := 0o007

theorem or_and_distrib (a b c : UInt32) : (a ||| b) &&& c = a &&& c ||| b &&& c := by
  apply UInt32.toBitVec_inj.mp
  simp only [UInt32.toBitVec_and, UInt32.toBitVec_or]
  rw [BitVec.and_comm, BitVec.and_or_distrib_left, BitVec.and_comm c.toBitVec,
    BitVec.and_comm c.toBitVec]

/-- What the metadata of a node say about its mode and its owner. -/
structure Inode where
  mode : UInt32
  user : UInt32
  group : UInt32
  deriving DecidableEq, Repr

/-- The permissions and the owner, on which the access to a device depends. -/
@[ext]
structure Attributes where
  permissions : UInt32
  user : UInt32
  group : UInt32
  deriving DecidableEq, Repr

def Inode.attributes (s : Inode) : Attributes where
  permissions := s.mode &&& (S_IRWXU ||| S_IRWXG ||| S_IRWXO)
  user := s.user
  group := s.group

end Device

open Device

/-- `Type::try_from`. -/
def DeviceType.tryFrom (value : UInt32) : Except Error DeviceType :=
  if value &&& S_IFMT = S_IFBLK then .ok .block
  else if value &&& S_IFMT = S_IFCHR then .ok .char
  else if value &&& S_IFMT = S_IFSOCK then .ok .socket
  else if value &&& S_IFMT = S_IFIFO then .ok .fifo
  else .error (.conversionFailed "unknown device type")

theorem DeviceType.tryFrom_congr {m m' : UInt32} (h : m &&& S_IFMT = m' &&& S_IFMT) :
    DeviceType.tryFrom m = DeviceType.tryFrom m' := by
  simp only [DeviceType.tryFrom, h]

/-- Regular files and directories are no devices. -/
theorem DeviceType.not_regular_of_tryFrom {m : UInt32} {t : DeviceType}
    (h : DeviceType.tryFrom m = .ok t) :
    ¬ (m &&& S_IFMT = S_IFREG ∨ m &&& S_IFMT = S_IFDIR) := by
  rintro (hm | hm) <;>
    simp [DeviceType.tryFrom, hm, S_IFREG, S_IFDIR, S_IFBLK, S_IFCHR, S_IFSOCK, S_IFIFO] at h

inductive OFlag where
  | rdonly | wronly
  deriving DecidableEq, Repr

/-- What a process finds below `/dev`: the entries of the walk and whether they are directories,
where paths lead, and what the kernel lets the process do with a node. The numbers of a device are
read by `libc::major` and `libc::minor`. Different paths have different texts, unless they are no
valid text. -/
structure DevTree (π ι : Type) where
  walk : List (Except Errno (π × Bool))
  canonicalize : π → Except Errno π
  readLink : π → Except Errno π
  metadata : π → Except Errno ι
  rdev : ι → UInt64
  major : UInt64 → UInt32
  minor : UInt64 → UInt32
  openAs : π → OFlag → Attributes → Except Errno Unit
  chownTo : π → Attributes → Except Errno Unit
  chmodTo : π → UInt32 → Attributes → Except Errno Unit
  uid : UInt32
  gid : UInt32
  toStr : π → Option String
  display : π → String
  toStr_inj : ∀ p q s, toStr p = some s → toStr q = some s → p = q

namespace DevTree

variable {π ι : Type} (T : DevTree π ι)

/-! ## Visits -/

/-- The path that is processed for an entry. -/
def target (p : π) : Except Error π :=
  match T.canonicalize p with
  | .ok path => .ok path
  | .error e =>
    match T.readLink p with
    | .ok path => .ok path
    | .error _ => .error (.deviceError (T.display p) (some e))

/-- The device to which an entry leads. -/
def locate (nodes : ι → Inode) (p : π) : Except Error (π × ι × DeviceType) :=
  match T.target p with
  | .error e => .error e
  | .ok path =>
    match T.metadata path with
    | .error e => .error (.deviceError (T.display path) (some e))
    | .ok a =>
      let mode := (nodes a).mode
      if mode &&& S_IFMT = S_IFREG ∨ mode &&& S_IFMT = S_IFDIR then
        .error (.deviceError (T.display path) none)
      else
        match DeviceType.tryFrom mode with
        | .error _ => .error (.valueError "Unkown st_mode" (toString mode) (T.display path))
        | .ok t => .ok (path, a, t)

/-- `Device::read_access`. -/
def readAccess (path : π) (s : Inode) : Bool := (T.openAs path .rdonly s.attributes).isOk

/-- `Device::write_access`. -/
def writeAccess (path : π) (s : Inode) : Bool := (T.openAs path .wronly s.attributes).isOk

/-- `chown`, if it is permitted. The bits of the mode that it may clear are not read. -/
def chown (path : π) (s : Inode) : Inode :=
  if (T.chownTo path s.attributes).isOk then { s with user := T.uid, group := T.gid } else s

/-- `chmod`, if it is permitted. -/
def chmod (path : π) (permissions : UInt32) (s : Inode) : Inode :=
  if (T.chmodTo path permissions s.attributes).isOk then
    { s with mode := s.mode &&& S_IFMT ||| permissions }
  else s

/-- If direct access is not possible, attempt to change the owner and the mode. -/
def attempt (path : π) (s : Inode) : Inode :=
  let readAccess := T.readAccess path s
  let writeAccess := T.writeAccess path s
  if !readAccess || !writeAccess then
    let s := T.chown path s
    let s := if !readAccess then T.chmod path 0o444 s else s
    if !writeAccess then T.chmod path 0o666 s else s
  else s

/-- The record of a visit that finds the device as `s`. -/
def record (path : π) (a : ι) (t : DeviceType) (file : String) (s : Inode) : Device :=
  let readAccess := T.readAccess path s
  let writeAccess := T.writeAccess path s
  let retried := !readAccess || !writeAccess
  let after := T.attempt path s
  { file := file
    id := some
      { type := ProtoEnum.toI32 t, major := T.major (T.rdev a), minor := T.minor (T.rdev a) }
    permissions := s.mode &&& (S_IRWXU ||| S_IRWXG ||| S_IRWXO)
    user := s.user
    group := s.group
    readAccess := if retried then readAccess || T.readAccess path after else readAccess
    writeAccess := if retried then writeAccess || T.writeAccess path after else writeAccess }

section

variable [DecidableEq ι]

/-- `Device::from_dev_file`, with the nodes that it leaves. -/
def fromDevFile (nodes : ι → Inode) (p : π) : Except Error Device × (ι → Inode) :=
  match T.locate nodes p with
  | .error e => (.error e, nodes)
  | .ok (path, a, t) =>
    -- the attempt comes before the path is found not to be a text
    let left := Function.update nodes a (T.attempt path (nodes a))
    match T.toStr path with
    | none => (.error (.deviceError (T.display path) none), left)
    | some file => (.ok (T.record path a t file (nodes a)), left)

/-- The paths of the entries that are no directories. -/
def files : List π :=
  ((T.walk.filterMap Except.toOption).filter fun entry => !entry.2).map Prod.fst

/-- A visit to an entry. Errors are logged. -/
def collect (acc : HashSet Device × (ι → Inode)) (p : π) : HashSet Device × (ι → Inode) :=
  match T.fromDevFile acc.2 p with
  | (.ok device, nodes) => (acc.1.insert device, nodes)
  | (.error _, nodes) => (acc.1, nodes)

/-- `Device::parse_dev`. -/
def parseDev (env : Env) (nodes : ι → Inode) : Result (List Device) :=
  let devices := (T.files.foldl T.collect (∅, nodes)).1
  pure (devices.iter env.σ "parse_dev")

end

/-! ## What a visit leaves -/

section

variable {T} {path : π} {s s' : Inode}

theorem attributes_chown : (T.chown path s).attributes =
    if (T.chownTo path s.attributes).isOk then
      { s.attributes with user := T.uid, group := T.gid } else s.attributes := by
  unfold chown
  split <;> rfl

theorem attributes_chmod {m : UInt32} : (T.chmod path m s).attributes =
    if (T.chmodTo path m s.attributes).isOk then
      { s.attributes with permissions := m &&& (S_IRWXU ||| S_IRWXG ||| S_IRWXO) }
    else s.attributes := by
  have hdisjoint : S_IFMT &&& (S_IRWXU ||| S_IRWXG ||| S_IRWXO) = 0 := by decide
  unfold chmod
  split
  · simp only [Inode.attributes, or_and_distrib, UInt32.and_assoc, hdisjoint, UInt32.and_zero,
      UInt32.zero_or]
  · rfl

theorem readAccess_congr (h : s.attributes = s'.attributes) :
    T.readAccess path s = T.readAccess path s' := by
  rw [readAccess, readAccess, h]

theorem writeAccess_congr (h : s.attributes = s'.attributes) :
    T.writeAccess path s = T.writeAccess path s' := by
  rw [writeAccess, writeAccess, h]

/-- What the attempt leaves of the permissions and the owner depends on nothing else. -/
theorem attributes_attempt_congr (h : s.attributes = s'.attributes) :
    (T.attempt path s).attributes = (T.attempt path s').attributes := by
  simp only [attempt, readAccess_congr h, writeAccess_congr h]
  split_ifs <;> simp only [attributes_chmod, attributes_chown, h]

/-- Two visits record the same exactly when they find the same permissions and owner. -/
theorem record_eq_iff {a : ι} {t : DeviceType} {file : String} :
    T.record path a t file s = T.record path a t file s' ↔ s.attributes = s'.attributes := by
  constructor
  · intro h
    simp only [record, Device.mk.injEq] at h
    exact Attributes.ext h.2.2.1 h.2.2.2.1 h.2.2.2.2.1
  · intro h
    have hattempt : (T.attempt path s).attributes = (T.attempt path s').attributes :=
      attributes_attempt_congr h
    have hattributes := Attributes.ext_iff.mp h
    simp only [Inode.attributes] at hattributes
    simp only [record, readAccess_congr h, writeAccess_congr h, readAccess_congr hattempt,
      writeAccess_congr hattempt, hattributes]

/-! The attempt does not change what kind of file the node is. -/

theorem format_chown : (T.chown path s).mode &&& S_IFMT = s.mode &&& S_IFMT := by
  unfold chown
  split <;> rfl

theorem format_chmod {m : UInt32} (hm : m &&& S_IFMT = 0) :
    (T.chmod path m s).mode &&& S_IFMT = s.mode &&& S_IFMT := by
  unfold chmod
  split
  · rw [or_and_distrib, UInt32.and_assoc, UInt32.and_self, hm, UInt32.or_zero]
  · rfl

theorem format_attempt : (T.attempt path s).mode &&& S_IFMT = s.mode &&& S_IFMT := by
  unfold attempt
  dsimp only
  split_ifs <;> simp only [format_chmod (show (0o444 : UInt32) &&& S_IFMT = 0 by decide),
    format_chmod (show (0o666 : UInt32) &&& S_IFMT = 0 by decide), format_chown]

end

/-! ## Devices at paths -/

section

variable {T} {nodes nodes' : ι → Inode} {p path : π} {a : ι} {t : DeviceType}

theorem locate_eq_ok_iff : T.locate nodes p = .ok (path, a, t) ↔
    T.target p = .ok path ∧ T.metadata path = .ok a ∧
      DeviceType.tryFrom (nodes a).mode = .ok t := by
  constructor
  · intro h
    unfold locate at h
    cases htarget : T.target p with
    | error e => simp [htarget] at h
    | ok path' =>
      cases hmeta : T.metadata path' with
      | error e => simp [htarget, hmeta] at h
      | ok a' =>
        simp only [htarget, hmeta] at h
        split_ifs at h
        cases ht : DeviceType.tryFrom (nodes a').mode with
        | error e => simp [ht] at h
        | ok t' =>
          simp only [ht, Except.ok.injEq, Prod.mk.injEq] at h
          obtain ⟨rfl, rfl, rfl⟩ := h
          exact ⟨rfl, hmeta, ht⟩
  · rintro ⟨htarget, hmeta, ht⟩
    simp only [locate, htarget, hmeta, ht, if_neg (DeviceType.not_regular_of_tryFrom ht)]

/-- A path leads to one device. -/
theorem locate_unique {q : π} {b : ι} {t' : DeviceType} (h : T.locate nodes p = .ok (path, a, t))
    (h' : T.locate nodes q = .ok (path, b, t')) : a = b ∧ t = t' := by
  obtain ⟨-, ha, ht⟩ := locate_eq_ok_iff.mp h
  obtain ⟨-, hb, ht'⟩ := locate_eq_ok_iff.mp h'
  obtain rfl := Except.ok.inj (ha.symm.trans hb)
  exact ⟨rfl, Except.ok.inj (ht.symm.trans ht')⟩

/-- Where entries lead depends on what kinds of files the nodes are, and on nothing else. -/
theorem locate_eq_ok_congr (h : ∀ b, (nodes b).mode &&& S_IFMT = (nodes' b).mode &&& S_IFMT) :
    T.locate nodes p = .ok (path, a, t) ↔ T.locate nodes' p = .ok (path, a, t) := by
  rw [locate_eq_ok_iff, locate_eq_ok_iff, DeviceType.tryFrom_congr (h a)]

end

/-! ## Runs -/

/-- What visits leave of a node: each visit to it makes its attempt. -/
def left [DecidableEq ι] (nodes : ι → Inode) (visited : List π) (a : ι) : Inode :=
  visited.foldl (fun s p =>
    match T.locate nodes p with
    | .ok (path, b, _) => if b = a then T.attempt path s else s
    | .error _ => s) (nodes a)

/-- Any two visits to a device at the same path find the same permissions and the same owner. -/
def Undisturbed [DecidableEq ι] (nodes : ι → Inode) : Prop :=
  ∀ i j p q path a t, T.files[i]? = some p → T.files[j]? = some q →
    T.locate nodes p = .ok (path, a, t) → T.locate nodes q = .ok (path, a, t) →
    (T.toStr path).isSome →
    (T.left nodes (T.files.take i) a).attributes = (T.left nodes (T.files.take j) a).attributes

section

variable [DecidableEq ι] {T} {nodes nodes' : ι → Inode} {p path : π} {a : ι} {t : DeviceType}

theorem left_append_singleton (visited : List π) : T.left nodes (visited ++ [p]) a =
    match T.locate nodes p with
    | .ok (path, b, _) =>
      if b = a then T.attempt path (T.left nodes visited a) else T.left nodes visited a
    | .error _ => T.left nodes visited a := by
  simp only [left, List.foldl_append, List.foldl_cons, List.foldl_nil]

theorem format_left (visited : List π) :
    (T.left nodes visited a).mode &&& S_IFMT = (nodes a).mode &&& S_IFMT := by
  induction visited using List.reverseRecOn with
  | nil => rfl
  | append_singleton visited p ih =>
    rw [left_append_singleton]
    split
    · split_ifs
      · rw [format_attempt, ih]
      · exact ih
    · exact ih

/-- A visit adds a record of the device if its path is a text. -/
theorem mem_collect {acc : HashSet Device × (ι → Inode)} {d : Device} :
    d ∈ (T.collect acc p).1 ↔ d ∈ acc.1 ∨ ∃ path a t file,
      T.locate acc.2 p = .ok (path, a, t) ∧ T.toStr path = some file ∧
        d = T.record path a t file (acc.2 a) := by
  unfold collect fromDevFile
  rcases hlocate : T.locate acc.2 p with e | ⟨path, a, t⟩
  · simp
  · rcases hfile : T.toStr path with _ | file
    · simp [hfile]
    · simp [hfile]

theorem collect_snd {acc : HashSet Device × (ι → Inode)} : (T.collect acc p).2 =
    match T.locate acc.2 p with
    | .ok (path, a, _) => Function.update acc.2 a (T.attempt path (acc.2 a))
    | .error _ => acc.2 := by
  unfold collect fromDevFile
  rcases T.locate acc.2 p with e | ⟨path, a, t⟩
  · rfl
  · rcases hfile : T.toStr path with _ | file <;> simp [hfile]

/-- The nodes after visits. -/
theorem snd_foldl_collect (devices : HashSet Device) (visited : List π) :
    (visited.foldl T.collect (devices, nodes)).2 = T.left nodes visited := by
  induction visited using List.reverseRecOn with
  | nil => rfl
  | append_singleton visited p ih =>
    funext a
    rw [List.foldl_append, List.foldl_cons, List.foldl_nil, collect_snd, ih, left_append_singleton]
    have hiff : ∀ x, T.locate (T.left nodes visited) p = .ok x ↔ T.locate nodes p = .ok x :=
      fun _ => locate_eq_ok_congr fun _ => format_left visited
    rcases hlocate : T.locate nodes p with e | ⟨path, b, t⟩
    · rcases hlocate' : T.locate (T.left nodes visited) p with e' | x
      · rfl
      · rw [hiff x, hlocate] at hlocate'
        cases hlocate'
    · rw [(hiff _).mpr hlocate]
      simp only [Function.update_apply, eq_comm]
      split_ifs with hba
      · rw [hba]
      · rfl

/-- The devices that a run collects. -/
theorem mem_foldl_collect (visited : List π) (d : Device) :
    d ∈ (visited.foldl T.collect (∅, nodes)).1 ↔ ∃ i p path a t file, visited[i]? = some p ∧
      T.locate nodes p = .ok (path, a, t) ∧ T.toStr path = some file ∧
        d = T.record path a t file (T.left nodes (visited.take i) a) := by
  induction visited using List.reverseRecOn with
  | nil => simp
  | append_singleton visited p ih =>
    rw [List.foldl_append, List.foldl_cons, List.foldl_nil, mem_collect, ih, snd_foldl_collect]
    constructor
    · rintro (⟨i, q, path, a, t, file, hi, h⟩ | ⟨path, a, t, file, hlocate, h⟩)
      · have hlt := (List.getElem?_eq_some_iff.mp hi).1
        refine ⟨i, q, path, a, t, file, by rwa [List.getElem?_append_left hlt], ?_⟩
        rwa [List.take_append_of_le_length hlt.le]
      · refine ⟨visited.length, p, path, a, t, file, by simp, ?_, ?_⟩
        · exact (locate_eq_ok_congr fun _ => format_left visited).mp hlocate
        · rwa [List.take_left]
    · rintro ⟨i, q, path, a, t, file, hi, hlocate, h⟩
      rcases lt_or_ge i visited.length with hlt | hge
      · rw [List.getElem?_append_left hlt] at hi
        rw [List.take_append_of_le_length hlt.le] at h
        exact Or.inl ⟨i, q, path, a, t, file, hi, hlocate, h⟩
      · rw [List.getElem?_append_right hge, List.getElem?_singleton] at hi
        split_ifs at hi with hzero
        obtain rfl := Option.some.inj hi
        obtain rfl : i = visited.length := by omega
        rw [List.take_left] at h
        exact Or.inr ⟨path, a, t, file,
          (locate_eq_ok_congr fun _ => format_left visited).mpr hlocate, h⟩

/-- The devices that are listed have different paths. -/
theorem nodup_iter_iff (env : Env) {devices : HashSet Device} :
    ((devices.iter env.σ "parse_dev").map Device.file).Nodup ↔
      ∀ d ∈ devices, ∀ d' ∈ devices, d.file = d'.file → d = d' := by
  have hnodup := devices.nodup_iter env.σ "parse_dev"
  rw [List.nodup_map_iff_inj_on hnodup]
  simp only [HashSet.mem_iter]

/-- A path is listed once exactly if all visits to it find the same permissions and the same
owner. -/
theorem parseDev_listsOnce_iff (env : Env) (nodes : ι → Inode) :
    (∃ devices, T.parseDev env nodes = .ok devices ∧ (devices.map Device.file).Nodup) ↔
      T.Undisturbed nodes := by
  have hrun : (∃ devices, T.parseDev env nodes = .ok devices ∧
      (devices.map Device.file).Nodup) ↔ ∀ d ∈ (T.files.foldl T.collect (∅, nodes)).1,
        ∀ d' ∈ (T.files.foldl T.collect (∅, nodes)).1, d.file = d'.file → d = d' := by
    rw [← nodup_iter_iff env]
    exact ⟨fun ⟨_, h, hn⟩ => Outcome.ok.inj h ▸ hn, fun hn => ⟨_, rfl, hn⟩⟩
  rw [hrun]
  constructor
  · intro h i j p q path a t hi hj hp hq hfile
    obtain ⟨file, hfile⟩ := Option.isSome_iff_exists.mp hfile
    have hd := (mem_foldl_collect _ _).mpr ⟨i, p, _, _, _, _, hi, hp, hfile, rfl⟩
    have hd' := (mem_foldl_collect _ _).mpr ⟨j, q, _, _, _, _, hj, hq, hfile, rfl⟩
    exact record_eq_iff.mp (h _ hd _ hd' rfl)
  · intro h d hd d' hd' he
    obtain ⟨i, p, path, a, t, file, hi, hp, hfile, rfl⟩ := (mem_foldl_collect _ _).mp hd
    obtain ⟨j, q, path', a', t', file', hj, hq, hfile', rfl⟩ := (mem_foldl_collect _ _).mp hd'
    obtain rfl : file = file' := he
    obtain rfl := T.toStr_inj _ _ _ hfile hfile'
    obtain ⟨rfl, rfl⟩ := locate_unique hp hq
    exact record_eq_iff.mpr (h i j p q path a t hi hj hp hq (by rw [hfile]; rfl))

/-- If no attempt changes the permissions or the owner of a device, then paths are listed once. -/
theorem undisturbed_of_attempt (h : ∀ path s, (T.attempt path s).attributes = s.attributes) :
    T.Undisturbed nodes := by
  suffices hleft : ∀ visited a, (T.left nodes visited a).attributes = (nodes a).attributes by
    intro i j p q path a t _ _ _ _ _
    rw [hleft, hleft]
  intro visited a
  induction visited using List.reverseRecOn with
  | nil => rfl
  | append_singleton visited p ih =>
    rw [left_append_singleton]
    split
    · split_ifs
      · rw [h, ih]
      · exact ih
    · exact ih

end

end DevTree

/-- Whether the permission bits let a process open the node. -/
def Device.Attributes.allows (uid gid : UInt32) (s : Attributes) (flag : OFlag) : Bool :=
  let bits := if s.user = uid then s.permissions >>> 6
    else if s.group = gid then s.permissions >>> 3
    else s.permissions
  match flag with
  | .rdonly => bits &&& 4 ≠ 0
  | .wronly => bits &&& 2 ≠ 0

/-- The major number of a device on Linux. -/
def Device.majorOf (dev : UInt64) : UInt32 :=
  UInt64.toUInt32 ((dev &&& 0x00000000000fff00) >>> 8 ||| (dev &&& 0xfffff00000000000) >>> 32)

/-- The minor number of a device on Linux. -/
def Device.minorOf (dev : UInt64) : UInt32 :=
  UInt64.toUInt32 ((dev &&& 0x00000000000000ff) >>> 0 ||| (dev &&& 0x00000ffffff00000) >>> 12)

/-- A disk with a link to it. The process may change owners and modes, but it is bound by the
permissions. -/
def linkedDisk : DevTree String Unit where
  walk := [.ok ("/dev/disk", false), .ok ("/dev/sda", false)]
  canonicalize _ := .ok "/dev/sda"
  readLink _ := .ok "sda"
  metadata _ := .ok ()
  rdev _ := 0x800
  major := majorOf
  minor := minorOf
  openAs _ flag s := if s.allows 0 0 flag then .ok () else .error .EACCES
  chownTo _ _ := .ok ()
  chmodTo _ _ _ := .ok ()
  uid := 0
  gid := 0
  toStr := some
  display := id
  toStr_inj _ _ _ h h' := Option.some.inj (h.trans h'.symm)

/-- The record of a visit that finds the disk with the permissions and the owner. -/
def diskRecord (permissions owner : UInt32) : Device where
  file := "/dev/sda"
  id := some { type := ProtoEnum.toI32 DeviceType.block, major := 8, minor := 0 }
  permissions := permissions
  user := owner
  group := owner
  readAccess := true
  writeAccess := true

/-- The disk is listed with its owner and its permissions, and with those that the first visit gives
it. -/
theorem linkedDisk_listedTwice :
    linkedDisk.parseDev .logging (fun _ => ⟨0o060600, 1000, 1000⟩) =
      .ok [diskRecord 0o600 1000, diskRecord 0o666 0] ∧
    ¬ ∃ devices, linkedDisk.parseDev .logging (fun _ => ⟨0o060600, 1000, 1000⟩) = .ok devices ∧
      (devices.map Device.file).Nodup := by
  have hrun : linkedDisk.parseDev .logging (fun _ => ⟨0o060600, 1000, 1000⟩) =
      .ok [diskRecord 0o600 1000, diskRecord 0o666 0] := by decide +kernel
  refine ⟨hrun, ?_⟩
  rintro ⟨devices, h, hnodup⟩
  obtain rfl := Outcome.ok_unique hrun h
  exact absurd hnodup (by decide)

end Checkc
