import Checkc.CConfig.Basic
import Checkc.Rust.Enumeration

/-! # Namespaces

Namespace types, namespace identifiers and the namespace part of a container
configuration, with the queries that `/proc/<pid>/ns` answers.
-/

namespace Checkc

/-- `c_config.ns.Type`. -/
inductive NsType where
  | unspecified | cgroup | ipc | network | mount | pid | time | user | uts
  deriving DecidableEq, Repr

namespace NsType

instance : ProtoEnum NsType where
  variants := [unspecified, cgroup, ipc, network, mount, pid, time, user, uts]
  toI32
    | unspecified => 0 | cgroup => 1 | ipc => 2 | network => 3 | mount => 4
    | pid => 5 | time => 6 | user => 7 | uts => 8
  mem_variants a := by cases a <;> decide
  nodup_codes := by decide

/-- The identifiers of the proto file. -/
def asStrName : NsType → String
  | unspecified => "TYPE_UNSPECIFIED"
  | cgroup => "TYPE_CGROUP"
  | ipc => "TYPE_IPC"
  | network => "TYPE_NETWORK"
  | mount => "TYPE_MOUNT"
  | pid => "TYPE_PID"
  | time => "TYPE_TIME"
  | user => "TYPE_USER"
  | uts => "TYPE_UTS"

/-- The `Display` text, which names the file below `/proc/<pid>/ns`. -/
def display : NsType → String
  | cgroup => "cgroup"
  | ipc => "ipc"
  | network => "net"
  | mount => "mnt"
  | pid => "pid"
  | time => "time"
  | user => "user"
  | uts => "uts"
  | unspecified => "UNSPECIFIED"

/-- The derived `Debug` text. -/
def debug : NsType → String
  | unspecified => "Unspecified"
  | cgroup => "Cgroup"
  | ipc => "Ipc"
  | network => "Network"
  | mount => "Mount"
  | pid => "Pid"
  | time => "Time"
  | user => "User"
  | uts => "Uts"

/-- The currently supported namespaces. -/
def list : List NsType := [cgroup, ipc, network, mount, pid, user, uts, time]

theorem mem_list {t : NsType} : t ∈ list ↔ t ≠ unspecified := by
  cases t <;> decide

end NsType

namespace Ns

/-- The device and inode number of a namespace file. -/
structure Id where
  stDev : UInt64
  stIno : UInt64
  deriving DecidableEq, Repr

/-- A namespace with its owning user namespace. -/
structure Info where
  type : Int
  id : Option Id
  owner : Option Id
  deriving DecidableEq, Repr

/-- The getter `r#type()`. -/
def Info.getType (i : Info) : NsType := ProtoEnum.getter .unspecified i.type

/-- The message form of a namespace hierarchy. -/
inductive Hierarchy where
  | mk (parent : Option Id) (children : List Hierarchy)

/-- The container namespaces not shared and shared with the host. -/
structure Config where
  unshared : List Info
  sharedHost : List Info
  userNsHierarchy : Option Hierarchy
  pidNsHierarchy : Option Hierarchy

/-! ## Queries -/

/-- Answers to `ns::Id::from_type`. -/
structure TypeQuery where
  openNs : Except Errno Unit
  metadata : Except Errno Id

/-- Answers to `ns_get_owner_user_ns`. -/
structure OwnerQuery where
  openNs : Except Errno Unit
  getUserns : Except Errno Unit
  fstat : Except Errno Id
  ownerMetadata : Except Errno Id

/-- Answers to `ns_get_parent_ns`. Descriptor `0` is the opened namespace file, and
descriptor `k + 1` is the one that `NS_GET_PARENT` returns for descriptor `k`. -/
structure ParentQuery where
  openNs : Except Errno Unit
  fstat : ℕ → Except Errno Id
  getParent : ℕ → Except Errno Unit

/-- What the kernel answers about the namespaces of each process. -/
structure Kernel where
  ofType : PidT → NsType → TypeQuery
  owner : PidT → NsType → OwnerQuery
  parent : PidT → NsType → ParentQuery

/-- The path `/proc/<pid>/ns/<type>`. -/
def nsPath (pid : PidT) (nsType : NsType) : String :=
  s!"/proc/{pid}/ns/{nsType.display}"

/-- `ns::Id::from_type`. -/
def Id.fromType (k : Kernel) (pid : PidT) (nsType : NsType) : Result Id :=
  match (k.ofType pid nsType).openNs with
  | .error e => .err (.myIoError (nsPath pid nsType) e)
  | .ok () => ioResult (k.ofType pid nsType).metadata

theorem Id.returns_fromType (k : Kernel) (pid : PidT) (t : NsType) :
    (fromType k pid t).Returns := by
  unfold fromType
  split
  · trivial
  · exact returns_ioResult _

/-- `ns::Id::from_fd`, given the answer of `fstat`. -/
def Id.fromFd : Except Errno Id → Result Id
  | .error e => .err (.nixError e)
  | .ok id => .ok id

/-- `ns_get_owner_user_ns`. -/
def nsGetOwnerUserNs (k : Kernel) (pid : PidT) (nsType : NsType) : Result Id :=
  match (k.owner pid nsType).openNs with
  | .error e => .err (.ioError e)
  | .ok () =>
    match (k.owner pid nsType).getUserns with
    | .error errno =>
      -- the initial user namespace has no owner and stands for itself
      if errno = Errno.EPERM ∧ nsType = .user then Id.fromFd (k.owner pid nsType).fstat
      else .err (.ioctlFailed errno)
    | .ok () =>
      match (k.owner pid nsType).ownerMetadata with
      | .error _ => .panic "called `Result::unwrap()` on an `Err` value"
      | .ok id => .ok id

namespace Info

/-- `Info::info_by_ns_type`. -/
def infoByNsType (k : Kernel) (pid : PidT) (nsType : NsType) : Result Info := do
  let id ← Id.fromType k pid nsType
  let owner ← nsGetOwnerUserNs k pid nsType
  pure { type := ProtoEnum.toI32 nsType, id := some id, owner := some owner }

/-- `Info::parse_proc_ns`: the set of `/proc/<pid>/ns` entries. -/
def parseProcNs (k : Kernel) (pid : PidT) : Result (HashSet Info) :=
  NsType.list.foldlM (fun nsSet nsType => do
    let info ← infoByNsType k pid nsType
    pure (nsSet.insert info)) ∅

theorem infoByNsType_eq_ok {k : Kernel} {pid : PidT} {t : NsType} {i : Info} :
    infoByNsType k pid t = .ok i ↔ ∃ id owner, Id.fromType k pid t = .ok id ∧
      nsGetOwnerUserNs k pid t = .ok owner ∧ i = ⟨ProtoEnum.toI32 t, some id, some owner⟩ := by
  simp only [infoByNsType, Outcome.bind_eq_ok, Outcome.pure_eq_ok]
  constructor
  · rintro ⟨id, hid, owner, ho, rfl⟩
    exact ⟨id, owner, hid, ho, rfl⟩
  · rintro ⟨id, owner, hid, ho, rfl⟩
    exact ⟨id, hid, owner, ho, rfl⟩

/-- The set that `parse_proc_ns` returns has exactly the entries of the listed types. -/
theorem parseProcNs_eq_ok {k : Kernel} {pid : PidT} {s : HashSet Info} :
    parseProcNs k pid = .ok s ↔ ∃ infos,
      List.Forall₂ (fun t i => infoByNsType k pid t = .ok i) NsType.list infos ∧
        s = HashSet.ofList infos :=
  foldlM_bind_eq_ok

end Info

end Ns

end Checkc
