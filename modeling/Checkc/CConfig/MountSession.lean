import Checkc.Rust.Session
import Checkc.CConfig.Descriptors
import Checkc.CConfig.FlagFiles

/-! # Joining mount namespaces

To search a mount namespace the process joins it, and it joins its own one again before it looks up
the next process. All paths are resolved in the namespace that it is in. The search that was
described without this state is refined by the one with it, as long as the process gets back to its
own namespace.
-/

namespace Checkc

open Outcome (bind_eq_ok pure_eq_ok)

open Descriptors (Allocator Table)

namespace Fs

/-- `SyscallError`, without the text for the error number. -/
structure SyscallError where
  name : String
  retval : Int
  errno : Errno
  deriving DecidableEq, Repr

/-- The errors of a collection. -/
inductive CollectError where
  | error (e : Error)
  | syscallError (e : SyscallError)
  deriving DecidableEq, Repr

/-- What is looked up by its path: the mount tables of all processes, a command line, the mount
namespace of a process, and a location that is searched by way of a process. -/
inductive Access where
  | mountinfos
  | cmdline (pid : PidT)
  | mntNs (pid : PidT)
  | search (pid : PidT) (location : String)
  deriving DecidableEq, Repr

/-- The state of the process: its mount namespace, its working directory, its open descriptors with
the namespaces that they refer to, and what it has looked up in which namespace. -/
structure Process where
  mntns : Ns.Id
  cwd : PathBuf
  table : Table
  refers : ℕ → Ns.Id
  accesses : List (Access × Ns.Id)

/-- The process has looked up something where it is. -/
def Process.look (s : Process) (a : Access) : Process :=
  { s with accesses := s.accesses ++ [(a, s.mntns)] }

/-- The process has opened the file of a mount namespace. -/
def Process.open (s : Process) (fd : ℕ) (target : Ns.Id) : Process :=
  { s with table := s.table.add fd, refers := Function.update s.refers fd target }

/-- What the system answers to the process. Answers about a path depend on the mount namespace in
which it is resolved. -/
structure MountKernel where
  alloc : Allocator
  ownPid : PidT
  currentDir : Except Errno Unit
  procDir : Ns.Id → Ns.ProcDir
  answers : Ns.Id → ℕ → Answers
  openNs : Ns.Id → PidT → Except Errno Ns.Id
  cmdline : Ns.Id → PidT → Except Errno (Except Errno String)
  rejoin : PidT → Except Errno Unit
  join : PidT → Except Errno Unit
  closeJoined : PidT → Except Errno Unit
  search : Ns.Id → PidT → String → List String
  restore : Except Errno Unit
  closeOwn : Except Errno Unit
  chdir : Except Errno Unit

/-! ## System calls -/

section

variable {ε α : Type}

/-- Look up a path in the mount namespace of the process. -/
def access (a : Access) (answer : Ns.Id → α) : Session Process ε α :=
  .step fun s => (answer s.mntns, s.look a)

/-- `setns` with a mount namespace, which leads to its root directory. -/
def setns (fd : ℕ) (answer : Except Errno Unit) : Session Process ε (Except Errno Unit) :=
  .step fun s =>
    match answer with
    | .error errno => (.error errno, s)
    | .ok () => (.ok (), { s with mntns := s.refers fd, cwd := "/" })

/-- `close`, which releases the descriptor even if it fails. -/
def close (fd : ℕ) (answer : Except Errno Unit) : Session Process ε (Except Errno Unit) :=
  .step fun s => (answer, { s with table := s.table.close fd })

/-- `set_current_dir`. -/
def setCurrentDir (path : PathBuf) (answer : Except Errno Unit) :
    Session Process ε (Except Errno Unit) :=
  .step fun s =>
    match answer with
    | .error errno => (.error errno, s)
    | .ok () => (.ok (), { s with cwd := path })

variable (K : MountKernel)

/-- `current_dir`. -/
def currentDir : Session Process CollectError PathBuf := do
  let cwd ← .step fun s => (s.cwd, s)
  match K.currentDir with
  | .error errno => .lift (.err (.error (.ioError errno)))
  | .ok () => pure cwd

/-- Open the mount namespace file of a process. -/
def openMntNs (pid : PidT) : Session Process ε (Except Errno ℕ) := do
  match ← access (.mntNs pid) fun ns => K.openNs ns pid with
  | .error errno => pure (.error errno)
  | .ok target => .step fun s =>
    let fd := K.alloc.fresh s.table.opened
    (.ok fd, s.open fd target)

/-- `join_ns_by_path`, for the mount namespace of a process. -/
def joinNsByPath (pid : PidT) : Session Process SyscallError Unit := do
  match ← openMntNs K pid with
  | .error errno => .lift (.err ⟨"open", -1, errno⟩)
  | .ok fd =>
    match ← setns fd (K.join pid) with
    | .error errno => do
      let _ ← close fd (K.closeJoined pid)
      .lift (.err ⟨"setns", -1, errno⟩)
    | .ok () =>
      match ← close fd (K.closeJoined pid) with
      -- the error bears the name of the other call
      | .error errno => .lift (.err ⟨"open", -1, errno⟩)
      | .ok () => pure ()

end

namespace Joined

variable (K : MountKernel)

/-! ## The search -/

/-- Search the mount point of an entry. -/
def searchFlags (pid : PidT) (flagFiles : List String) (mp : String) :
    Session Process Error (List String) := do
  let location ← .lift (searchLocation mp)
  let entries ← access (.search pid location) fun ns => K.search ns pid location
  pure (addLines flagFiles (entries.filter (· ≠ location)))

/-- Search a mount namespace by way of one of its processes, after the attempt to join the own one,
to which the descriptor refers. -/
def searchWith (checkcMountnsFd : ℕ) (mountns : MountNamespace) (pid : PidT) :
    Session Process Error (Option (List String)) := do
  let _ ← setns checkcMountnsFd (K.rejoin pid)
  match ← access (.cmdline pid) fun ns => K.cmdline ns pid with
  | .error _ => pure none
  | .ok content => do
    let cmdline ← .lift (mapIoError s!"/proc/{pid}/cmdline" content)
    if cmdline.isEmpty then pure none
    else
      match ← (joinNsByPath K pid).attempt with
      | .error _ => pure none
      | .ok () => do
        let flagFiles ← mountns.mountinfo.foldlM (searchFlags K pid) mountns.flagFiles
        pure (some flagFiles)

/-- Search a mount namespace by way of the first of its processes with which this works. -/
def searchNamespace (checkcMountnsFd : ℕ) (mountns : MountNamespace) :
    List PidT → Session Process Error MountNamespace
  | [] => pure mountns
  | pid :: pids => do
    match ← searchWith K checkcMountnsFd mountns pid with
    | none => searchNamespace checkcMountnsFd mountns pids
    | some flagFiles => pure { mountns with flagFiles }

/-- `process_mountpoints_host`. -/
def processMountpointsHost (pidCfg : Option (List PidT × Bool)) (checkcMountnsFd : ℕ) :
    Session Process Error (List MountNamespace) := do
  let found ← access .mountinfos fun ns => getMountinfos (K.procDir ns) (K.answers ns) pidCfg
  let protoFsConfig ← .lift found
  protoFsConfig.mapM fun mountns => searchNamespace K checkcMountnsFd mountns mountns.nsPids

end Joined

section

variable (K : MountKernel)

/-- The end of a collection: join the own mount namespace, close its descriptor and go back to the
working directory. Failures are only logged. -/
def giveBack {ε : Type} (checkcMountnsFd : ℕ) (checkcCwd : PathBuf) : Session Process ε Unit := do
  let _ ← setns checkcMountnsFd K.restore
  let _ ← close checkcMountnsFd K.closeOwn
  let _ ← setCurrentDir checkcCwd K.chdir
  pure ()

/-- `fs_config_generic`. -/
def fsConfigGeneric (fMp : ℕ → Session Process Error (List MountNamespace)) :
    Session Process CollectError (List MountNamespace) := do
  let checkcCwd ← currentDir K
  match ← openMntNs K K.ownPid with
  | .error errno => .lift (.err (.syscallError ⟨"open", -1, errno⟩))
  | .ok checkcMountnsFd => do
    let rFsConfig ← (fMp checkcMountnsFd).attempt
    giveBack K checkcMountnsFd checkcCwd
    match rFsConfig with
    | .error e => .lift (.err (.error e))
    | .ok fsConfig => pure fsConfig

/-- `fs_config_hostview`. -/
def fsConfigHostview (pidList : List PidT) (includeMode : Bool) :
    Session Process CollectError (List MountNamespace) :=
  fsConfigGeneric K (Joined.processMountpointsHost K (some (pidList, includeMode)))

/-- `fs_config_container`. -/
def fsConfigContainer (os : List String → String → FlagAnswer) (uuid : String) :
    Session Process CollectError (List MountNamespace) :=
  fsConfigGeneric K fun _ => do
    let found ← access .mountinfos fun ns =>
      processMountpointsContainer (K.procDir ns) (K.answers ns) os uuid
    let (_, mountNamespaces) ← .lift found
    pure mountNamespaces

end

/-! ## Lookups -/

/-- The attempt to join the own namespace before the process is looked up fails. -/
def MountKernel.Stays (K : MountKernel) (pid : PidT) : Prop := ∃ errno, K.rejoin pid = .error errno

/-- Processes are looked up in the own namespace, unless it cannot be joined, and a location is
searched in the namespace to which the file of the process refers. -/
def Access.Allowed (K : MountKernel) (own : Ns.Id) : Access → Ns.Id → Prop
  | .mountinfos, ns => ns = own
  | .cmdline pid, ns => ns = own ∨ K.Stays pid
  | .mntNs pid, ns => ns = own ∨ K.Stays pid
  | .search pid _, ns => ∃ ns₀, (ns₀ = own ∨ K.Stays pid) ∧ K.openNs ns₀ pid = .ok ns

/-- The process has these descriptors, one of which refers to the own namespace, and it has looked
up nothing since that is not allowed. -/
structure Holding (K : MountKernel) (fd : ℕ) (own : Ns.Id) (t : Table)
    (base : List (Access × Ns.Id)) (s : Process) : Prop where
  table : s.table = t
  refers : s.refers fd = own
  accesses : ∃ new, s.accesses = base ++ new ∧ ∀ p ∈ new, p.1.Allowed K own p.2

section

open Session (Triple Keeps Refines triple_step triple_lift triple_pure keeps_pure keeps_lift
  refines_pure refines_lift refines_step Yields yields_true yields_lift yields_pure yields_step)

variable {K : MountKernel} {fd : ℕ} {own target : Ns.Id} {t : Table}
  {base : List (Access × Ns.Id)} {s : Process} {pid : PidT} {ε α : Type}

theorem Holding.look {a : Access} (h : Holding K fd own t base s) (ha : a.Allowed K own s.mntns) :
    Holding K fd own t base (s.look a) where
  table := h.table
  refers := h.refers
  accesses := by
    obtain ⟨new, hnew, hall⟩ := h.accesses
    refine ⟨new ++ [(a, s.mntns)], by simp [Process.look, hnew], ?_⟩
    rw [List.forall_mem_append, List.forall_mem_singleton]
    exact ⟨hall, ha⟩

/-- A descriptor that was opened and closed again does not matter. -/
theorem Holding.update (h : Holding K fd own t base s) (hfd : fd ∈ t.opened) {fd' : ℕ}
    (hfd' : fd' ∉ s.table.opened) :
    Holding K fd own t base { s with refers := Function.update s.refers fd' target } where
  table := h.table
  refers := by
    have hne : fd ≠ fd' := by
      rintro rfl
      exact hfd' (h.table ▸ hfd)
    exact (Function.update_of_ne hne _ _).trans h.refers
  accesses := h.accesses

theorem Holding.move (h : Holding K fd own t base s) (ns : Ns.Id) (cwd : PathBuf) :
    Holding K fd own t base { s with mntns := ns, cwd } :=
  ⟨h.table, h.refers, h.accesses⟩

/-- How joining the namespace of a process ends, if its file is looked up in this namespace. -/
def MountKernel.joins (K : MountKernel) (ns : Ns.Id) (pid : PidT) : Except SyscallError Unit :=
  match K.openNs ns pid with
  | .error errno => .error ⟨"open", -1, errno⟩
  | .ok _ =>
    match K.join pid with
    | .error errno => .error ⟨"setns", -1, errno⟩
    | .ok () =>
      match K.closeJoined pid with
      | .error errno => .error ⟨"open", -1, errno⟩
      | .ok () => .ok ()

/-- Joining the namespace of a process keeps the descriptors. If it succeeds, then the process is in
the namespace to which the file refers. -/
theorem run_joinNsByPath (hfd : fd ∈ t.opened) (hs : Holding K fd own t base s)
    (hns : s.mntns = own ∨ K.Stays pid) : ∃ s',
      ((joinNsByPath K pid).attempt : Session Process ε _).run s = (.ok (K.joins s.mntns pid), s') ∧
      Holding K fd own t base s' ∧
      (K.joins s.mntns pid = .ok () → K.openNs s.mntns pid = .ok s'.mntns) := by
  have hlook := hs.look (a := .mntNs pid) hns
  have hclose := Table.close_add (K.alloc.fresh_notMem s.table.opened)
  unfold MountKernel.joins
  cases ho : K.openNs s.mntns pid with
  | error errno =>
    refine ⟨_, ?_, hlook, nofun⟩
    simp [joinNsByPath, openMntNs, access, Session.run_attempt, Session.run_bind, Session.step, ho]
    exact ⟨rfl, rfl⟩
  | ok target =>
    have hopen : (openMntNs K pid : Session Process SyscallError _).run s =
        (.ok (.ok (K.alloc.fresh s.table.opened)),
          (s.look (.mntNs pid)).open (K.alloc.fresh s.table.opened) target) := by
      simp [openMntNs, access, Session.run_bind, Session.step, Process.look, ho]
    have hs₁ : Holding K fd own t base { s.look (.mntNs pid) with
        refers := Function.update s.refers (K.alloc.fresh s.table.opened) target } :=
      hlook.update hfd (K.alloc.fresh_notMem _)
    rw [Session.run_attempt, joinNsByPath, Session.bind_of_ok hopen]
    cases hj : K.join pid with
    | error errno =>
      refine ⟨_, ?_, hs₁, nofun⟩
      simp [setns, close, Session.run_bind, Session.step, Session.lift, Process.open, Process.look,
        Outcome.attempt, hclose]
    | ok _ =>
      refine ⟨_, ?_, hs₁.move target "/", fun _ => rfl⟩
      cases hc : K.closeJoined pid with
      | error errno =>
        simp [setns, close, Session.run_bind, Session.step, Session.lift, Process.open,
          Process.look, Outcome.attempt, hclose]
      | ok _ =>
        simp [setns, close, Session.run_bind, Session.step, Process.open, Process.look, hclose]
        exact ⟨rfl, rfl⟩

/-! ## Any run -/

/-- The process is about to look up another one, in its own namespace if it could join it. -/
def Before (K : MountKernel) (fd : ℕ) (own : Ns.Id) (t : Table) (base : List (Access × Ns.Id))
    (pid : PidT) (s : Process) : Prop :=
  Holding K fd own t base s ∧ (s.mntns = own ∨ K.Stays pid)

/-- The process is in the namespace to which the file of another one refers. -/
def Inside (K : MountKernel) (fd : ℕ) (own : Ns.Id) (t : Table) (base : List (Access × Ns.Id))
    (pid : PidT) (s : Process) : Prop :=
  Holding K fd own t base s ∧
    ∃ ns₀, (ns₀ = own ∨ K.Stays pid) ∧ K.openNs ns₀ pid = .ok s.mntns

theorem triple_rejoin {E : Process → Prop} : Triple (Holding K fd own t base)
    (setns fd (K.rejoin pid) : Session Process ε _) (fun _ => Before K fd own t base pid) E := by
  apply triple_step
  intro s hs
  cases hr : K.rejoin pid with
  | error errno => exact ⟨hs, Or.inr ⟨errno, hr⟩⟩
  | ok _ => exact ⟨hs.move _ _, Or.inl hs.refers⟩

theorem keeps_searchFlags (flagFiles : List String) (mp : String) :
    Keeps (Inside K fd own t base pid) (Joined.searchFlags K pid flagFiles mp) := by
  refine (keeps_lift _).bind fun location => ?_
  refine Keeps.bind (triple_step fun s hs => ?_) fun entries => keeps_pure _
  exact ⟨hs.1.look hs.2, hs.2⟩

theorem keeps_searchWith (hfd : fd ∈ t.opened) (mountns : MountNamespace) (pid : PidT) :
    Keeps (Holding K fd own t base) (Joined.searchWith K fd mountns pid) := by
  refine Triple.bind triple_rejoin fun _ => ?_
  refine Triple.bind (R := fun _ => Before K fd own t base pid) (triple_step fun s hs => ?_)
    fun content => ?_
  · exact ⟨hs.1.look hs.2, hs.2⟩
  cases content with
  | error errno => exact triple_pure fun s hs => hs.1
  | ok content =>
    refine Triple.bind (R := fun _ => Before K fd own t base pid) (triple_lift fun s hs => ?_)
      fun cmdline => ?_
    · cases content with
      | error errno => exact hs.1
      | ok cmdline => exact hs
    split_ifs
    · exact triple_pure fun s hs => hs.1
    refine Triple.bind (R := fun r s => Holding K fd own t base s ∧
      (r = .ok () → Inside K fd own t base pid s)) ?_ fun r => ?_
    · rintro s ⟨hs, hns⟩
      obtain ⟨s', hr, hs', hin⟩ := run_joinNsByPath (ε := Error) hfd hs hns
      rw [hr]
      exact ⟨hs', fun h => ⟨hs', s.mntns, hns, hin h⟩⟩
    cases r with
    | error e => exact triple_pure fun s hs => hs.1
    | ok _ =>
      have hloop : Keeps (Inside K fd own t base pid) _ :=
        .foldlM (fun flagFiles mp _ => keeps_searchFlags (K := K) flagFiles mp) mountns.flagFiles
          (l := mountns.mountinfo)
      exact (hloop.bind fun flagFiles => keeps_pure (some flagFiles)).conseq (fun _ hs => hs.2 rfl)
        (fun _ _ hs => hs.1) fun _ hs => hs.1

theorem keeps_searchNamespace (hfd : fd ∈ t.opened) (mountns : MountNamespace) (pids : List PidT) :
    Keeps (Holding K fd own t base) (Joined.searchNamespace K fd mountns pids) := by
  induction pids with
  | nil => exact keeps_pure mountns
  | cons pid pids ih =>
    refine (keeps_searchWith hfd mountns pid).bind fun r => ?_
    cases r with
    | none => exact ih
    | some flagFiles => exact keeps_pure _

theorem triple_processMountpointsHost (hfd : fd ∈ t.opened) (pidCfg : Option (List PidT × Bool)) :
    Triple (fun s => Holding K fd own t base s ∧ s.mntns = own)
      (Joined.processMountpointsHost K pidCfg fd) (fun _ => Holding K fd own t base)
      (Holding K fd own t base) := by
  refine Triple.bind (R := fun _ => Holding K fd own t base) (triple_step fun s hs => ?_)
    fun found => (keeps_lift found).bind fun mountNamespaces => ?_
  · exact hs.1.look hs.2
  · exact .mapM fun mountns _ => keeps_searchNamespace hfd mountns mountns.nsPids

/-- The process has what it had before, as long as the last calls did not fail. -/
structure GivenBack (K : MountKernel) (s s' : Process) : Prop where
  table : s'.table = s.table
  mntns : K.restore = .ok () → s'.mntns = s.mntns
  cwd : K.restore = .ok () → K.chdir = .ok () → s'.cwd = s.cwd

theorem run_giveBack (K : MountKernel) (fd : ℕ) (cwd : PathBuf) (s₂ : Process) :
    ∃ s₃, (giveBack K fd cwd : Session Process CollectError Unit).run s₂ = (.ok (), s₃) ∧
      s₃.accesses = s₂.accesses ∧ ∀ {s : Process} {base : List (Access × Ns.Id)},
        Holding K fd s.mntns (s.table.add fd) base s₂ → fd ∉ s.table.opened → s.cwd = cwd →
          GivenBack K s s₃ := by
  refine ⟨_, rfl, ?_, ?_⟩
  · cases K.restore <;> cases K.chdir <;> rfl
  · rintro s base h hfd rfl
    have hclose : s₂.table.close fd = s.table := by rw [h.table, Table.close_add hfd]
    constructor
    · cases K.restore <;> cases K.chdir <;> exact hclose
    · intro hrestore
      rw [hrestore]
      cases K.chdir <;> exact h.refers
    · intro hrestore hchdir
      rw [hrestore, hchdir]

/-- The outcome with its errors among those of a collection. -/
def collectOutcome : Result α → Outcome CollectError α
  | .ok a => .ok a
  | .err e => .err (.error e)
  | .panic msg => .panic msg
  | .outOfFuel => .outOfFuel

/-- A collection runs its function with the descriptor of its own mount namespace, and gives back
everything unless that panics. -/
theorem run_fsConfigGeneric (hown : K.openNs s.mntns K.ownPid = .ok s.mntns)
    (hcwd : K.currentDir = .ok ()) (fMp : ℕ → Session Process Error (List MountNamespace)) :
    ∃ fd ∉ s.table.opened, ∃ s₁,
      Holding K fd s.mntns (s.table.add fd) s.accesses s₁ ∧ s₁.mntns = s.mntns ∧
      ((fsConfigGeneric K fMp).run s).1 = collectOutcome ((fMp fd).run s₁).1 ∧
      (Holding K fd s.mntns (s.table.add fd) s.accesses ((fMp fd).run s₁).2 →
        (∃ new, ((fsConfigGeneric K fMp).run s).2.accesses = s.accesses ++ new ∧
          ∀ p ∈ new, p.1.Allowed K s.mntns p.2) ∧
        (((fMp fd).run s₁).1.Returns → GivenBack K s ((fsConfigGeneric K fMp).run s).2)) := by
  have hdir : (currentDir K).run s = (.ok s.cwd, s) := by
    simp [currentDir, Session.step, hcwd]
  have hopen : (openMntNs K K.ownPid : Session Process CollectError _).run s =
      (.ok (.ok (K.alloc.fresh s.table.opened)),
        (s.look (.mntNs K.ownPid)).open (K.alloc.fresh s.table.opened) s.mntns) := by
    simp [openMntNs, access, Session.run_bind, Session.step, Process.look, hown]
  have hfresh := K.alloc.fresh_notMem s.table.opened
  generalize K.alloc.fresh s.table.opened = fd at hopen hfresh
  refine ⟨fd, hfresh, (s.look (.mntNs K.ownPid)).open fd s.mntns, ⟨rfl, Function.update_self _ _ _,
    [(.mntNs K.ownPid, s.mntns)], rfl, by simp [Access.Allowed]⟩, rfl, ?_⟩
  rw [fsConfigGeneric, Session.bind_of_ok hdir, Session.bind_of_ok hopen]
  generalize (s.look (.mntNs K.ownPid)).open fd s.mntns = s₁
  rcases hr : (fMp fd).run s₁ with ⟨y, s₂⟩
  have hattempt : ((fMp fd).attempt : Session Process CollectError _).run s₁ =
      (y.attempt, s₂) := by
    rw [Session.run_attempt, hr]
  obtain ⟨s₃, hback, haccesses, hgiven⟩ := run_giveBack K fd s.cwd s₂
  have hleft : Holding K fd s.mntns (s.table.add fd) s.accesses s₂ →
      (∃ new, s₃.accesses = s.accesses ++ new ∧ ∀ p ∈ new, p.1.Allowed K s.mntns p.2) ∧
        GivenBack K s s₃ := fun hs₂ => ⟨haccesses ▸ hs₂.accesses, hgiven hs₂ hfresh rfl⟩
  cases y with
  | ok fsConfig | err e =>
    simp only [Session.bind_of_ok hattempt, Session.bind_of_ok hback]
    exact ⟨rfl, fun hs₂ => ⟨(hleft hs₂).1, fun _ => (hleft hs₂).2⟩⟩
  | panic msg | outOfFuel =>
    simp only [Session.bind_of_stop hattempt nofun]
    exact ⟨rfl, fun hs₂ => ⟨hs₂.accesses, False.elim⟩⟩

theorem returns_collectOutcome {x : Result α} : (collectOutcome x).Returns ↔ x.Returns := by
  cases x <;> rfl

/-- What a collection leaves, if its function keeps the descriptors. -/
theorem fsConfigGeneric_leaves {fMp : ℕ → Session Process Error (List MountNamespace)}
    (hown : ∀ ns, K.openNs s.mntns K.ownPid = .ok ns → ns = s.mntns)
    (hf : ∀ fd t base, fd ∈ t.opened →
      Triple (fun s' => Holding K fd s.mntns t base s' ∧ s'.mntns = s.mntns) (fMp fd)
        (fun _ => Holding K fd s.mntns t base) (Holding K fd s.mntns t base)) :
    (∃ new, ((fsConfigGeneric K fMp).run s).2.accesses = s.accesses ++ new ∧
      ∀ p ∈ new, p.1.Allowed K s.mntns p.2) ∧
    (((fsConfigGeneric K fMp).run s).1.Returns →
      GivenBack K s ((fsConfigGeneric K fMp).run s).2) := by
  cases hc : K.currentDir with
  | error errno =>
    have hr : (fsConfigGeneric K fMp).run s = (.err (.error (.ioError errno)), s) := by
      simp [fsConfigGeneric, currentDir, Session.run_bind, Session.step, Session.lift, hc]
    rw [hr]
    exact ⟨⟨[], by simp⟩, fun _ => ⟨rfl, fun _ => rfl, fun _ _ => rfl⟩⟩
  | ok _ =>
    cases ho : K.openNs s.mntns K.ownPid with
    | error errno =>
      have hr : (fsConfigGeneric K fMp).run s =
          (.err (.syscallError ⟨"open", -1, errno⟩), s.look (.mntNs K.ownPid)) := by
        simp [fsConfigGeneric, currentDir, openMntNs, access, Session.run_bind, Session.step,
          Session.lift, hc, ho]
      rw [hr]
      refine ⟨⟨[(.mntNs K.ownPid, s.mntns)], rfl, by simp [Access.Allowed]⟩, fun _ => ?_⟩
      exact ⟨rfl, fun _ => rfl, fun _ _ => rfl⟩
    | ok ns =>
      obtain rfl := hown ns ho
      obtain ⟨fd, -, s₁, hs₁, hns, hfst, hsnd⟩ := run_fsConfigGeneric ho hc fMp
      have hs₂ : Holding K fd s.mntns (s.table.add fd) s.accesses ((fMp fd).run s₁).2 := by
        have hend := hf fd _ s.accesses (Finset.mem_insert_self fd _) s₁ ⟨hs₁, hns⟩
        cases h : ((fMp fd).run s₁).1 <;> rw [h] at hend <;> exact hend
      rw [hfst, returns_collectOutcome]
      exact hsnd hs₂

theorem leaves_fsConfigHostview (hown : ∀ ns, K.openNs s.mntns K.ownPid = .ok ns → ns = s.mntns)
    (pidList : List PidT) (includeMode : Bool) :
    (∃ new, ((fsConfigHostview K pidList includeMode).run s).2.accesses = s.accesses ++ new ∧
      ∀ p ∈ new, p.1.Allowed K s.mntns p.2) ∧
    (((fsConfigHostview K pidList includeMode).run s).1.Returns →
      GivenBack K s ((fsConfigHostview K pidList includeMode).run s).2) :=
  fsConfigGeneric_leaves hown fun _ _ _ hfd => triple_processMountpointsHost hfd _

/-! ## Runs that get back to the own namespace -/

/-- What the search gets to know in its own mount namespace. -/
def MountKernel.host (K : MountKernel) (own : Ns.Id) : HostAnswers where
  cmdline := K.cmdline own
  join pid := (K.joins own pid).mapError (·.errno)
  search pid location :=
    match K.openNs own pid with
    | .error _ => []
    | .ok ns => K.search ns pid location

/-- The process is in this mount namespace. -/
def In (K : MountKernel) (fd : ℕ) (own : Ns.Id) (t : Table) (base : List (Access × Ns.Id))
    (ns : Ns.Id) (s : Process) : Prop :=
  Holding K fd own t base s ∧ s.mntns = ns

theorem refines_searchFlags {ns : Ns.Id} (ho : K.openNs own pid = .ok ns) (flagFiles : List String)
    (mp : String) : Refines (In K fd own t base ns) (Joined.searchFlags K pid flagFiles mp)
      (searchFlags (K.host own) pid flagFiles mp) (In K fd own t base ns) := by
  refine (refines_lift (searchLocation mp)).bind (fun location _ => ?_) fun _ hs => hs
  refine Refines.bind_ok (a := (K.host own).search pid location) (refines_step ?_) (refines_pure _)
  rintro s ⟨hs, rfl⟩
  refine ⟨?_, hs.look ⟨own, Or.inl rfl, ho⟩, rfl⟩
  simp only [MountKernel.host, ho]

theorem refines_searchWith (hrejoin : ∀ pid, K.rejoin pid = .ok ()) (hfd : fd ∈ t.opened)
    (mountns : MountNamespace) (pid : PidT) :
    Refines (Holding K fd own t base) (Joined.searchWith K fd mountns pid)
      (searchWith (K.host own) mountns pid) (Holding K fd own t base) := by
  refine Refines.bind_ok (a := .ok ()) (J := In K fd own t base own) (refines_step ?_) ?_
  · intro s hs
    rw [hrejoin]
    exact ⟨rfl, hs.move _ _, hs.refers⟩
  refine Refines.bind_ok (a := K.cmdline own pid) (J := In K fd own t base own)
    (refines_step ?_) ?_
  · rintro s ⟨hs, rfl⟩
    exact ⟨rfl, hs.look (Or.inl rfl), rfl⟩
  unfold searchWith
  change Refines _ _ (match K.cmdline own pid with | .error _ => _ | .ok content => _) _
  cases K.cmdline own pid with
  | error errno => exact (refines_pure none).weaken fun _ hs => hs.1
  | ok content =>
    refine (refines_lift _).bind (fun cmdline _ => ?_) fun _ hs => hs.1
    split_ifs
    · exact (refines_pure none).weaken fun _ hs => hs.1
    refine Refines.bind_ok (a := K.joins own pid) (J := fun s => Holding K fd own t base s ∧
      (K.joins own pid = .ok () → K.openNs own pid = .ok s.mntns)) ?_ ?_
    · rintro s ⟨hs, rfl⟩
      obtain ⟨s', hr, hs', hin⟩ := run_joinNsByPath (ε := Error) hfd hs (Or.inl rfl)
      rw [hr]
      exact ⟨rfl, hs', hin⟩
    have hhost : (K.host own).join pid = (K.joins own pid).mapError (·.errno) := rfl
    rw [hhost]
    cases hj : K.joins own pid with
    | error e => exact (refines_pure none).weaken fun _ hs => hs.1
    | ok _ =>
      cases ho : K.openNs own pid with
      | error errno => simp [MountKernel.joins, ho] at hj
      | ok ns =>
        have hloop := Refines.foldlM (I := In K fd own t base ns) (l := mountns.mountinfo)
          (fun flagFiles mp _ => refines_searchFlags ho flagFiles mp) mountns.flagFiles
        rintro s ⟨hs, hin⟩
        refine hloop.bind (fun flagFiles _ => ?_) (fun _ hs => hs.1) s ⟨hs, ?_⟩
        · exact (refines_pure (some flagFiles)).weaken fun _ hs => hs.1
        · exact Except.ok.inj (hin rfl).symm

theorem refines_searchNamespace (hrejoin : ∀ pid, K.rejoin pid = .ok ()) (hfd : fd ∈ t.opened)
    (mountns : MountNamespace) (pids : List PidT) :
    Refines (Holding K fd own t base) (Joined.searchNamespace K fd mountns pids)
      (searchNamespace (K.host own) mountns pids) (Holding K fd own t base) := by
  induction pids with
  | nil => exact refines_pure mountns
  | cons pid pids ih =>
    refine (refines_searchWith hrejoin hfd mountns pid).bind (fun r _ => ?_) fun _ hs => hs
    cases r with
    | none => exact ih
    | some flagFiles => exact refines_pure _

/-- If the process always gets back to its own mount namespace, then a collection finds what the
search finds that is carried out by way of its own namespace. -/
theorem fsConfigHostview_fst (hown : K.openNs s.mntns K.ownPid = .ok s.mntns)
    (hcwd : K.currentDir = .ok ()) (hrejoin : ∀ pid, K.rejoin pid = .ok ()) (pidList : List PidT)
    (includeMode : Bool) : ((fsConfigHostview K pidList includeMode).run s).1 =
      collectOutcome (processMountpointsHost (K.procDir s.mntns) (K.answers s.mntns)
        (K.host s.mntns) (some (pidList, includeMode))) := by
  obtain ⟨fd, -, s₁, hs₁, hns, hfst, -⟩ := run_fsConfigGeneric hown hcwd
    (Joined.processMountpointsHost K (some (pidList, includeMode)))
  have hrun : Refines (In K fd s.mntns (s.table.add fd) s.accesses s.mntns)
      (Joined.processMountpointsHost K (some (pidList, includeMode)) fd)
      (processMountpointsHost (K.procDir s.mntns) (K.answers s.mntns) (K.host s.mntns)
        (some (pidList, includeMode)))
      (Holding K fd s.mntns (s.table.add fd) s.accesses) := by
    refine Refines.bind_ok (J := Holding K fd s.mntns (s.table.add fd) s.accesses)
      (refines_step fun s' hs' => ⟨by rw [hs'.2], hs'.1.look hs'.2⟩) ?_
    refine (refines_lift _).bind (fun mountNamespaces _ => ?_) fun _ hs => hs
    exact .mapM fun mountns _ =>
      refines_searchNamespace hrejoin (Finset.mem_insert_self fd _) mountns mountns.nsPids
  exact hfst.trans (congrArg collectOutcome (hrun s₁ ⟨hs₁, hns⟩).1)

/-- In this mount namespace the process can always get back to it. -/
structure MountKernel.GetsBack (K : MountKernel) (own : Ns.Id) : Prop where
  openNs : K.openNs own K.ownPid = .ok own
  currentDir : K.currentDir = .ok ()
  rejoin : ∀ pid, K.rejoin pid = .ok ()
  restore : K.restore = .ok ()

/-- A collection that gets back is the search, and another one can follow it. -/
theorem MountKernel.GetsBack.yields (h : K.GetsBack own) (pidList : List PidT)
    (includeMode : Bool) :
    Yields (fun _ => True) (fun s => s.mntns = own) (fsConfigHostview K pidList includeMode)
      fun r => processMountpointsHost (K.procDir own) (K.answers own) (K.host own)
        (some (pidList, includeMode)) = .ok r := by
  rintro s ⟨-, rfl⟩
  have hfst := fsConfigHostview_fst h.openNs h.currentDir h.rejoin pidList includeMode
  have hback := (leaves_fsConfigHostview (fun ns hns => Except.ok.inj (hns.symm.trans h.openNs))
    pidList includeMode).2
  rw [hfst] at hback ⊢
  cases hr : processMountpointsHost (K.procDir s.mntns) (K.answers s.mntns) (K.host s.mntns)
      (some (pidList, includeMode)) with
  | ok r =>
    rw [hr] at hback
    exact ⟨rfl, trivial, (hback trivial).mntns h.restore⟩
  | err e | panic msg | outOfFuel => trivial

/-! ## Entries -/

theorem yields_fsConfigGeneric {fMp : ℕ → Session Process Error (List MountNamespace)}
    {V : List MountNamespace → Prop} (h : ∀ fd, Yields (fun _ => True) (fun _ => True) (fMp fd) V) :
    Yields (fun _ => True) (fun _ => True) (fsConfigGeneric K fMp) V := by
  refine yields_true.bind fun checkcCwd _ => yields_true.bind fun r _ => ?_
  cases r with
  | error errno => exact yields_lift nofun
  | ok fd =>
    refine (h fd).attempt.bind fun rFsConfig hr => yields_true.bind fun _ _ => ?_
    cases rFsConfig with
    | error e => exact yields_lift nofun
    | ok fsConfig => exact yields_pure (hr fsConfig rfl)

theorem yields_searchNamespace (fd : ℕ) (mountns : MountNamespace) (pids : List PidT) :
    Yields (fun _ => True) (fun _ => True) (Joined.searchNamespace K fd mountns pids)
      fun n => n = { mountns with flagFiles := n.flagFiles } := by
  induction pids with
  | nil => exact yields_pure rfl
  | cons pid pids ih =>
    refine yields_true.bind fun r _ => ?_
    cases r with
    | none => exact ih
    | some flagFiles => exact yields_pure rfl

theorem Listed.of_flagFiles {pidCfg : Option (List PidT × Bool)} {n n' : MountNamespace}
    (h : Listed pidCfg n) (hn : n' = { n with flagFiles := n'.flagFiles }) : Listed pidCfg n' := by
  rw [hn]
  exact ⟨h.nsId, h.nsPids⟩

theorem forall_listed {pidCfg : Option (List PidT × Bool)} {l l' : List MountNamespace}
    (hl : ∀ n ∈ l, Listed pidCfg n)
    (h : List.Forall₂ (fun n n' => n' = { n with flagFiles := n'.flagFiles }) l l') :
    ∀ n ∈ l', Listed pidCfg n := by
  intro n' hn'
  obtain ⟨n, hn, he⟩ := exists_mem_of_forall₂ h hn'
  exact (hl n hn).of_flagFiles he

/-- However the processes move while they are searched, a collection on the host lists no process
that its list leaves out. -/
theorem yields_fsConfigHostview (pidList : List PidT) (includeMode : Bool) :
    Yields (fun _ => True) (fun _ => True) (fsConfigHostview K pidList includeMode)
      fun r => ∀ n ∈ r, Listed (some (pidList, includeMode)) n := by
  refine yields_fsConfigGeneric fun fd => ?_
  refine Yields.bind (V := fun found => ∀ l, found = .ok l →
    ∀ n ∈ l, Listed (some (pidList, includeMode)) n) (yields_step fun s l hl => ?_)
      fun found hf => ?_
  · exact listed_getMountinfos hl
  refine (yields_lift fun l hl => hf l hl).bind fun l hl => ?_
  exact (Yields.mapM fun n _ => yields_searchNamespace fd n n.nsPids).conseq (fun _ hs => hs)
    (fun l' _ hs => ⟨forall_listed hl hs.1, trivial, trivial⟩) fun _ hs => hs

theorem listed_processMountpointsContainer {procDir : Ns.ProcDir} {answers : ℕ → Answers}
    {os : List String → String → FlagAnswer} {uuid : String} {tried : List String}
    {entries : List MountNamespace}
    (h : processMountpointsContainer procDir answers os uuid = .ok (tried, entries)) :
    ∀ n ∈ entries, Listed none n := by
  obtain ⟨l, hl, hflagged⟩ := flagged_processMountpointsContainer h
  exact forall_listed (listed_getMountinfos hl) (hflagged.imp fun _ _ hf => hf.same)

/-- A collection in the container is the walk through the mount points in some mount namespace. -/
theorem yields_fsConfigContainer (os : List String → String → FlagAnswer) (uuid : String) :
    Yields (fun _ => True) (fun _ => True) (fsConfigContainer K os uuid) fun entries =>
      ∃ ns tried, processMountpointsContainer (K.procDir ns) (K.answers ns) os uuid =
        .ok (tried, entries) := by
  refine yields_fsConfigGeneric fun fd => ?_
  refine Yields.bind (V := fun found => ∃ ns, found =
    processMountpointsContainer (K.procDir ns) (K.answers ns) os uuid)
      (yields_step fun s => ⟨s.mntns, rfl⟩) fun found ⟨ns, hf⟩ => ?_
  exact (yields_lift (V := fun r => found = .ok r) fun r hr => hr).bind fun r hr =>
    yields_pure ⟨ns, r.1, hf.symm.trans hr⟩

/-! ## Whatever the system answers -/

/-- Two mount namespaces, of which only that of the last process has flag files. -/
def twoNamespaces : MountKernel where
  alloc := Descriptors.lowestFree
  ownPid := 2
  currentDir := .ok ()
  procDir _ := threeProcesses
  answers _ := mountedAnswers
  openNs ns pid :=
    if ns = ⟨4, 10⟩ then .ok (if pid = 3 then ⟨4, 20⟩ else ⟨4, 10⟩) else .error .ENOENT
  cmdline _ _ := .ok (.ok "sh")
  rejoin _ := .ok ()
  join _ := .ok ()
  closeJoined _ := .ok ()
  search ns _ location :=
    if ns = ⟨4, 20⟩ then [location, location ++ "/xyz_checkc_flag"] else []
  restore := .ok ()
  closeOwn := .ok ()
  chdir := .ok ()

/-- A process with the standard descriptors. -/
def startProcess : Process where
  mntns := ⟨4, 10⟩
  cwd := "/root"
  table := Descriptors.standardTable
  refers _ := ⟨4, 10⟩
  accesses := []

theorem run_twoNamespaces : ((fsConfigHostview twoNamespaces [] false).run startProcess).1 = .ok
    [⟨some ⟨4, 10⟩, [1, 2], [], ["36 35 98:0 / /mnt rw - ext3 /dev/r rw"], []⟩,
      ⟨some ⟨4, 20⟩, [3], [], ["36 35 98:0 / /mnt rw - ext3 /dev/r rw"],
        ["/mnt/xyz_checkc_flag"]⟩] :=
  (fsConfigHostview_fst rfl rfl (fun _ => rfl) [] false).trans (by decide +kernel)

/-- Collections give back their descriptors, their mount namespace and their working directory,
whether they succeed or fail. -/
theorem fsConfig_givenBack (hown : ∀ ns, K.openNs s.mntns K.ownPid = .ok ns → ns = s.mntns) :
    (∀ pidList includeMode, ((fsConfigHostview K pidList includeMode).run s).1.Returns →
      GivenBack K s ((fsConfigHostview K pidList includeMode).run s).2) ∧
    ∀ os uuid, ((fsConfigContainer K os uuid).run s).1.Returns →
      GivenBack K s ((fsConfigContainer K os uuid).run s).2 := by
  constructor
  · intro pidList includeMode
    exact (leaves_fsConfigHostview hown pidList includeMode).2
  · intro os uuid
    refine (fsConfigGeneric_leaves hown fun fd t base _ => ?_).2
    refine Triple.bind (R := fun _ => Holding K fd s.mntns t base) (triple_step fun s' hs => ?_)
      fun found => (keeps_lift found).bind fun r => keeps_pure r.2
    exact hs.1.look hs.2

theorem fsConfig_givenBack_twoNamespaces : GivenBack twoNamespaces startProcess
    ((fsConfigHostview twoNamespaces [] false).run startProcess).2 :=
  (fsConfig_givenBack (s := startProcess) fun _ h => (Except.ok.inj h).symm).1 [] false
    (by rw [run_twoNamespaces]; trivial)

end

end Fs

end Checkc
