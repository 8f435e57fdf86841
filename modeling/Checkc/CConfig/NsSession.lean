import Checkc.CConfig.Descriptors
import Checkc.CConfig.UserNs
import Checkc.Rust.Session

/-! # Namespace queries of a run

The hierarchies and the search for another user namespace with the same users go on after a query
that fails. Such a query may leave a descriptor open, which the rest of the run then has. What is
reported does not depend on the descriptors that are open.
-/

namespace Checkc

open Session (Agrees Follows agrees_bind agrees_pure follows_lift follows_pure)

namespace Descriptors

/-- Leave out the calls that return an error. -/
def keepOk {α : Type} (m : Session Table Error α) : Session Table Error (Option α) where
  run t := (Ns.keepOk (m.run t).1, (m.run t).2)

section

variable (A : Allocator) (k : Ns.Kernel)

/-- `Info::info_by_ns_type`. -/
def infoByNsType (pid : PidT) (nsType : NsType) : Session Table Error Ns.Info := do
  -- the file that is opened here is closed again at each return
  let id ← .lift (Ns.Id.fromType k pid nsType)
  let owner ← ⟨nsGetOwnerUserNs A k pid nsType⟩
  pure { type := ProtoEnum.toI32 nsType, id := some id, owner := some owner }

/-- `Info::parse_proc_ns`. -/
def parseProcNs (pid : PidT) : Session Table Error (HashSet Ns.Info) :=
  NsType.list.foldlM (fun nsSet nsType => do
    let info ← infoByNsType A k pid nsType
    pure (nsSet.insert info)) ∅

/-- The pairs of parent and namespace of all processes that can be queried. -/
def idMap (fuel : ℕ) (nsType : NsType) (pids : List PidT) :
    Session Table Error (List (Ns.Id × Ns.Id)) :=
  pids.foldlM (fun idMap pid => do
    let chain ← keepOk ⟨nsGetParentNs A k fuel pid nsType⟩
    pure (idMap ++ chain.getD [])) []

/-- `Hierarchy::create_hierarchy`. -/
def createHierarchy (env : Env) (procDir : Ns.ProcDir) (fuel : ℕ) (nsType : NsType) :
    Session Table Error Ns.Internal.Hierarchy := do
  let pids ← .lift (Ns.procPids procDir)
  let idMap ← idMap A k fuel nsType pids
  let (root, _) ← .lift (unwrap (idMap.find? fun m => m.1 = m.2))
  pure (Ns.Internal.populate env root idMap)

/-- `ns_config`. -/
def nsConfig (env : Env) (procDir : Ns.ProcDir) (fuel : ℕ) (initPid cInitPid : PidT) :
    Session Table Error Ns.Config := do
  let nsSetInit ← parseProcNs A k initPid
  let nsSetCInit ← parseProcNs A k cInitPid
  let userHierarchy ← createHierarchy A k env procDir fuel .user
  let pidHierarchy ← createHierarchy A k env procDir fuel .pid
  pure
    { sharedHost := (nsSetCInit.inter nsSetInit).iter env.σ "shared_host"
      unshared := (nsSetCInit.iter env.σ "unshared").filter (· ∉ nsSetInit)
      userNsHierarchy := some (.fromInternal env userHierarchy)
      pidNsHierarchy := some (.fromInternal env pidHierarchy) }

/-- The body of the loop of `unique_mapping`. -/
def sharesMapping (checks : Bool) (files : PidT → IdMapping.Files)
    (userNs initUserNs : Ns.Info) (uidMapping : List IdMapping) (process : PidT) :
    Session Table Error Bool := do
  match ← keepOk (infoByNsType A k process .user) with
  | none => pure false
  | some processUserNs =>
    if processUserNs.id ≠ userNs.id ∧ processUserNs.owner = initUserNs.id ∧
        processUserNs.id ≠ initUserNs.id then
      .lift do
        let (processUidMap, _) ← IdMapping.fromPid files process
        processUidMap.anyM fun processEntry =>
          uidMapping.anyM (IdMapping.overlaps checks processEntry)
    else pure false

/-- `unique_mapping`. -/
def uniqueMapping (checks : Bool) (files : PidT → IdMapping.Files) (procDir : Ns.ProcDir)
    (pid : PidT) : Session Table Error Bool := do
  let userNs ← infoByNsType A k pid .user
  let (uidMapping, _) ← .lift (IdMapping.fromPid files pid)
  let initUserNs ← infoByNsType A k 1 .user
  let pids ← .lift (unwrapOk (getPidList procDir))
  let shared ← (pids.filter (· ≠ pid)).anyM
    (sharesMapping A k checks files userNs initUserNs uidMapping)
  pure !shared

/-- `user_ns_config`. -/
def userNsConfig (checks : Bool) (files : PidT → IdMapping.Files) (procDir : Ns.ProcDir)
    (pid : PidT) : Session Table Error UserNs.Config := do
  let (uidMap, gidMap) ← .lift (IdMapping.fromPid files pid)
  let uniqueMapping ← uniqueMapping A k checks files procDir pid
  pure { uidMap, gidMap, uniqueMapping }

end

/-! ## Tables that are left -/

/-- What was open is still open, and nothing was closed that was not open. -/
def Table.Grows (t t' : Table) : Prop := t.opened ⊆ t'.opened ∧ t'.faults = t.faults

theorem Table.Grows.trans {t t' t'' : Table} (h : t.Grows t') (h' : t'.Grows t'') : t.Grows t'' :=
  ⟨h.1.trans h'.1, h'.2.trans h.2⟩

theorem Table.grows_add (t : Table) (fd : ℕ) : t.Grows (t.add fd) :=
  ⟨Finset.subset_insert fd t.opened, rfl⟩

/-- Each query about a namespace gives back its descriptors. -/
def Answered (k : Ns.Kernel) : Prop :=
  ∀ pid nsType, OwnerAnswers (k.owner pid nsType) nsType ∧
    ((∃ e, (k.parent pid nsType).openNs = .error e) ∨
      ∀ n, Climbs (k.parent pid nsType) n → Answers (k.parent pid nsType) n)

theorem answered_withContainer : Answered .withContainer := by
  refine fun pid nsType => ⟨?_, Or.inr fun n _ => ⟨⟨_, rfl⟩, ?_⟩⟩
  · by_cases h : pid = 1 ∧ nsType = .user
    · exact Or.inr (Or.inr ⟨if_pos h, h.2, _, rfl⟩)
    · exact Or.inr (Or.inl (if_neg h))
  · by_cases h : pid = 1 ∨ n ≠ 0
    · exact Or.inr (if_pos h)
    · exact Or.inl (if_neg h)

/-- The queries leave no fewer descriptors open, and the same ones if all of them are answered. -/
def Kept (k : Ns.Kernel) (t t' : Table) : Prop := t.Grows t' ∧ (Answered k → t' = t)

instance (k : Ns.Kernel) : IsPreorder Table (Kept k) where
  refl _ := ⟨⟨Finset.Subset.refl _, rfl⟩, fun _ => rfl⟩
  trans _ _ _ h h' := ⟨h.1.trans h'.1, fun hk => (h'.2 hk).trans (h.2 hk)⟩

section

variable {A : Allocator} {k : Ns.Kernel}

/-- The loop leaves no fewer descriptors open than there were before the one that it holds. -/
theorem grows_parentLoop {q : Ns.ParentQuery} {fuel n fd : ℕ} {id : Ns.Id}
    {result : List (Ns.Id × Ns.Id)} {t : Table} (hfd : fd ∉ t.opened) :
    t.Grows (parentLoop A q fuel n fd id result (t.add fd)).2 := by
  induction fuel generalizing n fd id result with
  | zero => exact t.grows_add fd
  | succ fuel ih =>
    have hfd' := A.fresh_notMem (t.add fd).opened
    rw [parentLoop]
    cases q.getParent n with
    | ok _ =>
      cases q.fstat (n + 1) with
      | error e => exact (t.grows_add fd).trans (Table.grows_add _ _)
      | ok parentId =>
        simp only [Table.close_add_add hfd hfd']
        exact ih (Table.not_mem_of_add hfd')
    | error errno =>
      dsimp only
      split_ifs
      · rw [Table.close_add hfd]
        exact ⟨Finset.Subset.refl _, rfl⟩
      · exact t.grows_add fd

theorem grows_nsGetParentNs (fuel : ℕ) (pid : PidT) (nsType : NsType) (t : Table) :
    t.Grows (nsGetParentNs A k fuel pid nsType t).2 := by
  unfold nsGetParentNs
  cases (k.parent pid nsType).openNs with
  | error e => exact ⟨Finset.Subset.refl _, rfl⟩
  | ok _ =>
    cases (k.parent pid nsType).fstat 0 with
    | error e => exact t.grows_add _
    | ok id => exact grows_parentLoop (A.fresh_notMem t.opened)

/-! ## The same results -/

theorem follows_keepOk {α : Type} {N : Table → Table → Prop} {m : Session Table Error α}
    {x : Result α} (h : Follows N m x) : Follows N (keepOk m) (Ns.keepOk x) := by
  intro t
  obtain ⟨hx, ht⟩ := h t
  refine ⟨congrArg Ns.keepOk hx, fun hr => ht ?_⟩
  cases x with
  | ok a | err e => trivial
  | panic msg | outOfFuel => exact hr

theorem follows_nsGetOwnerUserNs (pid : PidT) (nsType : NsType) :
    Follows (Kept k) ⟨nsGetOwnerUserNs A k pid nsType⟩ (Ns.nsGetOwnerUserNs k pid nsType) := by
  intro t
  have hx := nsGetOwnerUserNs_fst A k pid nsType t
  refine ⟨hx, fun hr => ?_⟩
  by_cases h : OwnerAnswers (k.owner pid nsType) nsType
  · rw [nsGetOwnerUserNs_closes h (hx ▸ hr)]
    exact refl_of (Kept k) t
  · rw [(nsGetOwnerUserNs_leaks h t).2]
    exact ⟨t.grows_add _, fun hk => absurd (hk pid nsType).1 h⟩

theorem follows_nsGetParentNs (fuel : ℕ) (pid : PidT) (nsType : NsType) :
    Follows (Kept k) ⟨nsGetParentNs A k fuel pid nsType⟩ (Ns.nsGetParentNs k fuel pid nsType) := by
  intro t
  have hx := nsGetParentNs_fst A k pid nsType fuel t
  refine ⟨hx, fun hr => ⟨grows_nsGetParentNs fuel pid nsType t, fun hk => ?_⟩⟩
  obtain ⟨ho, hf⟩ := givesBack_parent_iff.mpr (hk pid nsType).2 fuel t (hx ▸ hr)
  exact Table.ext ho hf

theorem follows_infoByNsType (pid : PidT) (nsType : NsType) :
    Follows (Kept k) (infoByNsType A k pid nsType) (Ns.Info.infoByNsType k pid nsType) :=
  (follows_lift _).bind fun _ _ => (follows_nsGetOwnerUserNs pid nsType).bind fun _ _ =>
    follows_pure _

theorem follows_parseProcNs (pid : PidT) :
    Follows (Kept k) (parseProcNs A k pid) (Ns.Info.parseProcNs k pid) :=
  Follows.foldlM (fun _ t _ => (follows_infoByNsType pid t).bind fun _ _ => follows_pure _) ∅

theorem follows_createHierarchy (env : Env) (procDir : Ns.ProcDir) (fuel : ℕ) (nsType : NsType) :
    Follows (Kept k) (createHierarchy A k env procDir fuel nsType)
      (Ns.Internal.createHierarchy env k procDir fuel nsType) := by
  refine (follows_lift _).bind fun pids _ => ?_
  have hmap : Follows (Kept k) (idMap A k fuel nsType pids) (Ns.idMap k fuel nsType pids) :=
    Follows.foldlM (fun _ pid _ => (follows_keepOk (follows_nsGetParentNs fuel pid nsType)).bind
      fun _ _ => follows_pure _) []
  exact hmap.bind fun _ _ => (follows_lift _).bind fun _ _ => follows_pure _

/-- Whatever descriptors are open, `ns_config` reports the same. -/
theorem follows_nsConfig (env : Env) (procDir : Ns.ProcDir) (fuel : ℕ) (initPid cInitPid : PidT) :
    Follows (Kept k) (nsConfig A k env procDir fuel initPid cInitPid)
      (Ns.nsConfig env k procDir fuel initPid cInitPid) := by
  refine (follows_parseProcNs initPid).bind fun _ _ => ?_
  refine (follows_parseProcNs cInitPid).bind fun _ _ => ?_
  refine (follows_createHierarchy env procDir fuel .user).bind fun _ _ => ?_
  exact (follows_createHierarchy env procDir fuel .pid).bind fun _ _ => follows_pure _

theorem follows_sharesMapping (checks : Bool) (files : PidT → IdMapping.Files)
    (userNs initUserNs : Ns.Info) (uidMapping : List IdMapping) (process : PidT) :
    Follows (Kept k) (sharesMapping A k checks files userNs initUserNs uidMapping process)
      (UserNs.sharesMapping checks k files userNs initUserNs uidMapping process) := by
  refine (follows_keepOk (follows_infoByNsType process .user)).bind fun info _ => ?_
  cases info with
  | none => exact follows_pure false
  | some processUserNs =>
    dsimp only
    split_ifs
    · exact follows_lift _
    · exact follows_pure false

theorem follows_uniqueMapping (checks : Bool) (files : PidT → IdMapping.Files)
    (procDir : Ns.ProcDir) (pid : PidT) :
    Follows (Kept k) (uniqueMapping A k checks files procDir pid)
      (UserNs.uniqueMapping checks k files procDir pid) := by
  refine (follows_infoByNsType pid .user).bind fun userNs _ => ?_
  refine (follows_lift _).bind fun maps _ => ?_
  refine (follows_infoByNsType 1 .user).bind fun initUserNs _ => ?_
  refine (follows_lift _).bind fun pids _ => ?_
  exact (Follows.anyM fun process _ => follows_sharesMapping checks files userNs initUserNs _
    process).bind fun _ _ => follows_pure _

/-- Whatever descriptors are open, `user_ns_config` reports the same. -/
theorem follows_userNsConfig (checks : Bool) (files : PidT → IdMapping.Files)
    (procDir : Ns.ProcDir) (pid : PidT) :
    Follows (Kept k) (userNsConfig A k checks files procDir pid)
      (UserNs.userNsConfig checks k files procDir pid) :=
  (follows_lift _).bind fun _ _ => (follows_uniqueMapping checks files procDir pid).bind fun _ _ =>
    follows_pure _

/-- The descriptors that `ns_config` leaves do not depend on the order in which it traverses
sets. -/
theorem agrees_nsConfig (env env' : Env) (procDir : Ns.ProcDir) (fuel : ℕ)
    (initPid cInitPid : PidT) :
    Agrees (nsConfig A k env procDir fuel initPid cInitPid)
      (nsConfig A k env' procDir fuel initPid cInitPid) fun _ _ => True := by
  have hierarchy : ∀ nsType, Agrees (createHierarchy A k env procDir fuel nsType)
      (createHierarchy A k env' procDir fuel nsType) fun _ _ => True := fun nsType =>
    agrees_bind fun _ => agrees_bind fun _ => agrees_bind fun _ => agrees_pure trivial
  refine agrees_bind fun _ => agrees_bind fun _ => ?_
  exact (hierarchy .user).bind fun _ _ _ => (hierarchy .pid).bind fun _ _ _ => agrees_pure trivial

end

end Descriptors

end Checkc
