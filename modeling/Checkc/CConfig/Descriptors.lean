import Checkc.CConfig.Hierarchy
import Mathlib.Data.Finset.Insert
import Mathlib.Data.Fintype.EquivFin

/-! # Descriptors of namespace queries

The namespace queries give up the ownership of a descriptor when they open a namespace and take it
back before they return. Returns between the two leave the descriptor open.
-/

namespace Checkc

namespace Descriptors

/-- The open descriptors of the process, and those that were closed while they were not open. -/
@[ext]
structure Table where
  opened : Finset ℕ
  faults : List ℕ

/-- The choice of a new descriptor. -/
structure Allocator where
  fresh : Finset ℕ → ℕ
  fresh_notMem : ∀ s, fresh s ∉ s

/-- The table with one more open descriptor. -/
def Table.add (t : Table) (fd : ℕ) : Table := { t with opened := insert fd t.opened }

/-- Closing a descriptor, as dropping its `File` does. -/
def Table.close (t : Table) (fd : ℕ) : Table :=
  if fd ∈ t.opened then { t with opened := t.opened.erase fd }
  else { t with faults := fd :: t.faults }

/-- `ns_get_owner_user_ns`, with the table that it leaves. -/
def nsGetOwnerUserNs (A : Allocator) (k : Ns.Kernel) (pid : PidT) (nsType : NsType) (t : Table) :
    Result Ns.Id × Table :=
  match (k.owner pid nsType).openNs with
  | .error e => (.err (.ioError e), t)
  | .ok () =>
    let fd := A.fresh t.opened
    let t := t.add fd
    match (k.owner pid nsType).getUserns with
    | .error errno =>
      if errno = Errno.EPERM ∧ nsType = .user then
        match (k.owner pid nsType).fstat with
        | .error e => (.err (.nixError e), t)
        | .ok id => (.ok id, t.close fd)
      else (.err (.ioctlFailed errno), t)
    | .ok () =>
      let ownerFd := A.fresh t.opened
      let t := t.add ownerFd
      match (k.owner pid nsType).ownerMetadata with
      | .error _ => (.panic "called `Result::unwrap()` on an `Err` value", t.close ownerFd)
      | .ok id => (.ok id, (t.close fd).close ownerFd)

/-- The loop of `ns_get_parent_ns`. -/
def parentLoop (A : Allocator) (q : Ns.ParentQuery) :
    ℕ → ℕ → ℕ → Ns.Id → List (Ns.Id × Ns.Id) → Table → Result (List (Ns.Id × Ns.Id)) × Table
  | 0, _, _, _, _, t => (.outOfFuel, t)
  | fuel + 1, n, fd, id, result, t =>
    match q.getParent n with
    | .ok () =>
      let parentFd := A.fresh t.opened
      let t := t.add parentFd
      match q.fstat (n + 1) with
      | .error e => (.err (.nixError e), t)
      | .ok parentId =>
        parentLoop A q fuel (n + 1) parentFd parentId (result ++ [(parentId, id)]) (t.close fd)
    | .error errno =>
      if errno = Errno.EPERM then (.ok (result ++ [(id, id)]), t.close fd)
      else (.err (.ioctlFailed errno), t)

/-- `ns_get_parent_ns`, with the table that it leaves. -/
def nsGetParentNs (A : Allocator) (k : Ns.Kernel) (fuel : ℕ) (pid : PidT) (nsType : NsType)
    (t : Table) : Result (List (Ns.Id × Ns.Id)) × Table :=
  match (k.parent pid nsType).openNs with
  | .error e => (.err (.ioError e), t)
  | .ok () =>
    let fd := A.fresh t.opened
    let t := t.add fd
    match (k.parent pid nsType).fstat 0 with
    | .error e => (.err (.nixError e), t)
    | .ok id => parentLoop A (k.parent pid nsType) fuel 0 fd id [] t

/-- A call that returns leaves the open descriptors as they were and closes none that is not
open. -/
def GivesBack {α : Type} (call : Table → Result α × Table) : Prop :=
  ∀ t, (call t).1.Returns → (call t).2.opened = t.opened ∧ (call t).2.faults = t.faults

/-! ## Tables -/

section

variable {A : Allocator} {t : Table} {fd fd' : ℕ}

theorem Table.close_add (h : fd ∉ t.opened) : (t.add fd).close fd = t := by
  rw [close, add, if_pos (Finset.mem_insert_self fd t.opened)]
  simp [Finset.erase_insert h]

/-- Closing the older one of two descriptors leaves the newer one. -/
theorem Table.close_add_add (h : fd ∉ t.opened) (h' : fd' ∉ (t.add fd).opened) :
    ((t.add fd).add fd').close fd = t.add fd' := by
  have hne : fd' ≠ fd := fun he => h' (he ▸ Finset.mem_insert_self fd t.opened)
  have hmem : fd ∈ ((t.add fd).add fd').opened :=
    Finset.mem_insert_of_mem (Finset.mem_insert_self fd t.opened)
  rw [close, if_pos hmem, add, add, add]
  simp [Finset.erase_insert_of_ne hne, Finset.erase_insert h]

theorem Table.opened_add_ne (h : fd ∉ t.opened) : (t.add fd).opened ≠ t.opened := fun he =>
  h (he ▸ Finset.mem_insert_self fd t.opened)

theorem Table.opened_add_add_ne (h : fd ∉ t.opened) : ((t.add fd).add fd').opened ≠ t.opened :=
  fun he => h (he ▸ Finset.mem_insert_of_mem (Finset.mem_insert_self fd t.opened))

theorem Table.not_mem_of_add (h : fd' ∉ (t.add fd).opened) : fd' ∉ t.opened := fun hm =>
  h (Finset.mem_insert_of_mem hm)

end

/-! ## Refinement -/

variable (A : Allocator) (k : Ns.Kernel) (pid : PidT) (nsType : NsType)

/-- The result of a query does not depend on the table. -/
theorem nsGetOwnerUserNs_fst (t : Table) :
    (nsGetOwnerUserNs A k pid nsType t).1 = Ns.nsGetOwnerUserNs k pid nsType := by
  unfold nsGetOwnerUserNs Ns.nsGetOwnerUserNs
  cases (k.owner pid nsType).openNs with
  | error e => rfl
  | ok _ =>
    cases (k.owner pid nsType).getUserns with
    | error errno =>
      dsimp only
      split_ifs
      · cases (k.owner pid nsType).fstat <;> rfl
      · rfl
    | ok _ => cases (k.owner pid nsType).ownerMetadata <;> rfl

theorem parentLoop_fst {q : Ns.ParentQuery} {fuel n fd : ℕ} {id : Ns.Id}
    {result : List (Ns.Id × Ns.Id)} {t : Table} :
    (parentLoop A q fuel n fd id result t).1 = Ns.parentLoop q fuel n id result := by
  induction fuel generalizing n fd id result t with
  | zero => rfl
  | succ fuel ih =>
    rw [parentLoop, Ns.parentLoop]
    cases q.getParent n with
    | ok _ =>
      cases q.fstat (n + 1) with
      | error e => rfl
      | ok parentId => exact ih
    | error errno =>
      dsimp only
      split_ifs <;> rfl

theorem nsGetParentNs_fst (fuel : ℕ) (t : Table) :
    (nsGetParentNs A k fuel pid nsType t).1 = Ns.nsGetParentNs k fuel pid nsType := by
  unfold nsGetParentNs Ns.nsGetParentNs
  cases (k.parent pid nsType).openNs with
  | error e => rfl
  | ok _ =>
    cases h : (k.parent pid nsType).fstat 0 with
    | error e => simp [Ns.Id.fromFd]
    | ok id => simp [Ns.Id.fromFd, parentLoop_fst]

/-! ## Queries that give back their descriptors -/

/-- The namespace cannot be opened, or its owner is found, or it is an initial user namespace that
has metadata. -/
def OwnerAnswers (q : Ns.OwnerQuery) (nsType : NsType) : Prop :=
  (∃ e, q.openNs = .error e) ∨ q.getUserns = .ok () ∨
    (q.getUserns = .error .EPERM ∧ nsType = .user ∧ ∃ id, q.fstat = .ok id)

variable {A k pid nsType}

theorem nsGetOwnerUserNs_closes (h : OwnerAnswers (k.owner pid nsType) nsType) {t : Table}
    (hr : (nsGetOwnerUserNs A k pid nsType t).1.Returns) :
    (nsGetOwnerUserNs A k pid nsType t).2 = t := by
  have hfd := A.fresh_notMem t.opened
  unfold nsGetOwnerUserNs at hr ⊢
  cases ho : (k.owner pid nsType).openNs with
  | error e => rfl
  | ok _ =>
    rcases h with ⟨e, he⟩ | hg | ⟨hg, rfl, id, hs⟩
    · cases ho.symm.trans he
    · rw [ho, hg] at hr
      cases hm : (k.owner pid nsType).ownerMetadata with
      | error e =>
        rw [hm] at hr
        exact hr.elim
      | ok id =>
        have hfd' := A.fresh_notMem (t.add (A.fresh t.opened)).opened
        simp only [hg, Table.close_add_add hfd hfd', Table.close_add (Table.not_mem_of_add hfd')]
    · simp only [hg, and_self, if_true, hs, Table.close_add hfd]

/-- Otherwise the namespace stays open. -/
theorem nsGetOwnerUserNs_leaks (h : ¬ OwnerAnswers (k.owner pid nsType) nsType) (t : Table) :
    (nsGetOwnerUserNs A k pid nsType t).1.Returns ∧
      (nsGetOwnerUserNs A k pid nsType t).2 = t.add (A.fresh t.opened) := by
  simp only [OwnerAnswers, not_or, not_exists, not_and] at h
  obtain ⟨ho, hg, hs⟩ := h
  unfold nsGetOwnerUserNs
  cases hopen : (k.owner pid nsType).openNs with
  | error e => exact absurd hopen (ho e)
  | ok _ =>
    cases huser : (k.owner pid nsType).getUserns with
    | ok _ => exact absurd huser hg
    | error errno =>
      by_cases hc : errno = Errno.EPERM ∧ nsType = .user
      · cases hstat : (k.owner pid nsType).fstat with
        | ok id => exact absurd hstat (hs (by rw [huser, hc.1]) hc.2 id)
        | error e =>
          simp only [if_pos hc, and_true]
          trivial
      · simp only [if_neg hc, and_true]
        trivial

/-- The query for the owner gives back its descriptors if and only if it is answered. -/
theorem givesBack_owner_iff :
    GivesBack (nsGetOwnerUserNs A k pid nsType) ↔ OwnerAnswers (k.owner pid nsType) nsType := by
  constructor
  · intro h
    by_contra hn
    obtain ⟨hr, hleak⟩ := nsGetOwnerUserNs_leaks hn ⟨∅, []⟩
    have hopened := (h ⟨∅, []⟩ hr).1
    rw [hleak] at hopened
    exact Table.opened_add_ne (A.fresh_notMem _) hopened
  · intro h t hr
    rw [nsGetOwnerUserNs_closes h hr]
    exact ⟨rfl, rfl⟩

/-- The descriptor `n` of the chain of parents is reached. -/
def Climbs (q : Ns.ParentQuery) (n : ℕ) : Prop := ∀ m < n, q.getParent m = .ok ()

/-- The descriptor `n` of the chain has metadata, and it has a parent or is the initial one. -/
def Answers (q : Ns.ParentQuery) (n : ℕ) : Prop :=
  (∃ id, q.fstat n = .ok id) ∧ (q.getParent n = .ok () ∨ q.getParent n = .error .EPERM)

variable {q : Ns.ParentQuery}

theorem Climbs.succ {n : ℕ} (h : Climbs q n) (hn : q.getParent n = .ok ()) : Climbs q (n + 1) := by
  intro m hm
  rcases Nat.lt_succ_iff_lt_or_eq.mp hm with hm | rfl
  · exact h m hm
  · exact hn

/-- The loop closes the descriptor that it holds, if each one that is reached answers. -/
theorem parentLoop_closes (hq : ∀ n, Climbs q n → Answers q n) {fuel n fd : ℕ} {id : Ns.Id}
    {result : List (Ns.Id × Ns.Id)} {t : Table} (hn : Climbs q n) (hfd : fd ∉ t.opened)
    (hr : (parentLoop A q fuel n fd id result (t.add fd)).1.Returns) :
    (parentLoop A q fuel n fd id result (t.add fd)).2 = t := by
  induction fuel generalizing n fd id result with
  | zero => exact hr.elim
  | succ fuel ih =>
    rw [parentLoop] at hr ⊢
    rcases (hq n hn).2 with hp | hp
    · have hn' := hn.succ hp
      obtain ⟨parentId, hs⟩ := (hq (n + 1) hn').1
      have hfd' := A.fresh_notMem (t.add fd).opened
      simp only [hp, hs, Table.close_add_add hfd hfd'] at hr ⊢
      exact ih hn' (Table.not_mem_of_add hfd') hr
    · simp only [hp, if_pos, Table.close_add hfd]

/-- From here the loop gives back all descriptors that were opened after this table. -/
def Restores (A : Allocator) (q : Ns.ParentQuery) (t : Table) (n : ℕ) : Prop :=
  ∃ fd id result, fd ∉ t.opened ∧ ∀ fuel,
    (parentLoop A q fuel n fd id result (t.add fd)).1.Returns →
      (parentLoop A q fuel n fd id result (t.add fd)).2.opened = t.opened

theorem Restores.getParent {t : Table} {n : ℕ} (h : Restores A q t n) :
    q.getParent n = .ok () ∨ q.getParent n = .error .EPERM := by
  obtain ⟨fd, id, result, hfd, hall⟩ := h
  cases hp : q.getParent n with
  | ok _ => exact Or.inl rfl
  | error errno =>
    refine Or.inr (by_contra fun hne => ?_)
    have hne : errno ≠ .EPERM := fun he => hne (he ▸ rfl)
    have h1 := hall 1
    simp only [parentLoop, hp, if_neg hne] at h1
    exact Table.opened_add_ne hfd (h1 trivial)

theorem Restores.succ {t : Table} {n : ℕ} (h : Restores A q t n) (hp : q.getParent n = .ok ()) :
    (∃ id, q.fstat (n + 1) = .ok id) ∧ Restores A q t (n + 1) := by
  obtain ⟨fd, id, result, hfd, hall⟩ := h
  have hfd' := A.fresh_notMem (t.add fd).opened
  cases hs : q.fstat (n + 1) with
  | error e =>
    have h1 := hall 1
    simp only [parentLoop, hp, hs] at h1
    exact absurd (h1 trivial) (Table.opened_add_add_ne hfd)
  | ok parentId =>
    refine ⟨⟨parentId, rfl⟩, _, parentId, result ++ [(parentId, id)], Table.not_mem_of_add hfd', ?_⟩
    intro fuel hr
    have h1 := hall (fuel + 1)
    simp only [parentLoop, hp, hs, Table.close_add_add hfd hfd'] at h1
    exact h1 hr

/-- The query for the parents gives back its descriptors if and only if it cannot open the
namespace, or each descriptor that is reached answers. -/
theorem givesBack_parent_iff :
    (∀ fuel, GivesBack (nsGetParentNs A k fuel pid nsType)) ↔
      (∃ e, (k.parent pid nsType).openNs = .error e) ∨
        ∀ n, Climbs (k.parent pid nsType) n → Answers (k.parent pid nsType) n := by
  unfold GivesBack nsGetParentNs
  cases ho : (k.parent pid nsType).openNs with
  | error e => simp
  | ok _ =>
    have hfresh : ∀ t : Table, A.fresh t.opened ∉ t.opened := fun t => A.fresh_notMem t.opened
    constructor
    · intro h
      right
      have hstart : (∃ id, (k.parent pid nsType).fstat 0 = .ok id) ∧
          Restores A (k.parent pid nsType) ⟨∅, []⟩ 0 := by
        cases hs : (k.parent pid nsType).fstat 0 with
        | error e =>
          have h0 := h 0 ⟨∅, []⟩
          simp only [hs] at h0
          exact absurd (h0 trivial).1 (Table.opened_add_ne (hfresh _))
        | ok id =>
          refine ⟨⟨id, rfl⟩, _, id, [], hfresh _, fun fuel hr => ?_⟩
          have h0 := h fuel ⟨∅, []⟩
          simp only [hs] at h0
          exact (h0 hr).1
      have hrun : ∀ n, Climbs (k.parent pid nsType) n →
          (∃ id, (k.parent pid nsType).fstat n = .ok id) ∧
            Restores A (k.parent pid nsType) ⟨∅, []⟩ n := by
        intro n
        induction n with
        | zero => exact fun _ => hstart
        | succ n ih =>
          intro hn
          exact (ih fun m hm => hn m (by omega)).2.succ (hn n (by omega))
      exact fun n hn => ⟨(hrun n hn).1, (hrun n hn).2.getParent⟩
    · rintro (⟨e, he⟩ | hq)
      · cases he
      · have hzero : Climbs (k.parent pid nsType) 0 := fun m hm => absurd hm (Nat.not_lt_zero m)
        obtain ⟨id, hs⟩ := (hq 0 hzero).1
        intro fuel t hr
        simp only [hs] at hr ⊢
        rw [parentLoop_closes hq hzero (hfresh t) hr]
        exact ⟨rfl, rfl⟩

/-- The queries about a namespace give back their descriptors under exactly these conditions. -/
theorem givesBack_iff (A : Allocator) (k : Ns.Kernel) (pid : PidT) (nsType : NsType) :
    (GivesBack (nsGetOwnerUserNs A k pid nsType) ↔
      (∃ e, (k.owner pid nsType).openNs = .error e) ∨ (k.owner pid nsType).getUserns = .ok () ∨
        ((k.owner pid nsType).getUserns = .error .EPERM ∧ nsType = .user ∧
          ∃ id, (k.owner pid nsType).fstat = .ok id)) ∧
    ((∀ fuel, GivesBack (nsGetParentNs A k fuel pid nsType)) ↔
      (∃ e, (k.parent pid nsType).openNs = .error e) ∨
        ∀ n, Climbs (k.parent pid nsType) n → Answers (k.parent pid nsType) n) :=
  ⟨givesBack_owner_iff, givesBack_parent_iff⟩

/-- The lowest descriptor that is not open is taken. -/
def lowestFree : Allocator where
  fresh s := Nat.find (Infinite.exists_notMem_finset s)
  fresh_notMem s := Nat.find_spec (Infinite.exists_notMem_finset s)

/-- Standard input, output and error are open. -/
def standardTable : Table := ⟨{0, 1, 2}, []⟩

/-- The namespaces of another user. The parent of each is found, but not the one above it. -/
def foreignKernel : Ns.Kernel where
  ofType _ _ := { openNs := .ok (), metadata := .ok ⟨4, 10⟩ }
  owner _ _ :=
    { openNs := .ok ()
      getUserns := .error .EPERM
      fstat := .ok ⟨4, 10⟩
      ownerMetadata := .ok ⟨4, 1⟩ }
  parent _ _ :=
    { openNs := .ok ()
      fstat _ := .ok ⟨4, 10⟩
      getParent n := if n = 0 then .ok () else .error .ESRCH }

/-- A query for the owner of a namespace of another type that is not permitted leaves a descriptor
open, and so does one for the parents that fails at the second one. -/
theorem foreignKernel_leaks :
    nsGetOwnerUserNs lowestFree foreignKernel 2 .pid standardTable =
        (.err (.ioctlFailed .EPERM), ⟨{0, 1, 2, 3}, []⟩) ∧
      nsGetParentNs lowestFree foreignKernel 2 2 .pid standardTable =
        (.err (.ioctlFailed .ESRCH), ⟨{0, 1, 2, 4}, []⟩) ∧
      ¬ GivesBack (nsGetOwnerUserNs lowestFree foreignKernel 2 .pid) ∧
      ¬ GivesBack (nsGetParentNs lowestFree foreignKernel 2 2 .pid) := by
  have hfree : lowestFree.fresh {0, 1, 2} = 3 := (Nat.find_eq_iff _).mpr (by decide)
  have hfree' : lowestFree.fresh (insert 3 {0, 1, 2}) = 4 := (Nat.find_eq_iff _).mpr (by decide)
  have hadd : ∀ fd, standardTable.add fd = ⟨{0, 1, 2, fd}, []⟩ := by
    intro fd
    have h : (insert fd {0, 1, 2} : Finset ℕ) = {0, 1, 2, fd} := by
      ext m
      simp
      omega
    rw [Table.add, standardTable, h]
  have howner : nsGetOwnerUserNs lowestFree foreignKernel 2 .pid standardTable =
      (.err (.ioctlFailed .EPERM), ⟨{0, 1, 2, 3}, []⟩) := by
    change (Outcome.err (Error.ioctlFailed .EPERM),
      standardTable.add (lowestFree.fresh {0, 1, 2})) = _
    rw [hfree, hadd 3]
  have hparent : nsGetParentNs lowestFree foreignKernel 2 2 .pid standardTable =
      (.err (.ioctlFailed .ESRCH), ⟨{0, 1, 2, 4}, []⟩) := by
    change (Outcome.err (Error.ioctlFailed .ESRCH),
      ((standardTable.add (lowestFree.fresh {0, 1, 2})).add
        (lowestFree.fresh (insert (lowestFree.fresh {0, 1, 2}) {0, 1, 2}))).close
          (lowestFree.fresh {0, 1, 2})) = _
    rw [hfree, hfree', Table.close_add_add (by decide) (by decide), hadd 4]
  refine ⟨howner, hparent, fun h => ?_, fun h => ?_⟩
  · have h := (h standardTable (by rw [howner]; trivial)).1
    rw [howner] at h
    revert h
    decide
  · have h := (h standardTable (by rw [hparent]; trivial)).1
    rw [hparent] at h
    revert h
    decide

end Descriptors

end Checkc
