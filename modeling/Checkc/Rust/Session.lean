import Checkc.Rust.Outcome
import Mathlib.Order.Defs.Unbundled

/-! # Calls with a state

A call with a state leaves one however it ends. A triple relates the states before a call to its
outcomes and the states after it. A call keeps an invariant if it does so at each end, and refines a
call without a state if it always has the outcome of that one. Two calls agree if the values that
they return from the same state are related.
-/

namespace Checkc

universe u v

/-- The error of a call as a value, for a caller that goes on after it. -/
def Outcome.attempt {ε ε' α : Type u} : Outcome ε α → Outcome ε' (Except ε α)
  | ok a => .ok (.ok a)
  | err e => .ok (.error e)
  | panic msg => .panic msg
  | outOfFuel => .outOfFuel

/-- The call returns a value with `Q`, or it ends otherwise and `E` holds. -/
def Outcome.Ends {ε α : Type u} (Q : α → Prop) (E : Prop) : Outcome ε α → Prop
  | ok a => Q a
  | _ => E

theorem Outcome.Ends.imp {ε α : Type u} {x : Outcome ε α} {Q Q' : α → Prop} {E E' : Prop}
    (h : x.Ends Q E) (hQ : ∀ a, Q a → Q' a) (hE : E → E') : x.Ends Q' E' := by
  cases x with
  | ok a => exact hQ a h
  | err e | panic msg | outOfFuel => exact hE h

/-- A call that starts in a state and leaves one however it ends. -/
@[ext]
structure Session (σ : Type v) (ε α : Type u) where
  run : σ → Outcome ε α × σ

namespace Session

variable {σ : Type v} {ε ε' α β τ : Type u}

/-- Continue with the value of the first call in the state that it leaves, if it has a value. -/
protected def bind (m : Session σ ε α) (f : α → Session σ ε β) : Session σ ε β where
  run s :=
    match m.run s with
    | (.ok a, s) => (f a).run s
    | (.err e, s) => (.err e, s)
    | (.panic msg, s) => (.panic msg, s)
    | (.outOfFuel, s) => (.outOfFuel, s)

instance : Monad (Session σ ε) where
  pure a := ⟨fun s => (.ok a, s)⟩
  bind := Session.bind

/-- A call that neither reads nor changes the state. -/
def lift (x : Outcome ε α) : Session σ ε α := ⟨fun s => (x, s)⟩

/-- A step that always returns. -/
def step (f : σ → α × σ) : Session σ ε α := ⟨fun s => (.ok (f s).1, (f s).2)⟩

/-- The error of a call as a value. -/
def attempt (m : Session σ ε α) : Session σ ε' (Except ε α) where
  run s := ((m.run s).1.attempt, (m.run s).2)

variable {m : Session σ ε α} {f : α → Session σ ε β} {s s' : σ}

theorem run_bind : (m >>= f).run s =
    match m.run s with
    | (.ok a, s) => (f a).run s
    | (.err e, s) => (.err e, s)
    | (.panic msg, s) => (.panic msg, s)
    | (.outOfFuel, s) => (.outOfFuel, s) := rfl

theorem bind_of_ok {a : α} (h : m.run s = (.ok a, s')) : (m >>= f).run s = (f a).run s' := by
  rw [run_bind, h]

/-- A call that ends without a value ends the sequence. -/
theorem bind_of_stop {x : Outcome ε α} (h : m.run s = (x, s')) (hx : ∀ a, x ≠ .ok a) :
    (m >>= f).run s = (x >>= fun _ => .outOfFuel, s') := by
  rw [run_bind, h]
  cases x with
  | ok a => exact absurd rfl (hx a)
  | err e => rfl
  | panic msg => rfl
  | outOfFuel => rfl

theorem run_attempt : (m.attempt : Session σ ε' (Except ε α)).run s =
    ((m.run s).1.attempt, (m.run s).2) := rfl

instance : LawfulMonad (Session σ ε) := LawfulMonad.mk' _
  (fun m => by
    ext1
    funext s
    change (Session.bind m fun a => pure a).run s = m.run s
    rw [show (Session.bind m fun a => pure a).run s = _ from run_bind]
    rcases m.run s with ⟨_ | _ | _ | _, s'⟩ <;> rfl)
  (fun _ _ => rfl)
  (fun m f g => by
    ext1
    funext s
    simp only [run_bind]
    rcases m.run s with ⟨_ | _ | _ | _, s'⟩ <;> rfl)

/-! ## Triples -/

/-- From each state with `P` the call returns a value with `Q`, or it ends in a state with `E`. -/
def Triple (P : σ → Prop) (m : Session σ ε α) (Q : α → σ → Prop) (E : σ → Prop) : Prop :=
  ∀ s, P s → (m.run s).1.Ends (fun a => Q a (m.run s).2) (E (m.run s).2)

/-- The call keeps the invariant, however it ends. -/
def Keeps (I : σ → Prop) (m : Session σ ε α) : Prop := Triple I m (fun _ => I) I

variable {P P' I J K E : σ → Prop} {R : α → σ → Prop} {Q : β → σ → Prop} {x : Outcome ε α}

theorem Triple.conseq {R' : α → σ → Prop} {E' : σ → Prop} (h : Triple P m R E)
    (hP : ∀ s, P' s → P s) (hR : ∀ a s, R a s → R' a s) (hE : ∀ s, E s → E' s) :
    Triple P' m R' E' :=
  fun s hs => (h s (hP s hs)).imp (fun a => hR a _) (hE _)

theorem triple_pure {a : α} (h : ∀ s, P s → R a s) : Triple P (pure a : Session σ ε α) R E :=
  fun s hs => h s hs

theorem triple_lift (h : ∀ s, P s → x.Ends (fun a => R a s) (E s)) :
    Triple P (lift x : Session σ ε α) R E := h

theorem triple_step {g : σ → α × σ} (h : ∀ s, P s → R (g s).1 (g s).2) :
    Triple P (step g : Session σ ε α) R E := h

/-- The second call starts in a state that the first one leaves with its value. -/
theorem Triple.bind (hm : Triple P m R E) (hf : ∀ a, Triple (R a) (f a) Q E) :
    Triple P (m >>= f) Q E := by
  intro s hs
  have hR := hm s hs
  rw [run_bind]
  rcases h : m.run s with ⟨_ | _ | _ | _, s'⟩ <;> rw [h] at hR
  · exact hf _ s' hR
  all_goals exact hR

theorem Triple.attempt (hm : Triple P m R E) :
    Triple P (m.attempt : Session σ ε' (Except ε α))
      (fun r s => match r with | .ok a => R a s | .error _ => E s) E := by
  intro s hs
  have hR := hm s hs
  rw [run_attempt]
  cases h : (m.run s).1 <;> rw [h] at hR <;> exact hR

theorem keeps_iff : Keeps I m ↔ ∀ s, I s → I (m.run s).2 := by
  refine forall₂_congr fun s _ => ?_
  cases (m.run s).1 <;> rfl

theorem keeps_pure (a : α) : Keeps I (pure a : Session σ ε α) := fun _ hs => hs

theorem keeps_lift (x : Outcome ε α) : Keeps I (lift x : Session σ ε α) :=
  keeps_iff.mpr fun _ hs => hs

theorem Keeps.bind (hm : Keeps I m) (hf : ∀ a, Keeps I (f a)) : Keeps I (m >>= f) :=
  Triple.bind hm hf

/-- A loop keeps what its body keeps in each round. -/
theorem Keeps.foldlM {g : τ → α → Session σ ε τ} {l : List α}
    (h : ∀ t, ∀ a ∈ l, Keeps I (g t a)) (t : τ) : Keeps I (l.foldlM g t) := by
  induction l generalizing t with
  | nil => exact keeps_pure t
  | cons a l ih =>
    rw [List.foldlM_cons]
    exact (h t a List.mem_cons_self).bind
      (ih fun t b hb => h t b (List.mem_cons_of_mem _ hb))

theorem Keeps.mapM {l : List α} (h : ∀ a ∈ l, Keeps I (f a)) : Keeps I (l.mapM f) := by
  induction l with
  | nil => exact keeps_pure []
  | cons a l ih =>
    rw [List.forall_mem_cons] at h
    rw [List.mapM_cons]
    exact h.1.bind fun b => (ih h.2).bind fun bs => keeps_pure (b :: bs)

/-! ## Values -/

/-- Each value that the call returns has this property. The first invariant is kept however the call
ends, and the second one if it returns a value. -/
def Yields (I J : σ → Prop) (m : Session σ ε α) (V : α → Prop) : Prop :=
  Triple (fun s => I s ∧ J s) m (fun a s => V a ∧ I s ∧ J s) I

section

variable {V : α → Prop} {W : β → Prop}

theorem Yields.of_run (h : Yields I J m V) (hI : I s) (hJ : J s) {a : α}
    (hr : m.run s = (.ok a, s')) : V a ∧ J s' := by
  have hV := h s ⟨hI, hJ⟩
  rw [hr] at hV
  exact ⟨hV.1, hV.2.2⟩

theorem Yields.kept (h : Yields I J m V) (hI : I s) (hJ : J s) : I (m.run s).2 := by
  have hV := h s ⟨hI, hJ⟩
  cases hr : (m.run s).1 <;> rw [hr] at hV
  · exact hV.2.1
  all_goals exact hV

theorem yields_pure {a : α} (h : V a) : Yields I J (pure a : Session σ ε α) V := fun _ hs => ⟨h, hs⟩

theorem yields_lift (h : ∀ a, x = .ok a → V a) : Yields I J (lift x : Session σ ε α) V := by
  refine triple_lift fun s hs => ?_
  cases x with
  | ok a => exact ⟨h a rfl, hs⟩
  | err e | panic msg | outOfFuel => exact hs.1

/-- A step that keeps the state. -/
theorem yields_read {g : σ → α} (h : ∀ s, J s → V (g s)) :
    Yields I J (step fun s => (g s, s) : Session σ ε α) V :=
  triple_step fun s hs => ⟨h s hs.2, hs⟩

theorem yields_true : Yields (fun _ => True) (fun _ => True) m fun _ => True := by
  intro s _
  cases (m.run s).1 with
  | ok a => exact ⟨trivial, trivial, trivial⟩
  | err e | panic msg | outOfFuel => trivial

theorem yields_step {g : σ → α × σ} (h : ∀ s, V (g s).1) :
    Yields (fun _ => True) (fun _ => True) (step g : Session σ ε α) V :=
  triple_step fun s _ => ⟨h s, trivial, trivial⟩

theorem Yields.bind (hm : Yields I J m V) (hf : ∀ a, V a → Yields I J (f a) W) :
    Yields I J (m >>= f) W :=
  Triple.bind hm fun a s hs => hf a hs.1 s hs.2

theorem Yields.attempt (hm : Yields (fun _ => True) (fun _ => True) m V) :
    Yields (fun _ => True) (fun _ => True) (m.attempt : Session σ ε' (Except ε α))
      fun r => ∀ a, r = .ok a → V a := by
  refine Triple.conseq (Triple.attempt hm) (fun _ hs => hs) ?_ fun _ hs => hs
  rintro (e | a) s hs
  · exact ⟨nofun, trivial, trivial⟩
  · refine ⟨?_, trivial, trivial⟩
    rintro _ ⟨⟩
    exact hs.1

theorem Yields.mapM {l : List α} {R : α → β → Prop} (h : ∀ a ∈ l, Yields I J (f a) (R a)) :
    Yields I J (l.mapM f) (List.Forall₂ R l) := by
  induction l with
  | nil => exact yields_pure .nil
  | cons a l ih =>
    rw [List.forall_mem_cons] at h
    rw [List.mapM_cons]
    exact h.1.bind fun b hb => (ih h.2).bind fun bs hbs => yields_pure (.cons hb hbs)

end

/-! ## Pairs of runs -/

/-- If both calls return a value from the same state, then their values are related, and they leave
the same state. -/
def Agrees (m : Session σ ε α) (m' : Session σ ε β) (R : α → β → Prop) : Prop :=
  ∀ s a b t u, m.run s = (.ok a, t) → m'.run s = (.ok b, u) → R a b ∧ t = u

theorem run_bind_eq_ok {b : β} : (m >>= f).run s = (.ok b, s') ↔
    ∃ a t, m.run s = (.ok a, t) ∧ (f a).run t = (.ok b, s') := by
  rw [run_bind]
  rcases m.run s with ⟨_ | _ | _ | _, t⟩ <;> simp

theorem agrees_refl (m : Session σ ε α) : Agrees m m Eq := by
  intro s a b t u h h'
  obtain ⟨ha, ht⟩ := Prod.mk.inj (h.symm.trans h')
  exact ⟨Outcome.ok.inj ha, ht⟩

theorem agrees_pure {R : α → β → Prop} {a : α} {b : β} (h : R a b) :
    Agrees (pure a : Session σ ε α) (pure b) R := by
  rintro s _ _ t u ⟨⟩ ⟨⟩
  exact ⟨h, rfl⟩

theorem agrees_lift {R : α → β → Prop} {x : Outcome ε α} {y : Outcome ε β}
    (h : ∀ a b, x = .ok a → y = .ok b → R a b) : Agrees (lift x : Session σ ε α) (lift y) R := by
  intro s a b t u ha hb
  obtain ⟨hx, rfl⟩ := Prod.mk.inj ha
  obtain ⟨hy, rfl⟩ := Prod.mk.inj hb
  exact ⟨h a b hx hy, rfl⟩

/-- Sequences agree if their first calls do and their second calls do after related values. -/
theorem Agrees.bind {γ δ : Type u} {m' : Session σ ε γ} {g : γ → Session σ ε δ}
    {R : α → γ → Prop} {R' : β → δ → Prop} (hm : Agrees m m' R)
    (hf : ∀ a c, R a c → Agrees (f a) (g c) R') : Agrees (m >>= f) (m' >>= g) R' := by
  intro s b d t u h h'
  obtain ⟨a, t', ha, hb⟩ := run_bind_eq_ok.mp h
  obtain ⟨c, u', hc, hd⟩ := run_bind_eq_ok.mp h'
  obtain ⟨hR, rfl⟩ := hm s a c t' u' ha hc
  exact hf a c hR t' b d t u hb hd

/-- After the same call, sequences agree if they do after each value of it. -/
theorem agrees_bind {γ : Type u} {g : α → Session σ ε γ} {R : β → γ → Prop}
    (h : ∀ a, Agrees (f a) (g a) R) : Agrees (m >>= f) (m >>= g) R :=
  (agrees_refl m).bind fun a _ he => he ▸ h a

/-! ## Refinement -/

/-- From each state with `P` the call has this outcome and ends in a state with `J`. -/
def Refines (P : σ → Prop) (m : Session σ ε α) (x : Outcome ε α) (J : σ → Prop) : Prop :=
  ∀ s, P s → (m.run s).1 = x ∧ J (m.run s).2

theorem refines_pure (a : α) : Refines I (pure a : Session σ ε α) (.ok a) I :=
  fun _ hs => ⟨rfl, hs⟩

theorem refines_lift (x : Outcome ε α) : Refines I (lift x : Session σ ε α) x I :=
  fun _ hs => ⟨rfl, hs⟩

theorem refines_step {g : σ → α × σ} {a : α} (h : ∀ s, P s → (g s).1 = a ∧ J (g s).2) :
    Refines P (step g : Session σ ε α) (.ok a) J := by
  intro s hs
  obtain ⟨ha, hJ⟩ := h s hs
  exact ⟨congrArg Outcome.ok ha, hJ⟩

theorem Refines.weaken (h : Refines P m x J) (hJ : ∀ s, J s → K s) : Refines P m x K :=
  fun s hs => (h s hs).imp_right (hJ _)

theorem Refines.attempt (hm : Refines P m x J) :
    Refines P (m.attempt : Session σ ε' (Except ε α)) x.attempt J := by
  intro s hs
  obtain ⟨hx, hJ⟩ := hm s hs
  exact ⟨congrArg Outcome.attempt hx, hJ⟩

/-- After a value, a sequence refines what its second call refines. -/
theorem Refines.bind_ok {a : α} {y : Outcome ε β} (hm : Refines P m (.ok a) J)
    (hf : Refines J (f a) y K) : Refines P (m >>= f) y K := by
  intro s hs
  obtain ⟨hx, hJ⟩ := hm s hs
  rw [bind_of_ok (Prod.ext hx rfl)]
  exact hf _ hJ

/-- A sequence refines a sequence. What holds after the first call must be enough at the end, in
case that it is the last one. -/
theorem Refines.bind {g : α → Outcome ε β} (hm : Refines P m x J)
    (hf : ∀ a, x = .ok a → Refines J (f a) (g a) K) (hJ : ∀ s, J s → K s) :
    Refines P (m >>= f) (x >>= g) K := by
  cases x with
  | ok a => exact hm.bind_ok (hf a rfl)
  | err e | panic msg | outOfFuel =>
    intro s hs
    obtain ⟨hx, hs'⟩ := hm s hs
    rw [bind_of_stop (Prod.ext hx rfl) nofun]
    exact ⟨rfl, hJ _ hs'⟩

/-- A loop refines a loop if its body does in each round. -/
theorem Refines.foldlM {g : τ → α → Session σ ε τ} {h : τ → α → Outcome ε τ} {l : List α}
    (hg : ∀ t, ∀ a ∈ l, Refines I (g t a) (h t a) I) (t : τ) :
    Refines I (l.foldlM g t) (l.foldlM h t) I := by
  induction l generalizing t with
  | nil => exact refines_pure t
  | cons a l ih =>
    rw [List.foldlM_cons, List.foldlM_cons]
    exact (hg t a List.mem_cons_self).bind
      (fun t _ => ih (fun t b hb => hg t b (List.mem_cons_of_mem _ hb)) t) fun _ hs => hs

theorem Refines.mapM {g : α → Outcome ε β} {l : List α} (h : ∀ a ∈ l, Refines I (f a) (g a) I) :
    Refines I (l.mapM f) (l.mapM g) I := by
  induction l with
  | nil => exact refines_pure []
  | cons a l ih =>
    rw [List.forall_mem_cons] at h
    rw [List.mapM_cons, List.mapM_cons]
    exact h.1.bind (fun b _ => (ih h.2).bind (fun bs _ => refines_pure (b :: bs)) fun _ hs => hs)
      fun _ hs => hs

/-! ## Calls that follow others -/

/-- From each state the call has this outcome. Whenever it returns, the relation holds between the
states before and after it. -/
def Follows (N : σ → σ → Prop) (m : Session σ ε α) (x : Outcome ε α) : Prop :=
  ∀ s, (m.run s).1 = x ∧ (x.Returns → N s (m.run s).2)

section

variable {N : σ → σ → Prop} [IsPreorder σ N]

theorem follows_pure (a : α) : Follows N (pure a : Session σ ε α) (.ok a) :=
  fun s => ⟨rfl, fun _ => refl_of N s⟩

theorem follows_lift (x : Outcome ε α) : Follows N (lift x : Session σ ε α) x :=
  fun s => ⟨rfl, fun _ => refl_of N s⟩

theorem Follows.bind {g : α → Outcome ε β} (hm : Follows N m x)
    (hf : ∀ a, x = .ok a → Follows N (f a) (g a)) : Follows N (m >>= f) (x >>= g) := by
  intro s
  obtain ⟨hx, hs⟩ := hm s
  cases x with
  | ok a =>
    obtain ⟨hy, hs'⟩ := hf a rfl (m.run s).2
    rw [bind_of_ok (Prod.ext hx rfl)]
    exact ⟨hy, fun hr => trans_of N (hs trivial) (hs' hr)⟩
  | err e | panic msg | outOfFuel =>
    rw [bind_of_stop (Prod.ext hx rfl) nofun]
    exact ⟨rfl, fun hr => hs hr⟩

/-- A loop follows a loop if its body does in each round. -/
theorem Follows.foldlM {g : τ → α → Session σ ε τ} {h : τ → α → Outcome ε τ} {l : List α}
    (hg : ∀ t, ∀ a ∈ l, Follows N (g t a) (h t a)) (t : τ) :
    Follows N (l.foldlM g t) (l.foldlM h t) := by
  induction l generalizing t with
  | nil => exact follows_pure t
  | cons a l ih =>
    rw [List.foldlM_cons, List.foldlM_cons]
    exact (hg t a List.mem_cons_self).bind fun t _ =>
      ih (fun t b hb => hg t b (List.mem_cons_of_mem _ hb)) t

theorem Follows.anyM {ε α : Type} {p : α → Session σ ε Bool} {q : α → Outcome ε Bool} {l : List α}
    (h : ∀ a ∈ l, Follows N (p a) (q a)) : Follows N (l.anyM p) (l.anyM q) := by
  induction l with
  | nil => exact follows_pure false
  | cons a l ih =>
    rw [List.forall_mem_cons] at h
    rw [List.anyM, List.anyM]
    refine h.1.bind fun b _ => ?_
    cases b with
    | true => exact follows_pure true
    | false => exact ih h.2

end

end Session

end Checkc
