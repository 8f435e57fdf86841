import Mathlib.Data.List.Forall2
import Mathlib.Tactic.Basic

/-! # Outcomes of fallible code

A call returns a value, returns an error, panics, or is cut off because the fuel
of one of its loops ran out. Sequencing stops at the first outcome that is not a
value, which is how `?` and `unwrap` leave a function.
-/

namespace Checkc

universe u v w

/-- What a call of a function that may fail or panic ends in. -/
inductive Outcome (ε : Type u) (α : Type v) where
  | ok (a : α)
  | err (e : ε)
  | panic (msg : String)
  | outOfFuel
  deriving DecidableEq, Repr

namespace Outcome

variable {ε : Type u} {α β γ : Type v}

/-- Continue with the value of the first call, if it has one. -/
protected def bind : Outcome ε α → (α → Outcome ε β) → Outcome ε β
  | ok a, f => f a
  | err e, _ => err e
  | panic m, _ => panic m
  | outOfFuel, _ => outOfFuel

instance : Monad (Outcome ε) where
  pure := ok
  bind := Outcome.bind

instance : LawfulMonad (Outcome ε) := LawfulMonad.mk' _
  (fun x => by cases x <;> rfl) (fun _ _ => rfl) (fun x _ _ => by cases x <;> rfl)

@[simp] theorem ok_bind (a : α) (f : α → Outcome ε β) : (ok a >>= f) = f a := rfl
@[simp] theorem err_bind (e : ε) (f : α → Outcome ε β) : (err e >>= f) = err e := rfl
@[simp] theorem panic_bind (m : String) (f : α → Outcome ε β) : (panic m >>= f) = panic m := rfl

@[simp] theorem pure_eq_ok {a b : α} : (pure a : Outcome ε α) = ok b ↔ a = b :=
  ⟨fun h => ok.inj h, fun h => congrArg ok h⟩

/-- A call returns one value only. -/
theorem ok_unique {x : Outcome ε α} {a b : α} (h : x = ok a) (h' : x = ok b) : a = b :=
  ok.inj (h.symm.trans h')

theorem ne_ok_of_err {x : Outcome ε α} {e : ε} (h : x = err e) (a : α) : x ≠ ok a := by
  rw [h]
  exact nofun

/-- A sequence returns exactly when each step does. -/
@[simp] theorem bind_eq_ok {x : Outcome ε α} {f : α → Outcome ε β} {b : β} :
    (x >>= f) = ok b ↔ ∃ a, x = ok a ∧ f a = ok b := by
  cases x with
  | ok a => simp
  | err e => simp
  | panic m => simp
  | outOfFuel => simp [Bind.bind, Outcome.bind]

@[simp] theorem map_eq_ok {x : Outcome ε α} {f : α → β} {b : β} :
    (f <$> x) = ok b ↔ ∃ a, x = ok a ∧ f a = b := by
  simp [← bind_pure_comp]

/-- The call ends in a value or an error. -/
def Returns : Outcome ε α → Prop
  | ok _ => True
  | err _ => True
  | panic _ => False
  | outOfFuel => False

theorem Returns.ok_or_err {x : Outcome ε α} (h : x.Returns) :
    (∃ a, x = ok a) ∨ ∃ e, x = err e := by
  cases x with
  | ok a => exact Or.inl ⟨a, rfl⟩
  | err e => exact Or.inr ⟨e, rfl⟩
  | panic m => exact h.elim
  | outOfFuel => exact h.elim

theorem Returns.bind {x : Outcome ε α} {f : α → Outcome ε β} (hx : x.Returns)
    (hf : ∀ a, x = ok a → (f a).Returns) : (x >>= f).Returns := by
  cases x with
  | ok a => exact hf a rfl
  | err e => trivial
  | panic m => exact hx.elim
  | outOfFuel => exact hx.elim

end Outcome

open Outcome

variable {ε : Type u} {α β σ : Type v}

/-- `Option::unwrap`. -/
def unwrap : Option α → Outcome ε α
  | some a => ok a
  | none => panic "called `Option::unwrap()` on a `None` value"

@[simp] theorem unwrap_some (a : α) : (unwrap (some a) : Outcome ε α) = ok a := rfl

@[simp] theorem unwrap_eq_ok {o : Option α} {a : α} :
    (unwrap o : Outcome ε α) = ok a ↔ o = some a := by
  cases o <;> simp [unwrap]

/-- `Result::unwrap`. -/
def unwrapOk : Outcome ε α → Outcome ε α
  | .ok a => .ok a
  | .err _ => .panic "called `Result::unwrap()` on an `Err` value"
  | .panic m => .panic m
  | .outOfFuel => .outOfFuel

@[simp] theorem unwrapOk_eq_ok {x : Outcome ε α} {a : α} : unwrapOk x = ok a ↔ x = ok a := by
  cases x <;> simp [unwrapOk]

/-! ## Loops -/

/-- A loop returns exactly when each of its steps does, where a step that returns
computes `g` and returning does not depend on the state. -/
theorem foldlM_eq_ok_iff {f : σ → α → Outcome ε σ} {g : σ → α → σ} {P : α → Prop} {l : List α}
    {s r : σ} (h : ∀ s r, ∀ a ∈ l, f s a = ok r ↔ P a ∧ r = g s a) :
    l.foldlM f s = ok r ↔ (∀ a ∈ l, P a) ∧ r = l.foldl g s := by
  induction l generalizing s with
  | nil => simp [eq_comm]
  | cons a l ih =>
    have ih' := fun s => ih (s := s) fun s r b hb => h s r b (List.mem_cons_of_mem _ hb)
    simp only [List.foldlM_cons, bind_eq_ok, h s _ a List.mem_cons_self, ih', List.forall_mem_cons,
      List.foldl_cons]
    constructor
    · rintro ⟨s', ⟨hp, rfl⟩, hl, rfl⟩
      exact ⟨⟨hp, hl⟩, rfl⟩
    · rintro ⟨⟨hp, hl⟩, rfl⟩
      exact ⟨_, ⟨hp, rfl⟩, hl, rfl⟩

/-- A loop whose steps all return returns. -/
theorem foldlM_isOk {f : σ → α → Outcome ε σ} {l : List α}
    (h : ∀ s, ∀ a ∈ l, ∃ r, f s a = ok r) (s : σ) : ∃ r, l.foldlM f s = ok r := by
  induction l generalizing s with
  | nil => exact ⟨s, rfl⟩
  | cons a l ih =>
    obtain ⟨r, hr⟩ := h s a List.mem_cons_self
    rw [List.foldlM_cons, hr, ok_bind]
    exact ih (fun s b hb => h s b (List.mem_cons_of_mem _ hb)) r

/-- Each step of a loop that returns does. -/
theorem exists_of_foldlM {f : σ → α → Outcome ε σ} {l : List α} {s r : σ}
    (h : l.foldlM f s = ok r) {a : α} (ha : a ∈ l) : ∃ s s', f s a = ok s' := by
  induction l generalizing s with
  | nil => cases ha
  | cons b l ih =>
    rw [List.foldlM_cons, bind_eq_ok] at h
    obtain ⟨s', hs, h⟩ := h
    rcases List.mem_cons.mp ha with rfl | ha
    · exact ⟨s, s', hs⟩
    · exact ih h ha

/-- What each step keeps true of the elements so far and the state, a loop that returns makes true
of all of its elements. -/
theorem foldlM_induction {P : List α → σ → Prop} {f : σ → α → Outcome ε σ} {l : List α} {s r : σ}
    (h0 : P [] s) (hstep : ∀ l a s s', P l s → f s a = ok s' → P (l ++ [a]) s')
    (h : l.foldlM f s = ok r) : P l r := by
  suffices hs : ∀ (l l₀ : List α) (s : σ), P l₀ s → l.foldlM f s = ok r → P (l₀ ++ l) r from
    hs l [] s h0 h
  intro l
  induction l with
  | nil =>
    intro l₀ s hP h
    obtain rfl := ok.inj h
    rwa [List.append_nil]
  | cons a l ih =>
    intro l₀ s hP h
    rw [List.foldlM_cons, bind_eq_ok] at h
    obtain ⟨s', hs', h⟩ := h
    have hl := ih (l₀ ++ [a]) s' (hstep l₀ a s s' hP hs') h
    rwa [List.append_assoc] at hl

/-- If each step adds what `Q` says to the states with property `M`, then a loop adds it
for all of its elements. -/
theorem foldlM_accumulates {M : σ → Prop} {Q : α → Prop} {f : σ → α → Outcome ε σ} {l : List α}
    {s r : σ} (h : ∀ s r, ∀ a ∈ l, f s a = ok r → (M r ↔ M s ∨ Q a))
    (hr : l.foldlM f s = ok r) : M r ↔ M s ∨ ∃ a ∈ l, Q a := by
  induction l generalizing s with
  | nil => obtain rfl := ok.inj hr; simp
  | cons a l ih =>
    rw [List.foldlM_cons, bind_eq_ok] at hr
    obtain ⟨s', hs', hr⟩ := hr
    rw [ih (fun s r b hb => h s r b (List.mem_cons_of_mem _ hb)) hr,
      h s s' a List.mem_cons_self hs', or_assoc]
    simp

/-- If each step adds at most what `Q` says, then so does a loop for all of its elements. -/
theorem foldlM_adds {M : σ → Prop} {Q : α → Prop} {f : σ → α → Outcome ε σ} {l : List α}
    {s r : σ} (h : ∀ s r, ∀ a ∈ l, f s a = ok r → M r → M s ∨ Q a)
    (hr : l.foldlM f s = ok r) (hm : M r) : M s ∨ ∃ a ∈ l, Q a := by
  induction l generalizing s with
  | nil =>
    obtain rfl := ok.inj hr
    exact Or.inl hm
  | cons a l ih =>
    rw [List.foldlM_cons, bind_eq_ok] at hr
    obtain ⟨s', hs', hr⟩ := hr
    rw [List.exists_mem_cons_iff]
    rcases ih (fun s r b hb => h s r b (List.mem_cons_of_mem _ hb)) hr with hm' | hq
    · exact (h s s' a List.mem_cons_self hs' hm').imp_right Or.inl
    · exact Or.inr (Or.inr hq)

/-- A loop that asks a question about each element and accumulates the answers returns
exactly when all answers do. -/
theorem foldlM_bind_eq_ok {q : α → Outcome ε β} {g : σ → β → σ} {l : List α} {s r : σ} :
    l.foldlM (fun s a => q a >>= fun b => pure (g s b)) s = ok r ↔
      ∃ bs, List.Forall₂ (fun a b => q a = ok b) l bs ∧ r = bs.foldl g s := by
  induction l generalizing s with
  | nil => simp [eq_comm]
  | cons a l ih =>
    simp only [List.foldlM_cons, bind_eq_ok, pure_eq_ok, ih, List.forall₂_cons_left_iff]
    constructor
    · rintro ⟨s', ⟨b, hb, rfl⟩, bs, hbs, rfl⟩
      exact ⟨b :: bs, ⟨b, bs, hb, hbs, rfl⟩, rfl⟩
    · rintro ⟨_, ⟨b, bs, hb, hbs, rfl⟩, rfl⟩
      exact ⟨g s b, ⟨b, hb, rfl⟩, bs, hbs, rfl⟩

/-- A loop that asks a question about each element ends with an error that is the answer to one of
them if no question has another answer without a value. -/
theorem foldlM_bind_eq_err {q : α → Outcome ε β} {g : σ → β → σ} {l : List α} {e : ε}
    (h : ∀ a ∈ l, (∃ b, q a = ok b) ∨ q a = err e) (he : ∃ a ∈ l, q a = err e) (s : σ) :
    l.foldlM (fun s a => q a >>= fun b => pure (g s b)) s = err e := by
  induction l generalizing s with
  | nil => simp at he
  | cons a l ih =>
    rw [List.forall_mem_cons] at h
    rw [List.exists_mem_cons_iff] at he
    rw [List.foldlM_cons]
    rcases h.1 with ⟨b, hb⟩ | hb
    · rw [hb, ok_bind]
      exact ih h.2 (he.resolve_left (by simp [hb])) _
    · rw [hb]
      rfl

/-- A list of questions is answered exactly when each of them is. -/
theorem mapM_eq_ok {ε : Type u} {f : α → Outcome ε β} {l : List α} {bs : List β} :
    l.mapM f = ok bs ↔ List.Forall₂ (fun a b => f a = ok b) l bs := by
  induction l generalizing bs with
  | nil => simp [eq_comm]
  | cons a l ih =>
    simp only [List.mapM_cons, bind_eq_ok, pure_eq_ok, ih, List.forall₂_cons_left_iff]
    constructor
    · rintro ⟨b, hb, bs, hbs, rfl⟩
      exact ⟨b, bs, hb, hbs, rfl⟩
    · rintro ⟨b, bs, hb, hbs, rfl⟩
      exact ⟨b, hb, bs, hbs, rfl⟩

/-- A search whose questions all have answers finds what a search among the answers finds. -/
theorem anyM_eq_ok {ε : Type u} {f : α → Outcome ε Bool} {g : α → Bool} {l : List α}
    (h : ∀ a ∈ l, f a = ok (g a)) : l.anyM f = ok (l.any g) := by
  induction l with
  | nil => rfl
  | cons a l ih =>
    rw [List.forall_mem_cons] at h
    rw [List.anyM_cons, h.1, ok_bind, ih h.2, List.any_cons]
    cases g a <;> rfl

/-- A search in which some questions have no answer decides whether there is an element with a
property just if there is one before each such question. -/
theorem anyM_decides_iff {ε : Type u} {f : α → Outcome ε Bool} {P bad : α → Prop} {l : List α}
    (hbad : ∀ a ∈ l, bad a → ∀ b, f a ≠ ok b)
    (h : ∀ a ∈ l, ¬ bad a → ∃ b, f a = ok b ∧ (b = true ↔ P a))
    (hdisj : ∀ a ∈ l, P a → ¬ bad a) :
    (∃ b, l.anyM f = ok b ∧ (b = true ↔ ∃ a ∈ l, P a)) ↔
      ∀ l₁ a l₂, l = l₁ ++ a :: l₂ → bad a → ∃ a' ∈ l₁, P a' := by
  induction l with
  | nil => simp [List.anyM, pure_eq_ok]
  | cons a l ih =>
    rw [List.forall_mem_cons] at hbad h hdisj
    have hsplit : (∀ l₁ b l₂, a :: l = l₁ ++ b :: l₂ → bad b → ∃ a' ∈ l₁, P a') ↔
        ¬ bad a ∧ (P a ∨ ∀ l₁ b l₂, l = l₁ ++ b :: l₂ → bad b → ∃ a' ∈ l₁, P a') := by
      constructor
      · intro hs
        refine ⟨fun hb => ?_, or_iff_not_imp_left.mpr fun hP l₁ b l₂ hl hb => ?_⟩
        · obtain ⟨a', ha', -⟩ := hs [] a l rfl hb
          cases ha'
        · obtain ⟨a', ha', hP'⟩ := hs (a :: l₁) b l₂ (congrArg (a :: ·) hl) hb
          rcases List.mem_cons.mp ha' with rfl | ha'
          · exact absurd hP' hP
          · exact ⟨a', ha', hP'⟩
      · rintro ⟨hna, hs⟩ l₁ b l₂ hl hb
        cases l₁ with
        | nil =>
          obtain ⟨rfl, -⟩ := List.cons.inj hl
          exact absurd hb hna
        | cons a' l₁ =>
          obtain ⟨rfl, hl'⟩ := List.cons.inj hl
          rcases hs with hP | hs
          · exact ⟨a, List.mem_cons_self, hP⟩
          · obtain ⟨a', ha', hP'⟩ := hs l₁ b l₂ hl' hb
            exact ⟨a', List.mem_cons_of_mem _ ha', hP'⟩
    rw [hsplit]
    by_cases hb : bad a
    · refine iff_of_false ?_ fun hs => hs.1 hb
      rintro ⟨b, hok, -⟩
      rw [List.anyM_cons, bind_eq_ok] at hok
      obtain ⟨b', hb', -⟩ := hok
      exact hbad.1 hb b' hb'
    obtain ⟨b, hf, hiff⟩ := h.1 hb
    rw [List.anyM_cons, hf, ok_bind, List.exists_mem_cons_iff]
    cases b with
    | true => simp [hb, hiff.mp rfl, pure_eq_ok]
    | false =>
      have hP : ¬ P a := fun hP => Bool.false_ne_true (hiff.mpr hP)
      simp only [hb, hP, not_false_eq_true, true_and, false_or]
      exact ih hbad.2 h.2 hdisj.2

/-- A filter whose questions all have answers keeps what a filter of the answers keeps. -/
theorem filterM_eq_ok {ε : Type u} {α : Type} {f : α → Outcome ε Bool} {g : α → Bool} {l : List α}
    (h : ∀ a ∈ l, f a = .ok (g a)) : l.filterM f = .ok (l.filter g) := by
  have haux : ∀ l acc : List α, (∀ a ∈ l, f a = .ok (g a)) →
      l.filterAuxM f acc = .ok ((l.filter g).reverse ++ acc) := by
    intro l
    induction l with
    | nil => intro acc _; rfl
    | cons a l ih =>
      intro acc h
      rw [List.forall_mem_cons] at h
      rw [List.filterAuxM, h.1, Outcome.ok_bind, ih _ h.2, List.filter_cons]
      cases g a <;> simp
  rw [List.filterM, haux l [] h, Outcome.ok_bind]
  simp

/-- Each question of a filter that returns has an answer. -/
theorem exists_of_filterM {ε : Type u} {α : Type} {f : α → Outcome ε Bool} {l r : List α}
    (h : l.filterM f = .ok r) : ∀ a ∈ l, ∃ b, f a = .ok b := by
  have haux : ∀ l acc r : List α, l.filterAuxM f acc = .ok r → ∀ a ∈ l, ∃ b, f a = .ok b := by
    intro l
    induction l with
    | nil => intro _ _ _ a ha; cases ha
    | cons a l ih =>
      intro acc r h
      rw [List.filterAuxM, bind_eq_ok] at h
      obtain ⟨b, hb, h⟩ := h
      exact List.forall_mem_cons.mpr ⟨⟨b, hb⟩, ih _ r h⟩
  rw [List.filterM, bind_eq_ok] at h
  obtain ⟨l', h, -⟩ := h
  exact haux l [] l' h

/-! ## Lists related element by element -/

theorem exists_forall₂ {R : α → β → Prop} {l : List α} (h : ∀ a ∈ l, ∃ b, R a b) :
    ∃ l', List.Forall₂ R l l' := by
  induction l with
  | nil => exact ⟨[], .nil⟩
  | cons a l ih =>
    rw [List.forall_mem_cons] at h
    obtain ⟨⟨b, hb⟩, hl⟩ := h
    obtain ⟨l', hl'⟩ := ih hl
    exact ⟨b :: l', .cons hb hl'⟩

theorem exists_mem_of_forall₂ {R : α → β → Prop} {l : List α} {l' : List β}
    (h : List.Forall₂ R l l') {b : β} (hb : b ∈ l') : ∃ a ∈ l, R a b := by
  induction h with
  | nil => cases hb
  | cons hab _ ih =>
    rcases List.mem_cons.mp hb with rfl | hb
    · exact ⟨_, List.mem_cons_self, hab⟩
    · obtain ⟨a, ha, hr⟩ := ih hb
      exact ⟨a, List.mem_cons_of_mem _ ha, hr⟩

theorem exists_mem_iff_of_forall₂ {R : α → β → Prop} {P : α → Prop} {Q : β → Prop} {l : List α}
    {l' : List β} (h : List.Forall₂ R l l') (hPQ : ∀ a b, R a b → (P a ↔ Q b)) :
    (∃ a ∈ l, P a) ↔ ∃ b ∈ l', Q b := by
  constructor
  · rintro ⟨a, ha, hp⟩
    obtain ⟨b, hb, hr⟩ := exists_mem_of_forall₂ h.flip ha
    exact ⟨b, hb, (hPQ a b hr).mp hp⟩
  · rintro ⟨b, hb, hq⟩
    obtain ⟨a, ha, hr⟩ := exists_mem_of_forall₂ h hb
    exact ⟨a, ha, (hPQ a b hr).mpr hq⟩

/-- The answers of a list of questions are the answers of its elements. -/
theorem mem_answers_iff {q : α → Outcome ε β} {l : List α} {bs : List β}
    (h : List.Forall₂ (fun a b => q a = ok b) l bs) {b : β} :
    b ∈ bs ↔ ∃ a ∈ l, q a = ok b := by
  induction h with
  | nil => simp
  | cons hab _ ih => simp [ih, hab, eq_comm]

end Checkc
