import Mathlib.Data.List.Infix
import Mathlib.Tactic.Basic

/-! # Escaped text

Letters that would break the format of a text are printed as a marker with a code behind it.
A pattern without the marker that cannot begin in a code is found in the printed text exactly
where it is in the original.
-/

namespace Checkc

variable {α : Type*}

section Infix

variable {a : α} {p s t : List α}

/-- A pattern is not found across a part that its first letter does not occur in. -/
theorem cons_infix_append_iff (ha : a ∉ s) : a :: p <:+: s ++ t ↔ a :: p <:+: t := by
  induction s with
  | nil => rfl
  | cons b s ih =>
    rw [List.mem_cons, not_or] at ha
    rw [List.cons_append, List.infix_cons_iff, ih ha.2, List.cons_prefix_cons]
    exact or_iff_right fun h => ha.1 h.1

/-- A pattern is not found across a last letter that does not occur in it. -/
theorem infix_concat_iff_of_not_mem (hp : p ≠ []) (ha : a ∉ p) : p <:+: s ++ [a] ↔ p <:+: s := by
  rw [List.infix_concat_iff]
  apply or_iff_right
  intro h
  rcases List.suffix_concat_iff.mp h with rfl | ⟨q, rfl, -⟩
  · exact hp rfl
  · exact ha (List.mem_append_right q List.mem_cons_self)

end Infix

/-- Print a text. The letters with a code are replaced. -/
def escape (mark : α) (code : α → Option (List α)) (s : List α) : List α :=
  s.flatMap fun c => match code c with
    | none => [c]
    | some w => mark :: w

section Escape

variable {mark c : α} {code : α → Option (List α)} {p s w : List α}

@[simp] theorem escape_nil : escape mark code [] = [] := rfl

theorem escape_cons_plain (h : code c = none) :
    escape mark code (c :: s) = c :: escape mark code s := by
  simp [escape, h]

theorem escape_cons_special (h : code c = some w) :
    escape mark code (c :: s) = mark :: (w ++ escape mark code s) := by
  simp [escape, h]

theorem escape_append (s t : List α) :
    escape mark code (s ++ t) = escape mark code s ++ escape mark code t := List.flatMap_append

theorem escape_of_plain (h : ∀ c ∈ s, code c = none) : escape mark code s = s := by
  induction s with
  | nil => rfl
  | cons c s ih =>
    rw [List.forall_mem_cons] at h
    rw [escape_cons_plain h.1, ih h.2]

theorem mem_escape {a : α} : a ∈ escape mark code s ↔
    (a ∈ s ∧ code a = none) ∨ ∃ c ∈ s, ∃ w, code c = some w ∧ a ∈ mark :: w := by
  rw [escape, List.mem_flatMap]
  constructor
  · rintro ⟨c, hc, ha⟩
    split at ha
    · case h_1 hn =>
      obtain rfl := List.mem_singleton.mp ha
      exact Or.inl ⟨hc, hn⟩
    · case h_2 w hw => exact Or.inr ⟨c, hc, w, hw, ha⟩
  · rintro (⟨ha, hn⟩ | ⟨c, hc, w, hw, ha⟩)
    · exact ⟨a, ha, by simp [hn]⟩
    · exact ⟨c, hc, by rwa [hw]⟩

theorem length_le_length_escape : s.length ≤ (escape mark code s).length := by
  induction s with
  | nil => exact le_rfl
  | cons c s ih =>
    cases hc : code c with
    | none => rw [escape_cons_plain hc, List.length_cons, List.length_cons]; omega
    | some w =>
      rw [escape_cons_special hc, List.length_cons, List.length_cons, List.length_append]
      omega

/-- Only a text without letters to replace is printed as it is. -/
theorem escape_eq_self_iff (hw : ∀ c w, code c = some w → w ≠ []) :
    escape mark code s = s ↔ ∀ c ∈ s, code c = none := by
  refine ⟨fun h => ?_, escape_of_plain⟩
  induction s with
  | nil => simp
  | cons c s ih =>
    cases hc : code c with
    | none =>
      rw [escape_cons_plain hc, List.cons.injEq] at h
      exact List.forall_mem_cons.mpr ⟨hc, ih h.2⟩
    | some w =>
      -- the printed text is longer
      have hlen := congrArg List.length h
      have hle : s.length ≤ (escape mark code s).length := length_le_length_escape
      have hpos := List.length_pos_of_ne_nil (hw c w hc)
      rw [escape_cons_special hc, List.length_cons, List.length_append, List.length_cons] at hlen
      omega

theorem prefix_of_prefix_escape (hm : mark ∉ p) (h : p <+: escape mark code s) : p <+: s := by
  induction s generalizing p with
  | nil => exact h
  | cons c s ih =>
    cases p with
    | nil => exact List.nil_prefix
    | cons a p =>
      rw [List.mem_cons, not_or] at hm
      cases hc : code c with
      | none =>
        rw [escape_cons_plain hc, List.cons_prefix_cons] at h
        exact List.cons_prefix_cons.mpr ⟨h.1, ih hm.2 h.2⟩
      | some w =>
        rw [escape_cons_special hc, List.cons_prefix_cons] at h
        exact absurd h.1.symm hm.1

/-- A pattern of plain letters is found in the printed text if and only if it is in the
original, provided that it cannot begin in a code. -/
theorem infix_escape_iff {a : α} (hp : ∀ c ∈ a :: p, code c = none) (hm : mark ∉ a :: p)
    (ha : ∀ c w, code c = some w → a ∉ w) :
    a :: p <:+: escape mark code s ↔ a :: p <:+: s := by
  constructor
  · intro h
    induction s with
    | nil => exact h
    | cons c s ih =>
      rw [List.infix_cons_iff]
      cases hc : code c with
      | none =>
        rw [escape_cons_plain hc, List.infix_cons_iff, ← escape_cons_plain hc] at h
        exact h.imp (prefix_of_prefix_escape hm) ih
      | some w =>
        have hmw : a ∉ mark :: w := by
          rw [List.mem_cons, not_or]
          exact ⟨fun he => hm (he ▸ List.mem_cons_self), ha c w hc⟩
        rw [escape_cons_special hc, ← List.cons_append, cons_infix_append_iff hmw] at h
        exact Or.inr (ih h)
  · rintro ⟨u, v, rfl⟩
    rw [escape_append, escape_append, escape_of_plain hp]
    exact ⟨_, _, rfl⟩

end Escape

end Checkc
