import Mathlib.Data.List.Basic
import Mathlib.Tactic.Basic

/-! # Words that end in a marker

A text is cut into words by a marker that does not occur in them. Two cuts of a text into
words agree, and words that are found inside a text are aligned with its own.
-/

namespace Checkc

variable {α : Type*} {a : α}

/-- The words, each followed by the marker. -/
def marked (a : α) (ws : List (List α)) : List α := ws.flatMap (· ++ [a])

@[simp] theorem marked_nil : marked a [] = [] := rfl

@[simp] theorem marked_cons (w : List α) (ws : List (List α)) :
    marked a (w :: ws) = w ++ a :: marked a ws := by
  simp [marked]

theorem marked_append (ws ws' : List (List α)) :
    marked a (ws ++ ws') = marked a ws ++ marked a ws' := List.flatMap_append

/-- The parts of a text before and after the first marker. -/
theorem append_cons_inj {x y s t : List α} (hx : a ∉ x) (hy : a ∉ y) :
    x ++ a :: s = y ++ a :: t ↔ x = y ∧ s = t := by
  induction x generalizing y with
  | nil =>
    cases y with
    | nil => simp
    | cons b y =>
      have hb : a ≠ b := List.ne_of_not_mem_cons hy
      simp [hb]
  | cons b x ih =>
    rw [List.mem_cons, not_or] at hx
    cases y with
    | nil =>
      have hb : b ≠ a := Ne.symm hx.1
      simp [hb]
    | cons c y =>
      rw [List.mem_cons, not_or] at hy
      simp only [List.cons_append, List.cons.injEq, ih hx.2 hy.2, and_assoc]

section Aligned

variable {ws fs : List (List α)} {last t : List α}

/-- Words at the beginning of a text are its first words. -/
theorem marked_prefix (hw : ∀ w ∈ ws, a ∉ w) (hf : ∀ f ∈ fs, a ∉ f) (hl : a ∉ last)
    (h : marked a ws ++ t = marked a fs ++ last) :
    ∃ after, fs = ws ++ after ∧ t = marked a after ++ last := by
  induction ws generalizing fs with
  | nil => exact ⟨fs, rfl, h⟩
  | cons w ws ih =>
    rw [List.forall_mem_cons] at hw
    cases fs with
    | nil =>
      refine absurd ?_ hl
      rw [marked_nil, List.nil_append] at h
      simp [← h]
    | cons f fs =>
      rw [List.forall_mem_cons] at hf
      rw [marked_cons, marked_cons, List.append_assoc, List.append_assoc, List.cons_append,
        List.cons_append, append_cons_inj hw.1 hf.1] at h
      obtain ⟨rfl, h⟩ := h
      obtain ⟨after, rfl, rfl⟩ := ih hw.2 hf.2 h
      exact ⟨after, rfl, rfl⟩

/-- Words inside a text are consecutive words of it, except that the first one may be the
end of a word. -/
theorem marked_aligned {w₀ pre : List α} (hw : ∀ w ∈ w₀ :: ws, a ∉ w) (hf : ∀ f ∈ fs, a ∉ f)
    (hl : a ∉ last) (h : pre ++ (marked a (w₀ :: ws) ++ t) = marked a fs ++ last) :
    ∃ before x after, fs = before ++ (x ++ w₀) :: (ws ++ after) ∧
      pre = marked a before ++ x ∧ t = marked a after ++ last := by
  rw [List.forall_mem_cons] at hw
  induction fs generalizing pre with
  | nil =>
    refine absurd ?_ hl
    rw [marked_nil, List.nil_append] at h
    simp [← h]
  | cons f fs ih =>
    rw [List.forall_mem_cons] at hf
    rw [marked_cons f, List.append_assoc f, List.cons_append] at h
    by_cases hp : a ∈ pre
    · -- the words lie after the first word of the text
      obtain ⟨x, pre, rfl, hx⟩ := List.eq_append_cons_of_mem hp
      rw [List.append_assoc, List.cons_append, append_cons_inj hx hf.1] at h
      obtain ⟨rfl, h⟩ := h
      obtain ⟨before, y, after, rfl, rfl, rfl⟩ := ih hf.2 h
      exact ⟨x :: before, y, after, rfl, by simp, rfl⟩
    · rw [marked_cons, List.append_assoc w₀, List.cons_append, ← List.append_assoc pre,
        append_cons_inj _ hf.1] at h
      · obtain ⟨rfl, h⟩ := h
        obtain ⟨after, rfl, rfl⟩ := marked_prefix hw.2 hf.2 hl h
        exact ⟨[], pre, after, rfl, rfl, rfl⟩
      · rw [List.mem_append, not_or]
        exact ⟨hp, hw.1⟩

end Aligned

end Checkc
