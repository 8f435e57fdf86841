import Checkc.Regex.Basic
import Checkc.Rust.Words

/-! # The preferred match of a repetition

An expression that ends in a repetition of a class captures, in its preferred match, all
that the class allows. Before another expression, a repetition takes as much as lets that
expression match.
-/

namespace Checkc

namespace Regex

variable {p : Char → Bool} {s : List Char}

/-- What a repeated class leaves of a text, the least first. -/
def remainders (p : Char → Bool) : List Char → List (List Char)
  | [] => [[]]
  | a :: s => if p a then remainders p s ++ [a :: s] else [a :: s]

theorem starRun_char {n : ℕ} (h : s.length ≤ n) :
    starRun (run (.char p)) n s = (remainders p s).map fun t => ([], t) := by
  induction n generalizing s with
  | zero =>
    obtain rfl := List.length_eq_zero_iff.mp (Nat.le_zero.mp h)
    rfl
  | succ n ih =>
    cases s with
    | nil => rfl
    | cons a s =>
      rw [List.length_cons, Nat.succ_le_succ_iff] at h
      rw [starRun, run, remainders]
      by_cases ha : p a = true
      · simp [ha, ih h]
      · simp [ha]

theorem run_star_char : run (.star (.char p)) s = (remainders p s).map fun t => ([], t) :=
  starRun_char le_rfl

theorem suffix_of_mem_remainders {t : List Char} (h : t ∈ remainders p s) : t <:+ s := by
  induction s with
  | nil =>
    obtain rfl := List.mem_singleton.mp h
    exact List.suffix_refl _
  | cons a s ih =>
    rw [remainders] at h
    split_ifs at h
    · rw [List.mem_append, List.mem_singleton] at h
      rcases h with h | rfl
      · exact (ih h).trans (List.suffix_cons a s)
      · exact List.suffix_refl _
    · obtain rfl := List.mem_singleton.mp h
      exact List.suffix_refl _

theorem head?_remainders : (remainders p s).head? = some (s.dropWhile p) := by
  induction s with
  | nil => rfl
  | cons a s ih =>
    rw [remainders]
    split_ifs with ha
    · rw [List.head?_append, ih, List.dropWhile_cons_of_pos ha]
      rfl
    · rw [List.dropWhile_cons_of_neg ha]
      rfl

theorem head?_starRun {n : ℕ} (h : s.length ≤ n) :
    (starRun (run (.char p)) n s).head? = some ([], s.dropWhile p) := by
  rw [starRun_char h, List.head?_map, head?_remainders]
  rfl

/-- A repeated class takes all that it can. -/
theorem head?_run_plus : (run (plus p) s).head? =
    if s.takeWhile p = [] then none else some ([], s.dropWhile p) := by
  cases s with
  | nil => rfl
  | cons a s =>
    by_cases ha : p a = true
    · simp [plus, run, ha, head?_starRun le_rfl]
    · simp [plus, run, ha]

/-- The preferred match of an expression that ends in a named repetition of a class. -/
theorem first_seq_group_plus {r : Regex} {n : String} {m : Match}
    (h : first (.seq r (.group n (plus p))) s = some m) :
    ∃ u t c, s = u ++ t ∧ Parses r u c ∧ t.takeWhile p ≠ [] ∧
      m.captures = c ++ [(n, t.takeWhile p)] := by
  obtain ⟨t', hrun⟩ := first_eq_some h
  rw [run, List.head?_flatMap] at hrun
  obtain ⟨⟨c, t⟩, hc, hx⟩ := List.exists_of_findSome?_eq_some hrun
  obtain ⟨u, rfl, hu⟩ := mem_run_iff.mp hc
  rw [List.head?_map, run, List.head?_map, head?_run_plus, Option.map_map,
    Option.map_eq_some_iff] at hx
  obtain ⟨x, hx, he⟩ := hx
  split_ifs at hx with ht
  obtain rfl := Option.some.inj hx
  refine ⟨u, t, c, rfl, hu, ht, ?_⟩
  have htake : t.take (t.length - (t.dropWhile p).length) = t.takeWhile p := by
    have h := take_length_sub (t.takeWhile p) (t.dropWhile p)
    rwa [List.takeWhile_append_dropWhile] at h
  rw [← (Prod.mk.inj he).1]
  simp [htake]

theorem run_star_char_seq (r : Regex) (s : List Char) :
    run (.seq (.star (.char p)) r) s = (remainders p s).flatMap (run r) := by
  rw [run, run_star_char, List.flatMap_map]
  simp

/-- A repeated class before another expression takes a text up to the last place where that
expression matches. -/
theorem head?_run_star_seq {r : Regex} {u t : List Char} (hu : ∀ a ∈ u, p a = true)
    (hr : run r t ≠ []) (hlast : ∀ t', t' <:+ t → t' ≠ t → run r t' = []) :
    (run (.seq (.star (.char p)) r) (u ++ t)).head? = (run r t).head? := by
  rw [run_star_char_seq]
  induction u with
  | nil =>
    rw [List.nil_append]
    cases t with
    | nil => simp [remainders]
    | cons a t =>
      have hnil : (remainders p t).flatMap (run r) = [] := by
        rw [List.flatMap_eq_nil_iff]
        intro t' ht'
        have hs := suffix_of_mem_remainders ht'
        apply hlast t' (hs.trans (List.suffix_cons a t))
        rintro rfl
        exact absurd hs.length_le (by simp)
      rw [remainders]
      split_ifs
      · rw [List.flatMap_append, hnil]
        simp
      · simp
  | cons a u ih =>
    rw [List.forall_mem_cons] at hu
    rw [List.cons_append, remainders, if_pos hu.1, List.flatMap_append, List.head?_append, ih hu.2]
    cases h : (run r t).head? with
    | none => exact absurd (List.head?_eq_none_iff.mp h) hr
    | some x => rfl

/-! ## A repetition before a named repetition of the same class -/

section

variable {r : Regex} {n : String} {a b : Char} {u t : List Char}

/-- A named repetition before a character that is not in its class ends at that character. -/
theorem parses_of_mem_run_group_plus_lit (ha : p a = false) (hu : ∀ x ∈ u, p x = true)
    {x : Captures × List Char}
    (h : x ∈ run (.seq (.group n (plus p)) (.seq (lit a) r)) (u ++ a :: t)) :
    u ≠ [] ∧ ∃ w c, t = w ++ x.2 ∧ Parses r w c ∧ x.1 = (n, u) :: c := by
  obtain ⟨c, t'⟩ := x
  obtain ⟨v, hv, hp⟩ := mem_run_iff.mp h
  obtain ⟨u', w, d, rfl, rfl, hu', hw⟩ := parses_group_plus_lit_iff.mp hp
  have hmem : ∀ v : List Char, (∀ x ∈ v, p x = true) → a ∉ v :=
    fun v hv hm => Bool.false_ne_true (ha.symm.trans (hv a hm))
  rw [List.append_assoc, List.cons_append, append_cons_inj (hmem u hu) (hmem u' hu'.2)] at hv
  obtain ⟨rfl, rfl⟩ := hv
  exact ⟨hu'.1, w, d, rfl, hw, rfl⟩

theorem run_group_plus_lit (ha : p a = false) (hb : p b = true) :
    run (.seq (.group n (plus p)) (.seq (lit a) r)) (b :: a :: t) =
      (run r t).map fun x => ((n, [b]) :: x.1, x.2) := by
  have hplus : run (plus p) (b :: a :: t) = [([], a :: t)] := by
    simp [plus, run, hb, ha, remainders,
      starRun_char (p := p) (s := a :: t) (n := t.length + 1) le_rfl]
  have htake : (b :: a :: t).take ((b :: a :: t).length - (a :: t).length) = [b] :=
    take_length_sub [b] (a :: t)
  rw [run, run, hplus, List.map_singleton, htake, List.flatMap_singleton]
  simp [run, lit]

/-- A repetition before a named repetition of the same class leaves it one character only. -/
theorem head?_run_star_group_plus_lit (ha : p a = false) (hu : ∀ x ∈ u, p x = true)
    (hb : p b = true) :
    (run (.seq (.star (.char p)) (.seq (.group n (plus p)) (.seq (lit a) r)))
      (u ++ b :: a :: t)).head? = (run r t).head?.map fun x => ((n, [b]) :: x.1, x.2) := by
  rw [run_star_char_seq, ← List.head?_map, ← run_group_plus_lit ha hb]
  induction u with
  | nil =>
    have hnil : run (.seq (.group n (plus p)) (.seq (lit a) r)) (a :: t) = [] := by
      rw [List.eq_nil_iff_forall_not_mem]
      intro x hx
      exact (parses_of_mem_run_group_plus_lit ha (u := []) nofun hx).1 rfl
    simp [remainders, ha, hb, hnil]
  | cons x u ih =>
    rw [List.forall_mem_cons] at hu
    rw [List.cons_append, remainders, if_pos hu.1, List.flatMap_append, List.head?_append, ih hu.2]
    cases hh : (run (.seq (.group n (plus p)) (.seq (lit a) r)) (b :: a :: t)).head? with
    | some y => rfl
    | none =>
      -- a longer group is followed by the same text
      rw [Option.none_or, List.head?_eq_none_iff, List.eq_nil_iff_forall_not_mem]
      intro y hy
      have hall : ∀ z ∈ x :: u ++ [b], p z = true :=
        List.forall_mem_append.mpr ⟨List.forall_mem_cons.mpr hu, by simp [hb]⟩
      have happ : x :: (u ++ b :: a :: t) = (x :: u ++ [b]) ++ a :: t := by simp
      rw [List.flatMap_singleton, happ] at hy
      obtain ⟨-, w, c, rfl, hw, -⟩ := parses_of_mem_run_group_plus_lit ha hall hy
      rw [List.head?_eq_none_iff, run_group_plus_lit ha hb, List.map_eq_nil_iff] at hh
      exact List.not_mem_nil (hh ▸ mem_run_of_parses hw y.2)

/-- The preferred match of such an expression. -/
theorem first_star_group_plus_lit (ha : p a = false) {m : Match}
    (h : first (.seq (.star (.char p)) (.seq (.group n (plus p)) (.seq (lit a) r))) s = some m) :
    ∃ u b w t c, s = u ++ b :: a :: (w ++ t) ∧ (∀ x ∈ u, p x = true) ∧ p b = true ∧
      Parses r w c ∧ m.captures = (n, [b]) :: c := by
  obtain ⟨t, hrun⟩ := first_eq_some h
  obtain ⟨v, rfl, hv⟩ := mem_run_iff.mp (List.mem_of_mem_head? hrun)
  obtain ⟨u, d, v, e, rfl, -, hu, hv⟩ := parses_seq_iff.mp hv
  obtain ⟨u', w, c, rfl, -, hu', -⟩ := parses_group_plus_lit_iff.mp hv
  obtain ⟨l, b, rfl⟩ := (List.eq_nil_or_concat' u').resolve_left hu'.1
  have hl := List.forall_mem_append.mp hu'.2
  have hall : ∀ x ∈ u ++ l, p x = true :=
    List.forall_mem_append.mpr ⟨(parses_star_char_iff.mp hu).1, hl.1⟩
  have hb : p b = true := hl.2 b List.mem_cons_self
  have happ : u ++ (l ++ [b] ++ a :: w) ++ t = (u ++ l) ++ b :: a :: (w ++ t) := by simp
  rw [happ, head?_run_star_group_plus_lit ha hall hb, Option.map_eq_some_iff] at hrun
  obtain ⟨⟨d, t'⟩, hd, he⟩ := hrun
  obtain ⟨v, hv, hp⟩ := mem_run_iff.mp (List.mem_of_mem_head? hd)
  exact ⟨u ++ l, b, v, t', d, hv ▸ happ, hall, hb, hp, (Prod.mk.inj he).1.symm⟩

end

end Regex

end Checkc
