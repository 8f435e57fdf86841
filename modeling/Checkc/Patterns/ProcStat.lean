import Checkc.Regex.Greedy
import Checkc.Rust.Text

/-! # Stat files of processes

The pattern that finds the number of the parent of a process. The name of the process stands
before it in parentheses, as it is.
-/

namespace Checkc

open Regex

/-- The class of `.`. -/
def notNewline (c : Char) : Bool := c ≠ '\n'

/-- `REGEX_PROC_STAT` up to the name of the process. -/
def regexProcStatHead : Regex :=
  .seq (plus Char.isDigit) <| .seq (.char isWhitespace) (lit '(')

/-- `REGEX_PROC_STAT` after the name of the process. -/
def regexProcStatTail : Regex :=
  .seq (lit ')') <| .seq (lit ' ') <| .seq (.char Char.isAlpha) <| .seq (lit ' ') <|
    .group "ppid" (plus Char.isDigit)

/-- `REGEX_PROC_STAT`. -/
def regexProcStat : Regex :=
  .seq regexProcStatHead <| .seq (.star (.char notNewline)) regexProcStatTail

/-! ## The line of a process -/

variable {d name k rest t : List Char} {a : Char}

/-- The pattern finds the first parenthesis after a number in one way only. -/
theorem eq_of_mem_run_head {x : Captures × List Char} (hd : ∀ c ∈ d, c.isDigit = true)
    (h : x ∈ run regexProcStatHead (d ++ ' ' :: '(' :: t)) : x = ([], t) := by
  obtain ⟨c, t'⟩ := x
  obtain ⟨u, hu, hp⟩ := mem_run_iff.mp h
  rw [regexProcStatHead] at hp
  simp only [parses_seq_iff, parses_plus_iff, parses_char_iff, parses_lit_iff] at hp
  obtain ⟨d', _, _, _, rfl, rfl, ⟨hd', rfl⟩, _, _, _, _, rfl, rfl, ⟨w, hw, rfl, rfl⟩, rfl, rfl⟩ :=
    hp
  have hdd : d = d' := by
    have htake := congrArg (List.takeWhile Char.isDigit) hu
    rw [List.takeWhile_append_of_pos hd, List.append_assoc,
      List.takeWhile_append_of_pos hd'.2] at htake
    simpa [isDigit_eq_false_of_isWhitespace hw] using htake
  subst hdd
  rw [List.append_assoc, List.append_cancel_left_eq] at hu
  obtain rfl : t = t' := by simpa using (List.cons.inj hu).2
  rfl

theorem mem_run_head (hd : IsRun Char.isDigit d) :
    (([], t) : Captures × List Char) ∈ run regexProcStatHead (d ++ ' ' :: '(' :: t) := by
  have hp : Parses regexProcStatHead (d ++ ([' '] ++ ['('])) ([] ++ ([] ++ [])) :=
    .seq (parses_plus_iff.mpr ⟨hd, rfl⟩) (.seq (.char rfl) (parses_lit_iff.mpr ⟨rfl, rfl⟩))
  have h := mem_run_of_parses hp t
  rwa [List.append_assoc] at h

/-- After the name, the pattern takes the number of the parent. -/
theorem head?_run_tail (ha : a.isAlpha = true) (hk : IsRun Char.isDigit k)
    (hrest : ∀ c ∈ rest.head?, c.isDigit = false) :
    (run regexProcStatTail (')' :: ' ' :: a :: ' ' :: (k ++ rest))).head? =
      some ([("ppid", k)], rest) := by
  have hdrop : (k ++ rest).dropWhile Char.isDigit = rest := by
    rw [List.dropWhile_append_of_pos hk.2]
    cases rest with
    | nil => rfl
    | cons c rest => exact List.dropWhile_cons_of_neg (by simp [hrest c rfl])
  have htake : (k ++ rest).takeWhile Char.isDigit ≠ [] := by
    rw [List.takeWhile_append_of_pos hk.2]
    exact List.append_ne_nil_of_left_ne_nil hk.1 _
  have hg : (run (.group "ppid" (plus Char.isDigit)) (k ++ rest)).head? =
      some ([("ppid", k)], rest) := by
    rw [run, List.head?_map, head?_run_plus, if_neg htake, hdrop]
    simp
  simp [regexProcStatTail, run, lit, ha, ← hg, Function.comp_def]

theorem run_tail_eq_nil (ht : ')' ∉ t) : run regexProcStatTail t = [] := by
  rw [List.eq_nil_iff_forall_not_mem]
  rintro ⟨c, t'⟩ h
  obtain ⟨u, rfl, hp⟩ := mem_run_iff.mp h
  rw [regexProcStatTail, parses_seq_iff] at hp
  obtain ⟨v, _, w, _, rfl, -, hv, -⟩ := hp
  obtain ⟨rfl, -⟩ := parses_lit_iff.mp hv
  exact ht (by simp)

/-- The name ends at the last parenthesis of its line, so that the pattern takes the number of
the parent. -/
theorem search_regexProcStat (hd : IsRun Char.isDigit d) (hname : '\n' ∉ name)
    (ha : a.isAlpha = true) (hk : IsRun Char.isDigit k)
    (hrest : ∀ c ∈ rest.head?, c.isDigit = false) (hparen : ')' ∉ rest) :
    ∃ m, search regexProcStat
        (d ++ ' ' :: '(' :: (name ++ ')' :: ' ' :: a :: ' ' :: (k ++ rest))) = some m ∧
      m.get "ppid" = some k := by
  have htail := head?_run_tail ha hk hrest
  have hlast : ∀ t', t' <:+ ')' :: ' ' :: a :: ' ' :: (k ++ rest) →
      t' ≠ ')' :: ' ' :: a :: ' ' :: (k ++ rest) → run regexProcStatTail t' = [] := by
    intro t' hs hne
    apply run_tail_eq_nil
    intro hm
    have hs' := (List.suffix_cons_iff.mp hs).resolve_left hne
    have hm' := hs'.subset hm
    have hka : ')' ∉ k := hk.notMem (by decide)
    have haa : a ≠ ')' := by
      rintro rfl
      exact absurd ha (by decide)
    simp [hka, hparen, haa.symm] at hm'
  have hstar := head?_run_star_seq (p := notNewline) (u := name)
    (fun c hc => decide_eq_true fun he : c = '\n' => hname (he ▸ hc))
    (by rw [ne_eq, ← List.head?_eq_none_iff, htail]; simp) hlast
  have hrun : (run regexProcStat (d ++ ' ' :: '(' ::
      (name ++ ')' :: ' ' :: a :: ' ' :: (k ++ rest)))).head? = some ([("ppid", k)], rest) := by
    obtain ⟨x, l, hx⟩ := List.exists_cons_of_ne_nil (List.ne_nil_of_mem (mem_run_head hd
      (t := name ++ ')' :: ' ' :: a :: ' ' :: (k ++ rest))))
    obtain rfl := eq_of_mem_run_head hd.2 (hx ▸ List.mem_cons_self)
    rw [regexProcStat, run, hx, List.flatMap_cons, List.head?_append, List.head?_map, hstar, htail]
    rfl
  refine ⟨_, search_of_first (by rw [first, hrun]; rfl), ?_⟩
  simp [Match.get]

end Checkc
