import Mathlib.Data.List.TakeWhile
import Mathlib.Tactic.Basic

/-! # Regular expressions with leftmost-first search

`run` lists the ways in which an expression matches a prefix of a text, preferred
ones first: a repetition prefers another round to stopping. A search takes the
preferred match at the leftmost position where there is one.
-/

namespace Checkc

/-- Regular expressions with greedy repetition and named groups. -/
inductive Regex where
  | empty
  | char (p : Char → Bool)
  | seq (r s : Regex)
  | star (r : Regex)
  | group (name : String) (r : Regex)

namespace Regex

/-- The groups that took part in a match, in the order in which they ended. -/
abbrev Captures := List (String × List Char)

/-- The rounds of a repetition. A round without progress ends it. -/
def starRun (m : List Char → List (Captures × List Char)) :
    ℕ → List Char → List (Captures × List Char)
  | 0, s => [([], s)]
  | n + 1, s =>
    ((m s).flatMap fun x =>
      if x.2.length < s.length then (starRun m n x.2).map fun y => (x.1 ++ y.1, y.2) else []) ++
      [([], s)]

/-- The matches of an expression with a prefix of the text, each with the remaining text. -/
def run : Regex → List Char → List (Captures × List Char)
  | .empty, s => [([], s)]
  | .char _, [] => []
  | .char p, c :: s => if p c then [([], s)] else []
  | .seq r t, s => (run r s).flatMap fun x => (run t x.2).map fun y => (x.1 ++ y.1, y.2)
  | .star r, s => starRun (run r) s.length s
  | .group n r, s => (run r s).map fun x => (x.1 ++ [(n, s.take (s.length - x.2.length))], x.2)

/-- One character. -/
def lit (c : Char) : Regex := .char (· = c)

/-- At least one character of a class. -/
def plus (p : Char → Bool) : Regex := .seq (.char p) (.star (.char p))

/-- A nonempty text of characters of a class. -/
def IsRun (p : Char → Bool) (u : List Char) : Prop := u ≠ [] ∧ ∀ a ∈ u, p a = true

instance (p : Char → Bool) (u : List Char) : Decidable (IsRun p u) :=
  decidable_of_iff (u ≠ [] ∧ u.all p = true) (by rw [IsRun, List.all_eq_true])

theorem IsRun.notMem {p : Char → Bool} {u : List Char} (h : IsRun p u) {a : Char}
    (ha : p a = false) : a ∉ u :=
  fun hm => Bool.false_ne_true (ha.symm.trans (h.2 a hm))

/-- Exactly `n` characters of a class. -/
def times (p : Char → Bool) : ℕ → Regex
  | 0 => .empty
  | n + 1 => .seq (.char p) (times p n)

/-- A match of a search. -/
structure Match where
  text : List Char
  captures : Captures

/-- The text of a named group. A group that took part several times has its last text. -/
def Match.get (m : Match) (name : String) : Option (List Char) :=
  (m.captures.reverse.find? (·.1 = name)).map Prod.snd

/-- The preferred match at the beginning of the text. -/
def first (r : Regex) (s : List Char) : Option Match :=
  (run r s).head?.map fun x => ⟨s.take (s.length - x.2.length), x.1⟩

/-- `Regex::captures`: the preferred match at the leftmost position. -/
def search (r : Regex) : List Char → Option Match
  | [] => first r []
  | c :: s => (first r (c :: s)).or (search r s)

/-! ## Search -/

theorem first_eq_some {r : Regex} {s : List Char} {m : Match} (h : first r s = some m) :
    ∃ t, (run r s).head? = some (m.captures, t) := by
  simp only [first, Option.map_eq_some_iff] at h
  obtain ⟨x, hx, rfl⟩ := h
  exact ⟨x.2, hx⟩

theorem search_of_first {r : Regex} {s : List Char} {m : Match} (h : first r s = some m) :
    search r s = some m := by
  cases s with
  | nil => exact h
  | cons c s => rw [search, h, Option.some_or]

theorem exists_first_of_search {r : Regex} {s : List Char} {m : Match}
    (h : search r s = some m) : ∃ pre t, s = pre ++ t ∧ first r t = some m := by
  induction s with
  | nil => exact ⟨[], [], rfl, h⟩
  | cons c s ih =>
    rw [search, Option.or_eq_some_iff] at h
    rcases h with h | ⟨-, h⟩
    · exact ⟨[], c :: s, rfl, h⟩
    · obtain ⟨pre, t, rfl, hm⟩ := ih h
      exact ⟨c :: pre, t, rfl, hm⟩

theorem exists_first_of_mem_run {r : Regex} {s : List Char} {x : Captures × List Char}
    (h : x ∈ run r s) : ∃ m, first r s = some m := by
  obtain ⟨y, l, hy⟩ := List.exists_cons_of_ne_nil (List.ne_nil_of_mem h)
  exact ⟨_, by rw [first, hy]; rfl⟩

theorem search_isSome_of_append {r : Regex} {pre t : List Char} {x : Captures × List Char}
    (h : x ∈ run r t) : (search r (pre ++ t)).isSome = true := by
  induction pre with
  | nil =>
    obtain ⟨m, hm⟩ := exists_first_of_mem_run h
    rw [List.nil_append, search_of_first hm, Option.isSome_some]
  | cons c pre ih =>
    rw [List.cons_append, search, Option.isSome_or, ih, Bool.or_true]

/-! ## The texts that an expression accepts -/

/-- The whole text matches the expression with these captures. -/
inductive Parses : Regex → List Char → Captures → Prop
  | empty : Parses .empty [] []
  | char {p : Char → Bool} {a : Char} : p a = true → Parses (.char p) [a] []
  | seq {r t : Regex} {u v : List Char} {c d : Captures} : Parses r u c → Parses t v d →
      Parses (.seq r t) (u ++ v) (c ++ d)
  | star_nil {r : Regex} : Parses (.star r) [] []
  | star_cons {r : Regex} {u v : List Char} {c d : Captures} : Parses r u c → u ≠ [] →
      Parses (.star r) v d → Parses (.star r) (u ++ v) (c ++ d)
  | group {r : Regex} {u : List Char} {c : Captures} (n : String) : Parses r u c →
      Parses (.group n r) u (c ++ [(n, u)])

/-- The whole text matches the expression. -/
def Accepts (r : Regex) (u : List Char) : Prop := ∃ c, Parses r u c

section Run

variable {r : Regex} {s t u : List Char} {c : Captures}

theorem take_length_sub (u t : List Char) : (u ++ t).take ((u ++ t).length - t.length) = u := by
  rw [List.length_append, Nat.add_sub_cancel, List.take_left]

theorem parses_of_mem_starRun
    (hr : ∀ s c t, (c, t) ∈ run r s → ∃ u, s = u ++ t ∧ Parses r u c) {n : ℕ}
    (h : (c, t) ∈ starRun (run r) n s) : ∃ u, s = u ++ t ∧ Parses (.star r) u c := by
  induction n generalizing s c with
  | zero =>
    obtain ⟨rfl, rfl⟩ := Prod.mk.inj (List.mem_singleton.mp h)
    exact ⟨[], rfl, .star_nil⟩
  | succ n ih =>
    rw [starRun, List.mem_append, List.mem_singleton, List.mem_flatMap] at h
    rcases h with ⟨⟨c₁, s₁⟩, h₁, h⟩ | h
    · split at h
      · case isTrue hlt =>
        obtain ⟨⟨c₂, t₂⟩, h₂, he⟩ := List.mem_map.mp h
        obtain ⟨rfl, rfl⟩ := Prod.mk.inj he
        obtain ⟨u, rfl, hu⟩ := hr _ _ _ h₁
        obtain ⟨v, rfl, hv⟩ := ih h₂
        have hne : u ≠ [] := by
          rintro rfl
          exact lt_irrefl _ hlt
        exact ⟨u ++ v, (List.append_assoc _ _ _).symm, .star_cons hu hne hv⟩
      · cases h
    · obtain ⟨rfl, rfl⟩ := Prod.mk.inj h
      exact ⟨[], rfl, .star_nil⟩

/-- A match consumes a prefix that the expression accepts. -/
theorem parses_of_mem_run (h : (c, t) ∈ run r s) : ∃ u, s = u ++ t ∧ Parses r u c := by
  induction r generalizing s c t with
  | empty =>
    obtain ⟨rfl, rfl⟩ := Prod.mk.inj (List.mem_singleton.mp h)
    exact ⟨[], rfl, .empty⟩
  | char p =>
    cases s with
    | nil => cases h
    | cons a s =>
      rw [run] at h
      split at h
      · case isTrue hp =>
        obtain ⟨rfl, rfl⟩ := Prod.mk.inj (List.mem_singleton.mp h)
        exact ⟨[a], rfl, .char hp⟩
      · cases h
  | seq r r' ihr ihr' =>
    obtain ⟨⟨c₁, s₁⟩, h₁, h⟩ := List.mem_flatMap.mp h
    obtain ⟨⟨c₂, t₂⟩, h₂, he⟩ := List.mem_map.mp h
    obtain ⟨rfl, rfl⟩ := Prod.mk.inj he
    obtain ⟨u, rfl, hu⟩ := ihr h₁
    obtain ⟨v, rfl, hv⟩ := ihr' h₂
    exact ⟨u ++ v, (List.append_assoc _ _ _).symm, .seq hu hv⟩
  | star r ih => exact parses_of_mem_starRun (fun s c t hx => ih hx) h
  | group n r ih =>
    obtain ⟨⟨c₁, s₁⟩, h₁, he⟩ := List.mem_map.mp h
    obtain ⟨rfl, rfl⟩ := Prod.mk.inj he
    obtain ⟨u, rfl, hu⟩ := ih h₁
    exact ⟨u, rfl, by rw [take_length_sub]; exact hu.group n⟩

theorem mem_starRun_of_parses
    (hr : ∀ u c t, Parses r u c → (c, t) ∈ run r (u ++ t)) (h : Parses (.star r) u c)
    (t : List Char) {n : ℕ} (hn : u.length ≤ n) : (c, t) ∈ starRun (run r) n (u ++ t) := by
  generalize he : Regex.star r = e at h
  induction h generalizing n with
  | empty => cases he
  | char _ => cases he
  | seq _ _ _ _ => cases he
  | group _ _ _ => cases he
  | star_nil => cases n <;> simp [starRun]
  | @star_cons r' u v c d hu hne _ _ ih =>
    obtain rfl := Regex.star.inj he
    have hpos := List.length_pos_iff.mpr hne
    rw [List.length_append] at hn
    cases n with
    | zero => omega
    | succ n =>
      rw [starRun, List.append_assoc]
      refine List.mem_append_left _ (List.mem_flatMap.mpr ⟨_, hr u c (v ++ t) hu, ?_⟩)
      rw [if_pos (by simp only [List.length_append]; omega)]
      exact List.mem_map.mpr ⟨_, ih (n := n) (by omega) rfl, rfl⟩

/-- Every prefix that the expression accepts is the text of a match. -/
theorem mem_run_of_parses (h : Parses r u c) (t : List Char) : (c, t) ∈ run r (u ++ t) := by
  induction r generalizing u c t with
  | empty => cases h; exact List.mem_singleton.mpr rfl
  | char p =>
    cases h with
    | char hp => simp [run, hp]
  | seq r r' ihr ihr' =>
    cases h with
    | @seq _ _ u v c d hu hv =>
      rw [List.append_assoc]
      exact List.mem_flatMap.mpr ⟨_, ihr hu (v ++ t), List.mem_map.mpr ⟨_, ihr' hv t, rfl⟩⟩
  | star r ih => exact mem_starRun_of_parses (fun u c t hu => ih hu t) h t (by simp)
  | group n r ih =>
    cases h with
    | group _ hu => exact List.mem_map.mpr ⟨_, ih hu t, by rw [take_length_sub]⟩

/-- The matches of an expression are the ways in which it accepts a prefix. -/
theorem mem_run_iff : (c, t) ∈ run r s ↔ ∃ u, s = u ++ t ∧ Parses r u c :=
  ⟨parses_of_mem_run, fun ⟨_, hs, h⟩ => hs ▸ mem_run_of_parses h t⟩

/-- A search succeeds exactly when some part of the text is accepted. -/
theorem search_isSome_iff :
    (search r s).isSome = true ↔ ∃ pre u post, s = pre ++ u ++ post ∧ Accepts r u := by
  constructor
  · intro h
    obtain ⟨m, hm⟩ := Option.isSome_iff_exists.mp h
    obtain ⟨pre, t, rfl, hf⟩ := exists_first_of_search hm
    obtain ⟨rest, hr⟩ := first_eq_some hf
    obtain ⟨u, rfl, ha⟩ := mem_run_iff.mp (List.mem_of_mem_head? hr)
    exact ⟨pre, u, rest, (List.append_assoc _ _ _).symm, _, ha⟩
  · rintro ⟨pre, u, post, rfl, c, ha⟩
    rw [List.append_assoc]
    exact search_isSome_of_append (mem_run_iff.mpr ⟨u, rfl, ha⟩)

end Run

/-! ## The constructors -/

section Parses

variable {r t : Regex} {p : Char → Bool} {u : List Char} {c : Captures}

@[simp] theorem parses_empty_iff : Parses .empty u c ↔ u = [] ∧ c = [] :=
  ⟨fun h => by cases h; exact ⟨rfl, rfl⟩, fun ⟨hu, hc⟩ => hu ▸ hc ▸ .empty⟩

@[simp] theorem parses_char_iff : Parses (.char p) u c ↔ ∃ a, p a = true ∧ u = [a] ∧ c = [] :=
  ⟨fun h => by cases h with | char hp => exact ⟨_, hp, rfl, rfl⟩,
    fun ⟨_, hp, hu, hc⟩ => hu ▸ hc ▸ .char hp⟩

@[simp] theorem parses_lit_iff {a : Char} : Parses (lit a) u c ↔ u = [a] ∧ c = [] := by
  simp [lit]

@[simp] theorem parses_seq_iff : Parses (.seq r t) u c ↔
    ∃ v d w e, u = v ++ w ∧ c = d ++ e ∧ Parses r v d ∧ Parses t w e :=
  ⟨fun h => by cases h with | seq hv hw => exact ⟨_, _, _, _, rfl, rfl, hv, hw⟩,
    fun ⟨_, _, _, _, hu, hc, hv, hw⟩ => hu ▸ hc ▸ .seq hv hw⟩

@[simp] theorem parses_group_iff {n : String} :
    Parses (.group n r) u c ↔ ∃ d, c = d ++ [(n, u)] ∧ Parses r u d :=
  ⟨fun h => by cases h with | group _ hu => exact ⟨_, rfl, hu⟩, fun ⟨_, hc, h⟩ => hc ▸ h.group n⟩

/-- A repetition accepts the sequences of nonempty texts that its body accepts. -/
theorem parses_star_iff : Parses (.star r) u c ↔ ∃ l : List (List Char × Captures),
    (∀ x ∈ l, x.1 ≠ [] ∧ Parses r x.1 x.2) ∧ u = l.flatMap Prod.fst ∧ c = l.flatMap Prod.snd := by
  constructor
  · intro h
    generalize he : Regex.star r = e at h
    induction h with
    | empty => cases he
    | char _ => cases he
    | seq _ _ _ _ => cases he
    | group _ _ _ => cases he
    | star_nil => exact ⟨[], by simp, rfl, rfl⟩
    | @star_cons _ u v c d hu hne _ _ ih =>
      obtain rfl := Regex.star.inj he
      obtain ⟨l, hl, rfl, rfl⟩ := ih rfl
      exact ⟨(u, c) :: l, List.forall_mem_cons.mpr ⟨⟨hne, hu⟩, hl⟩, rfl, rfl⟩
  · rintro ⟨l, hl, rfl, rfl⟩
    induction l with
    | nil => exact .star_nil
    | cons x l ih =>
      rw [List.forall_mem_cons] at hl
      exact .star_cons hl.1.2 hl.1.1 (ih hl.2)

/-- A repeated class accepts the texts of its characters. -/
theorem parses_star_char_iff :
    Parses (.star (.char p)) u c ↔ (∀ a ∈ u, p a = true) ∧ c = [] := by
  rw [parses_star_iff]
  constructor
  · rintro ⟨l, hl, rfl, rfl⟩
    simp only [List.mem_flatMap, List.flatMap_eq_nil_iff]
    refine ⟨?_, fun x hx => ?_⟩
    · rintro a ⟨x, hx, ha⟩
      obtain ⟨b, hb, hxb, -⟩ := parses_char_iff.mp (hl x hx).2
      rw [hxb, List.mem_singleton] at ha
      exact ha ▸ hb
    · obtain ⟨-, -, -, hx⟩ := parses_char_iff.mp (hl x hx).2
      exact hx
  · rintro ⟨hu, rfl⟩
    refine ⟨u.map fun a => ([a], []), ?_, by simp [List.flatMap_map], by simp⟩
    simpa using hu

theorem parses_plus_iff : Parses (plus p) u c ↔ IsRun p u ∧ c = [] := by
  simp only [plus, parses_seq_iff, parses_char_iff, parses_star_char_iff]
  constructor
  · rintro ⟨_, _, w, _, rfl, rfl, ⟨a, ha, rfl, rfl⟩, hw, rfl⟩
    exact ⟨⟨by simp, by simpa using ⟨ha, hw⟩⟩, rfl⟩
  · rintro ⟨⟨hne, hu⟩, rfl⟩
    obtain ⟨a, w, rfl⟩ := List.exists_cons_of_ne_nil hne
    rw [List.forall_mem_cons] at hu
    exact ⟨[a], [], w, [], rfl, rfl, ⟨a, hu.1, rfl, rfl⟩, hu.2, rfl⟩

/-- A run of a class before a fixed character. -/
theorem parses_plus_lit_iff {a : Char} : Parses (.seq (plus p) (.seq (lit a) r)) u c ↔
    ∃ w v, u = w ++ a :: v ∧ IsRun p w ∧ Parses r v c := by
  simp only [parses_seq_iff, parses_plus_iff, parses_lit_iff]
  constructor
  · rintro ⟨w, _, _, _, rfl, rfl, ⟨hw, rfl⟩, _, _, v, _, rfl, rfl, ⟨rfl, rfl⟩, hv⟩
    exact ⟨w, v, rfl, hw, hv⟩
  · rintro ⟨w, v, rfl, hw, hv⟩
    exact ⟨w, [], _, c, rfl, rfl, ⟨hw, rfl⟩, [a], [], v, c, rfl, rfl, ⟨rfl, rfl⟩, hv⟩

/-- A captured run of a class before a fixed character. -/
theorem parses_group_plus_lit_iff {n : String} {a : Char} :
    Parses (.seq (.group n (plus p)) (.seq (lit a) r)) u c ↔
      ∃ w v d, u = w ++ a :: v ∧ c = (n, w) :: d ∧ IsRun p w ∧ Parses r v d := by
  simp only [parses_seq_iff, parses_group_iff, parses_plus_iff, parses_lit_iff]
  constructor
  · rintro ⟨w, _, _, _, rfl, rfl, ⟨_, rfl, hw, rfl⟩, _, _, v, d, rfl, rfl, ⟨rfl, rfl⟩, hv⟩
    exact ⟨w, v, d, rfl, rfl, hw, hv⟩
  · rintro ⟨w, v, d, rfl, rfl, hw, hv⟩
    exact ⟨w, [(n, w)], _, d, rfl, rfl, ⟨[], rfl, hw, rfl⟩, [a], [], v, d, rfl, rfl, ⟨rfl, rfl⟩, hv⟩

theorem parses_times_iff {n : ℕ} :
    Parses (times p n) u c ↔ (u.length = n ∧ ∀ a ∈ u, p a = true) ∧ c = [] := by
  induction n generalizing u c with
  | zero =>
    rw [times, parses_empty_iff, List.length_eq_zero_iff]
    exact and_congr_left fun _ => ⟨fun h => ⟨h, by simp [h]⟩, And.left⟩
  | succ n ih =>
    simp only [times, parses_seq_iff, parses_char_iff, ih]
    constructor
    · rintro ⟨_, _, w, _, rfl, rfl, ⟨a, ha, rfl, rfl⟩, ⟨rfl, hw⟩, rfl⟩
      exact ⟨⟨by simp, by simpa using ⟨ha, hw⟩⟩, rfl⟩
    · rintro ⟨⟨hl, hp⟩, rfl⟩
      obtain ⟨a, w, rfl⟩ := List.exists_cons_of_length_eq_add_one hl
      rw [List.forall_mem_cons] at hp
      exact ⟨[a], [], w, [], rfl, rfl, ⟨a, hp.1, rfl, rfl⟩, ⟨by simpa using hl, hp.2⟩, rfl⟩

theorem accepts_seq_iff :
    Accepts (.seq r t) u ↔ ∃ v w, u = v ++ w ∧ Accepts r v ∧ Accepts t w := by
  simp only [Accepts, parses_seq_iff]
  constructor
  · rintro ⟨_, v, d, w, e, hu, -, hv, hw⟩
    exact ⟨v, w, hu, ⟨d, hv⟩, e, hw⟩
  · rintro ⟨v, w, hu, ⟨d, hv⟩, e, hw⟩
    exact ⟨_, v, d, w, e, hu, rfl, hv, hw⟩

theorem accepts_lit_iff {a : Char} : Accepts (lit a) u ↔ u = [a] := by
  simp [Accepts]

theorem accepts_times_iff {n : ℕ} :
    Accepts (times p n) u ↔ u.length = n ∧ ∀ a ∈ u, p a = true := by
  simp [Accepts, parses_times_iff]

end Parses

/-! ## Groups -/

/-- Every match of the expression captures the group. -/
def alwaysCaptures (n : String) : Regex → Bool
  | .empty => false
  | .char _ => false
  | .seq r t => alwaysCaptures n r || alwaysCaptures n t
  | .star _ => false
  | .group m r => decide (m = n) || alwaysCaptures n r

theorem Parses.exists_capture {n : String} {r : Regex} {u : List Char} {c : Captures}
    (h : Parses r u c) (hn : alwaysCaptures n r = true) : ∃ w, (n, w) ∈ c := by
  induction h with
  | empty => cases hn
  | char _ => cases hn
  | star_nil => cases hn
  | star_cons _ _ _ _ _ => cases hn
  | seq _ _ ihr iht =>
    rw [alwaysCaptures, Bool.or_eq_true] at hn
    rcases hn with hn | hn
    · obtain ⟨w, hw⟩ := ihr hn
      exact ⟨w, List.mem_append_left _ hw⟩
    · obtain ⟨w, hw⟩ := iht hn
      exact ⟨w, List.mem_append_right _ hw⟩
  | @group r u c m _ ih =>
    rw [alwaysCaptures, Bool.or_eq_true, decide_eq_true_iff] at hn
    rcases hn with rfl | hn
    · exact ⟨u, List.mem_append_right _ (List.mem_singleton.mpr rfl)⟩
    · obtain ⟨w, hw⟩ := ih hn
      exact ⟨w, List.mem_append_left _ hw⟩

/-- A group that every match captures is there after a search. -/
theorem exists_get_of_search {n : String} {r : Regex} {s : List Char} {m : Match}
    (h : search r s = some m) (hn : alwaysCaptures n r = true) : ∃ w, m.get n = some w := by
  obtain ⟨pre, t, rfl, hf⟩ := exists_first_of_search h
  obtain ⟨rest, hr⟩ := first_eq_some hf
  obtain ⟨u, rfl, hu⟩ := mem_run_iff.mp (List.mem_of_mem_head? hr)
  obtain ⟨w, hw⟩ := hu.exists_capture hn
  rw [← Option.isSome_iff_exists, Match.get, Option.isSome_map, List.find?_isSome]
  exact ⟨(n, w), List.mem_reverse.mpr hw, decide_eq_true rfl⟩

end Regex

end Checkc
