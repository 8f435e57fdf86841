import Mathlib.Data.List.DropRight
import Mathlib.Data.List.Infix
import Mathlib.Tactic.IntervalCases

/-! # Text and numbers

Splitting at white space, substring search and the parsing of unsigned numbers.
Text is a list of characters.
-/

namespace Checkc

/-- `char::is_ascii_whitespace`. -/
def isAsciiWhitespace (c : Char) : Bool :=
  c = ' ' || c = '\t' || c = '\n' || c = '\x0c' || c = '\r'

/-- `char::is_whitespace`, the Unicode property `White_Space`. -/
def isWhitespace (c : Char) : Bool :=
  let n := c.toNat
  (0x9 ≤ n && n ≤ 0xd) || n = 0x20 || n = 0x85 || n = 0xa0 || n = 0x1680 ||
    (0x2000 ≤ n && n ≤ 0x200a) || n = 0x2028 || n = 0x2029 || n = 0x202f || n = 0x205f || n = 0x3000

theorem isDigit_eq_false_of_isWhitespace {c : Char} (h : isWhitespace c = true) :
    c.isDigit = false := by
  by_contra hd
  rw [Bool.not_eq_false, Char.isDigit, Bool.and_eq_true, decide_eq_true_iff, decide_eq_true_iff,
    ge_iff_le, UInt32.le_iff_toNat_le, UInt32.le_iff_toNat_le] at hd
  have hn : 48 ≤ c.toNat ∧ c.toNat ≤ 57 := hd
  simp only [isWhitespace, Bool.or_eq_true, Bool.and_eq_true, decide_eq_true_iff] at h
  omega

/-- `str::split_ascii_whitespace`: the maximal nonempty parts without white space. -/
def splitAsciiWhitespace (s : List Char) : List (List Char) :=
  (s.splitOnP isAsciiWhitespace).filter (· ≠ [])

/-- `str::trim`. -/
def trim (s : List Char) : List Char := (s.dropWhile isWhitespace).rdropWhile isWhitespace

/-- `str::contains` for a substring. -/
def containsStr (s pat : List Char) : Bool := decide (pat <:+: s)

@[simp] theorem containsStr_iff {s pat : List Char} : containsStr s pat = true ↔ pat <:+: s := by
  simp [containsStr]

/-- The carriage return that `BufRead::lines` removes with the end of a line. -/
def chomp (line : List Char) : List Char :=
  if line.getLast? = some '\r' then line.dropLast else line

/-- A carriage return at the end of a first part is not at the end of the line. -/
theorem chomp_append {s t : List Char} (hs : s.getLast? ≠ some '\r') :
    chomp (s ++ t) = s ++ chomp t := by
  unfold chomp
  cases t with
  | nil => simp [hs]
  | cons c t =>
    rw [List.getLast?_append_of_ne_nil _ (List.cons_ne_nil c t),
      List.dropLast_append_of_ne_nil (List.cons_ne_nil c t)]
    split_ifs <;> rfl

theorem chomp_cons_cons (a b : Char) (l : List Char) :
    chomp (a :: b :: l) = a :: chomp (b :: l) := by
  unfold chomp
  rw [List.getLast?_cons_cons]
  split_ifs <;> rfl

theorem chomp_prefix_self (line : List Char) : chomp line <+: line := by
  unfold chomp
  split_ifs
  · exact List.dropLast_prefix line
  · exact List.prefix_refl line

theorem head?_chomp_ne {line : List Char} {c : Char} (h : line.head? ≠ some c) :
    (chomp line).head? ≠ some c := by
  obtain ⟨s, hs⟩ := chomp_prefix_self line
  rw [← hs, List.head?_append] at h
  exact fun hc => h (by rw [hc]; rfl)

/-! ## Words -/

/-- White space separates the parts before and after it. -/
theorem splitAsciiWhitespace_append {c : Char} (hc : isAsciiWhitespace c = true)
    (s t : List Char) :
    splitAsciiWhitespace (s ++ c :: t) = splitAsciiWhitespace s ++ splitAsciiWhitespace t := by
  rw [splitAsciiWhitespace, List.splitOnP_append_cons s t hc, List.filter_append]
  rfl

theorem splitAsciiWhitespace_cons {c : Char} (hc : isAsciiWhitespace c = true) (t : List Char) :
    splitAsciiWhitespace (c :: t) = splitAsciiWhitespace t :=
  splitAsciiWhitespace_append hc [] t

theorem splitAsciiWhitespace_word {w : List Char} (hw : w ≠ [])
    (h : ∀ c ∈ w, isAsciiWhitespace c = false) : splitAsciiWhitespace w = [w] := by
  rw [splitAsciiWhitespace, List.splitOnP_eq_singleton h]
  simp [hw]

theorem splitAsciiWhitespace_replicate {c : Char} (hc : isAsciiWhitespace c = true) (k : ℕ)
    (t : List Char) :
    splitAsciiWhitespace (List.replicate k c ++ t) = splitAsciiWhitespace t := by
  induction k with
  | zero => rfl
  | succ k ih => exact (splitAsciiWhitespace_cons hc _).trans ih

theorem trim_word {w : List Char} (h : ∀ c ∈ w, isWhitespace c = false) : trim w = w := by
  have hdrop : w.dropWhile isWhitespace = w := by
    cases w with
    | nil => rfl
    | cons c w => exact List.dropWhile_cons_of_neg (by simp [h c List.mem_cons_self])
  rw [trim, hdrop, List.rdropWhile_eq_self_iff]
  exact fun hne => by simp [h _ (List.getLast_mem hne)]

/-- The line end after a word is trimmed. -/
theorem trim_line {w : List Char} (h : ∀ c ∈ w, isWhitespace c = false) :
    trim (w ++ ['\n']) = w := by
  cases w with
  | nil => rfl
  | cons c w =>
    have hdrop : ((c :: w) ++ ['\n']).dropWhile isWhitespace = (c :: w) ++ ['\n'] :=
      List.dropWhile_cons_of_neg (by simp [h c List.mem_cons_self])
    have hword := trim_word h
    rw [trim, hdrop, List.rdropWhile_concat_pos _ _ '\n' rfl]
    rwa [trim, List.dropWhile_cons_of_neg (by simp [h c List.mem_cons_self])] at hword

/-! ## Unsigned numbers -/

/-- `core::num::IntErrorKind`, as far as unsigned numbers have it. -/
inductive ParseIntError where
  | empty | invalidDigit | posOverflow
  deriving DecidableEq, Repr

def ParseIntError.message : ParseIntError → String
  | empty => "cannot parse integer from empty string"
  | invalidDigit => "invalid digit found in string"
  | posOverflow => "number too large to fit in target type"

/-- `char::to_digit`. -/
def toDigit (radix : ℕ) (c : Char) : Option ℕ :=
  let d :=
    if '0' ≤ c ∧ c ≤ '9' then some (c.toNat - '0'.toNat)
    else if 'a' ≤ c ∧ c ≤ 'z' then some (c.toNat - 'a'.toNat + 10)
    else if 'A' ≤ c ∧ c ≤ 'Z' then some (c.toNat - 'A'.toNat + 10)
    else none
  d.filter (· < radix)

/-- The digit loop of `from_str_radix`, with every step checked against the largest value. -/
def parseDigits (radix max : ℕ) : ℕ → List Char → Except ParseIntError ℕ
  | acc, [] => .ok acc
  | acc, c :: cs =>
    match toDigit radix c with
    | none => .error .invalidDigit
    | some d =>
      if acc * radix + d ≤ max then parseDigits radix max (acc * radix + d) cs
      else .error .posOverflow

/-- `from_str_radix` of an unsigned type with the given largest value. -/
def fromStrRadix (radix max : ℕ) : List Char → Except ParseIntError ℕ
  | [] => .error .empty
  | ['+'] => .error .invalidDigit
  | '+' :: cs => parseDigits radix max 0 cs
  | cs => parseDigits radix max 0 cs

/-! ## Digits -/

theorem toDigit_digitChar {radix d : ℕ} (hd : d < radix) (hr : radix ≤ 16) :
    toDigit radix d.digitChar = some d := by
  have h16 : d < 16 := hd.trans_le hr
  unfold toDigit
  interval_cases d <;> simp [Nat.digitChar, hd]

theorem toDigit_of_isDigit {c : Char} (h : c.isDigit = true) :
    toDigit 10 c = some (c.toNat - '0'.toNat) := by
  have hc : 48 ≤ c.toNat ∧ c.toNat ≤ 57 := Char.isDigit_iff_toNat.mp h
  have h0 : '0' ≤ c := hc.1
  have h9 : c ≤ '9' := hc.2
  have hlt : c.toNat - '0'.toNat < 10 := by
    have h48 : '0'.toNat = 48 := rfl
    omega
  rw [toDigit, if_pos ⟨h0, h9⟩]
  simpa using hlt

theorem le_ofDigitChars (ds : List Char) (n : ℕ) : n ≤ Nat.ofDigitChars 10 ds n := by
  induction ds generalizing n with
  | nil => rw [Nat.ofDigitChars_nil]
  | cons c ds ih =>
    rw [Nat.ofDigitChars_cons]
    refine le_trans ?_ (ih _)
    omega

/-- Digits are parsed to their value, if it fits. -/
theorem parseDigits_of_isDigit {max acc : ℕ} {ds : List Char} (h : ∀ c ∈ ds, c.isDigit = true)
    (hacc : acc ≤ max) : parseDigits 10 max acc ds =
      if Nat.ofDigitChars 10 ds acc ≤ max then .ok (Nat.ofDigitChars 10 ds acc)
      else .error .posOverflow := by
  induction ds generalizing acc with
  | nil => rw [parseDigits, Nat.ofDigitChars_nil, if_pos hacc]
  | cons c ds ih =>
    rw [List.forall_mem_cons] at h
    rw [parseDigits, toDigit_of_isDigit h.1, Nat.ofDigitChars_cons, mul_comm 10 acc]
    simp only
    split_ifs with h1 h2 h2
    · rw [ih h.2 h1, if_pos h2]
    · rw [ih h.2 h1, if_neg h2]
    · exact absurd ((le_ofDigitChars ds _).trans h2) h1
    · rfl

theorem parseDigits_append {radix max acc n : ℕ} {cs ds : List Char}
    (h : parseDigits radix max acc cs = .ok n) :
    parseDigits radix max acc (cs ++ ds) = parseDigits radix max n ds := by
  induction cs generalizing acc with
  | nil =>
    obtain rfl := Except.ok.inj h
    rfl
  | cons c cs ih =>
    rw [parseDigits] at h
    rw [List.cons_append, parseDigits]
    split at h
    · cases h
    · case h_2 d hd =>
      split_ifs at h with hm
      exact (if_pos hm).trans (ih h)

/-- A number is read back from its digits. -/
theorem parseDigits_toDigits {radix max n : ℕ} (h1 : 1 < radix) (hr : radix ≤ 16) (hn : n ≤ max) :
    parseDigits radix max 0 (Nat.toDigits radix n) = .ok n := by
  induction n using Nat.strong_induction_on with
  | _ n ih =>
  have hstep : ∀ acc d, d < radix → acc * radix + d ≤ max →
      parseDigits radix max acc [d.digitChar] = .ok (acc * radix + d) := by
    intro acc d hd hm
    rw [parseDigits, toDigit_digitChar hd hr]
    exact if_pos hm
  rcases lt_or_ge n radix with hlt | hge
  · rw [Nat.toDigits_of_lt_base hlt, hstep 0 n hlt (by omega), Nat.zero_mul, Nat.zero_add]
  · have hdiv : n / radix < n := Nat.div_lt_self (by omega) h1
    have hmod : n / radix * radix + n % radix = n := Nat.div_add_mod' n radix
    rw [Nat.toDigits_of_base_le h1 hge, parseDigits_append (ih _ hdiv (hdiv.le.trans hn)),
      hstep _ _ (Nat.mod_lt _ (by omega)) (hmod.trans_le hn), hmod]

theorem parseDigits_replicate_zero {radix max : ℕ} (h1 : 1 < radix) (hr : radix ≤ 16) (k : ℕ)
    (cs : List Char) :
    parseDigits radix max 0 (List.replicate k '0' ++ cs) = parseDigits radix max 0 cs := by
  apply parseDigits_append
  induction k with
  | zero => rfl
  | succ k ih =>
    have h0 : toDigit radix '0' = some 0 := toDigit_digitChar (d := 0) (by omega) hr
    simpa [List.replicate_succ, parseDigits, h0] using ih

/-- A digit as it is printed. -/
theorem exists_digitChar_of_mem_toDigits {radix n : ℕ} (h1 : 1 < radix) {c : Char}
    (hc : c ∈ Nat.toDigits radix n) : ∃ d < radix, d.digitChar = c := by
  induction n using Nat.strong_induction_on with
  | _ n ih =>
  rcases lt_or_ge n radix with hlt | hge
  · rw [Nat.toDigits_of_lt_base hlt, List.mem_singleton] at hc
    exact ⟨n, hlt, hc.symm⟩
  · rw [Nat.toDigits_of_base_le h1 hge, List.mem_append, List.mem_singleton] at hc
    rcases hc with hc | rfl
    · exact ih _ (Nat.div_lt_self (by omega) h1) hc
    · exact ⟨n % radix, Nat.mod_lt _ (by omega), rfl⟩

theorem not_mem_toDigits {radix n : ℕ} (h1 : 1 < radix) (hr : radix ≤ 16) {c : Char}
    (hc : toDigit radix c = none) : c ∉ Nat.toDigits radix n := by
  intro hm
  obtain ⟨d, hd, rfl⟩ := exists_digitChar_of_mem_toDigits h1 hm
  rw [toDigit_digitChar hd hr] at hc
  cases hc

theorem fromStrRadix_eq_parseDigits {radix max : ℕ} {cs : List Char} (h : cs ≠ [])
    (hp : '+' ∉ cs) : fromStrRadix radix max cs = parseDigits radix max 0 cs := by
  unfold fromStrRadix
  split <;> simp_all

/-- A number is read back from its text, which may begin with zeros. -/
theorem fromStrRadix_toDigits {radix max n : ℕ} (h1 : 1 < radix) (hr : radix ≤ 16) (hn : n ≤ max)
    (k : ℕ) : fromStrRadix radix max (List.replicate k '0' ++ Nat.toDigits radix n) = .ok n := by
  rw [fromStrRadix_eq_parseDigits, parseDigits_replicate_zero h1 hr, parseDigits_toDigits h1 hr hn]
  · exact List.append_ne_nil_of_right_ne_nil _ Nat.toDigits_ne_nil
  · rw [List.mem_append, not_or]
    exact ⟨fun h => by simpa using (List.mem_replicate.mp h).2,
      not_mem_toDigits h1 hr (by simp [toDigit])⟩

/-- Digits are no white space, so that a number is a word. -/
theorem splitAsciiWhitespace_toDigits {radix n : ℕ} (h1 : 1 < radix) (hr : radix ≤ 16) :
    splitAsciiWhitespace (Nat.toDigits radix n) = [Nat.toDigits radix n] := by
  apply splitAsciiWhitespace_word Nat.toDigits_ne_nil
  intro c hc
  by_contra hw
  rw [Bool.not_eq_false] at hw
  refine not_mem_toDigits h1 hr ?_ hc
  simp only [isAsciiWhitespace, Bool.or_eq_true, decide_eq_true_eq] at hw
  rcases hw with (((rfl | rfl) | rfl) | rfl) | rfl <;> simp [toDigit]

end Checkc
