import Checkc.Regex.Basic

/-! # UUIDs in flag paths -/

namespace Checkc

open Regex

/-- The class `[a-f0-9]`. -/
def hexLower (c : Char) : Bool := ('a' ≤ c && c ≤ 'f') || ('0' ≤ c && c ≤ '9')

/-- `REGEX_UUID`. -/
def regexUuid : Regex :=
  .seq (times hexLower 8) <| .seq (lit '-') <| .seq (times hexLower 4) <| .seq (lit '-') <|
    .seq (times hexLower 4) <| .seq (lit '-') <| .seq (times hexLower 4) <| .seq (lit '-') <|
      times hexLower 12

/-- A run of lower-case hexadecimal digits of the given length. -/
def IsHexBlock (n : ℕ) (u : List Char) : Prop := u.length = n ∧ ∀ c ∈ u, hexLower c = true

/-- Five blocks of hexadecimal digits, separated by hyphens. -/
def IsUuid (u : List Char) : Prop :=
  ∃ a b c d e, u = a ++ '-' :: (b ++ '-' :: (c ++ '-' :: (d ++ '-' :: e))) ∧
    IsHexBlock 8 a ∧ IsHexBlock 4 b ∧ IsHexBlock 4 c ∧ IsHexBlock 4 d ∧ IsHexBlock 12 e

/-- Some part of the text is a UUID. -/
def ContainsUuid (s : String) : Prop := ∃ pre u post, s.toList = pre ++ u ++ post ∧ IsUuid u

theorem accepts_regexUuid_iff {u : List Char} : Accepts regexUuid u ↔ IsUuid u := by
  simp only [regexUuid, accepts_seq_iff, accepts_lit_iff, accepts_times_iff, IsUuid, IsHexBlock]
  constructor
  · rintro ⟨a, _, rfl, ha, _, _, rfl, rfl, b, _, rfl, hb, _, _, rfl, rfl, c, _, rfl, hc, _, _, rfl,
      rfl, d, _, rfl, hd, _, e, rfl, rfl, he⟩
    exact ⟨a, b, c, d, e, rfl, ha, hb, hc, hd, he⟩
  · rintro ⟨a, b, c, d, e, rfl, ha, hb, hc, hd, he⟩
    exact ⟨a, _, rfl, ha, _, _, rfl, rfl, b, _, rfl, hb, _, _, rfl, rfl, c, _, rfl, hc, _, _, rfl,
      rfl, d, _, rfl, hd, _, e, rfl, rfl, he⟩

/-- The pattern finds a match exactly in the texts that contain a UUID. -/
theorem search_regexUuid_isSome_iff {s : String} :
    (search regexUuid s.toList).isSome = true ↔ ContainsUuid s := by
  simp only [search_isSome_iff, accepts_regexUuid_iff, ContainsUuid]

end Checkc
