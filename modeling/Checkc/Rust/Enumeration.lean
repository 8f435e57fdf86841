import Mathlib.Data.List.Nodup

/-! # Enumerations stored as integers

A message stores an enumeration field as a 32-bit integer that need not be the
number of any variant. `fromI32` decodes such a number and the getter of a field
replaces an unknown number by the variant with number zero.
-/

namespace Checkc

/-- An enumeration with a number for each of its variants. -/
class ProtoEnum (α : Type) where
  variants : List α
  toI32 : α → Int
  mem_variants : ∀ a, a ∈ variants
  nodup_codes : (variants.map toI32).Nodup

namespace ProtoEnum

variable {α : Type} [ProtoEnum α]

theorem toI32_injective : Function.Injective (toI32 : α → Int) := fun a b h =>
  List.inj_on_of_nodup_map nodup_codes (mem_variants a) (mem_variants b) h

@[simp] theorem toI32_inj {a b : α} : toI32 a = toI32 b ↔ a = b := toI32_injective.eq_iff

/-- The variant with the given number, if there is one. -/
def fromI32 (n : Int) : Option α := variants.find? (toI32 · = n)

theorem fromI32_eq_some {n : Int} {a : α} : fromI32 n = some a ↔ toI32 a = n := by
  constructor
  · intro h
    simpa using List.find?_some h
  · rintro rfl
    cases h : (fromI32 (toI32 a) : Option α) with
    | none => simpa using List.find?_eq_none.mp h a (mem_variants a)
    | some b =>
      have hb : toI32 b = toI32 a := by simpa using List.find?_some h
      rw [toI32_injective hb]

@[simp] theorem fromI32_toI32 (a : α) : fromI32 (toI32 a) = some a := fromI32_eq_some.mpr rfl

/-- The getter of an enumeration field with the given variant of number zero. -/
def getter (zero : α) (n : Int) : α := (fromI32 n).getD zero

@[simp] theorem getter_toI32 (zero a : α) : getter zero (toI32 a) = a := by simp [getter]

end ProtoEnum

end Checkc
