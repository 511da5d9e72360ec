/-
  WireForm — the integer kinds of a schema.

  An integer field has a width and may be signed.

  * `IntKind`: the eight kinds, with `min` and `max`;
  * `IntKind.Word`: the integers of a kind.
-/
import WireForm.Power

namespace WireForm

/-- A kind of integers. -/
inductive IntKind where
  | i8
  | i16
  | i32
  | i64
  | u8
  | u16
  | u32
  | u64
  deriving DecidableEq

namespace IntKind

/-- The name of a kind in messages. -/
def name : IntKind → String
  | i8 => "i8"
  | i16 => "i16"
  | i32 => "i32"
  | i64 => "i64"
  | u8 => "u8"
  | u16 => "u16"
  | u32 => "u32"
  | u64 => "u64"

/-- Whether a kind has negative integers. -/
def signed : IntKind → Bool
  | i8 | i16 | i32 | i64 => true
  | u8 | u16 | u32 | u64 => false

/-- The least integer of a kind. -/
def min : IntKind → Int
  | i8 => -2 ^ 7
  | i16 => -2 ^ 15
  | i32 => -2 ^ 31
  | i64 => -2 ^ 63
  | u8 | u16 | u32 | u64 => 0

/-- The greatest integer of a kind. -/
def max : IntKind → Int
  | i8 => 2 ^ 7 - 1
  | i16 => 2 ^ 15 - 1
  | i32 => 2 ^ 31 - 1
  | i64 => 2 ^ 63 - 1
  | u8 => 2 ^ 8 - 1
  | u16 => 2 ^ 16 - 1
  | u32 => 2 ^ 32 - 1
  | u64 => 2 ^ 64 - 1

/-- The integer is of the kind. -/
def Contains (k : IntKind) (n : Int) : Prop := k.min ≤ n ∧ n ≤ k.max

instance (k : IntKind) (n : Int) : Decidable (k.Contains n) :=
  inferInstanceAs (Decidable (_ ∧ _))

/-- The integers of a kind. -/
abbrev Word (k : IntKind) : Type := { n : Int // k.Contains n }

/-- Every kind fits the integers of documents. -/
theorem Contains.range {k : IntKind} {n : Int} (h : k.Contains n) : -2 ^ 63 ≤ n ∧ n < 2 ^ 64 := by
  obtain ⟨h₁, h₂⟩ := h
  cases k <;> simp only [min, max] at h₁ h₂ <;> omega

end IntKind

end WireForm
