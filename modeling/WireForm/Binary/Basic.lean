/-
  WireForm — numbers of a binary interchange format.

  A number of a format is its sign and two fields.  The finite magnitudes of a
  format are the integer multiples of its least positive number, the quantum;
  all arithmetic here is on those integers, so it is exact.

  * `Format`, `Binary`: a format and its numbers, with `single` and `double`;
  * `Binary.index` is the place of a magnitude among all magnitudes of the
    format, `Format.quanta` the magnitude at a place, in quanta;
  * `Binary.ofQuotient` is the number nearest to a quotient of naturals, the
    even one of two equally near, and an infinity past the largest number;
  * `Binary.convert` takes a number to another format the same way.
-/
import WireForm.Power

namespace WireForm

/-! ## Formats -/

/-- A binary format: the widths of its two fields. -/
structure Format where
  exponentBits : Nat
  fractionBits : Nat
  deriving DecidableEq

namespace Format

/-- The format of 32 bits. -/
abbrev single : Format := ⟨8, 23⟩

/-- The format of 64 bits. -/
abbrev double : Format := ⟨11, 52⟩

variable (f : Format)

/-- The exponent field of the infinities and of the numbers that are none. -/
def topExponent : Nat := 2 ^ f.exponentBits - 1

/-- The quantum of a format is `2 ^ (-scale)`. -/
def scale : Nat := 2 ^ (f.exponentBits - 1) - 2 + f.fractionBits

/-- The magnitude at place `k`, in quanta.  The first `2 ^ fractionBits`
    places hold the subnormal magnitudes, one quantum apart; each further run
    of `2 ^ fractionBits` places is twice as widely spaced as the run before
    (the first such run excepted). -/
def quanta (k : Nat) : Nat :=
  if k / 2 ^ f.fractionBits = 0 then k
  else (2 ^ f.fractionBits + k % 2 ^ f.fractionBits) * 2 ^ (k / 2 ^ f.fractionBits - 1)

/-- The place of infinity, one past the largest finite magnitude. -/
def infinityIndex : Nat := f.topExponent * 2 ^ f.fractionBits

end Format

/-! ## Rounding -/

/-- `num / den` to the nearest natural number, a half to the even one. -/
def roundHalfEven (num den : Nat) : Nat :=
  let q := num / den
  let r := num % den
  if 2 * r < den then q
  else if den < 2 * r then q + 1
  else q + q % 2

/-- The place of the magnitude nearest to `num / den` quanta.  With `s` the
    number of binary places that the integer part has beyond a full
    significand, the neighbours are `2 ^ s` quanta apart.  A significand that
    rounds up to the next power of two lands on the first place of the next
    run by itself. -/
def Format.nearestIndex (f : Format) (num den : Nat) : Nat :=
  let s := Nat.log2 (num / den) - f.fractionBits
  s * 2 ^ f.fractionBits + roundHalfEven num (den * 2 ^ s)

/-! ## Numbers -/

/-- A number of a format, by its sign and its two fields. -/
structure Binary (f : Format) where
  negative : Bool
  exponent : Fin (2 ^ f.exponentBits)
  fraction : Fin (2 ^ f.fractionBits)
  deriving DecidableEq

namespace Binary

variable {f : Format}

/-- A number is finite unless its exponent field is full. -/
def isFinite (x : Binary f) : Bool := x.exponent.val != f.topExponent

/-- A full exponent field with a fraction marks what is not a number. -/
def isNaN (x : Binary f) : Bool := !x.isFinite && x.fraction.val != 0

/-- The place of the magnitude among the magnitudes of the format. -/
def index (x : Binary f) : Nat := x.exponent * 2 ^ f.fractionBits + x.fraction

/-- The magnitude of a finite number, in quanta. -/
def quanta (x : Binary f) : Nat := f.quanta x.index

/-- The number with a sign and a place; places past infinity are infinity. -/
def ofIndex (negative : Bool) (k : Nat) : Binary f :=
  let k := min k f.infinityIndex
  ⟨negative, Fin.ofNat _ (k / 2 ^ f.fractionBits), Fin.ofNat _ k⟩

/-- A number that is none, with a sign. -/
def nan (negative : Bool) : Binary f :=
  ⟨negative, Fin.ofNat _ f.topExponent, Fin.ofNat _ (2 ^ (f.fractionBits - 1))⟩

/-- **Rounding**: the number nearest to `num / den`. -/
def ofQuotient (negative : Bool) (num den : Nat) : Binary f :=
  ofIndex negative (f.nearestIndex (num * 2 ^ f.scale) den)

/-- The number nearest to an integer. -/
def ofInt (n : Int) : Binary f := ofQuotient (n < 0) n.natAbs 1

/-- The number of another format nearest to a number. -/
def convert (g : Format) (x : Binary f) : Binary g :=
  if x.isNaN then nan x.negative
  else if x.isFinite then ofQuotient x.negative x.quanta (2 ^ f.scale)
  else ofIndex x.negative g.infinityIndex

/-! ## Bits -/

/-- The bit pattern of a number: sign, exponent, fraction. -/
def toBits (x : Binary f) : Nat :=
  (if x.negative then 2 ^ (f.exponentBits + f.fractionBits) else 0) + x.index

/-- The number with a bit pattern; bits past the sign are dropped. -/
def ofBits (f : Format) (bits : Nat) : Binary f :=
  ⟨bits / 2 ^ (f.exponentBits + f.fractionBits) % 2 = 1,
    Fin.ofNat _ (bits / 2 ^ f.fractionBits), Fin.ofNat _ bits⟩

end Binary

/-- Numbers of 32 bits. -/
abbrev Binary32 : Type := Binary .single

/-- Numbers of 64 bits. -/
abbrev Binary64 : Type := Binary .double

end WireForm
