/-
  WireForm — the layout of a decimal.

  `Layout` holds the decisions of a text form of numbers: which exponents are
  written positionally, and whether a whole number shows a fraction.
  `Layout.document` is the form of the numbers of a document, `Layout.plain`
  the form of the numbers in messages about ranges.
-/
import WireForm.Decimal.Shortest

namespace WireForm

/-- The decisions of a text form of decimals. -/
structure Layout where
  /-- The exponents from the first up to but not including the second are
      written positionally; without bounds, all are. -/
  positional : Option (Int × Int)
  /-- A whole number in positional form ends in `.0`. -/
  wholeFraction : Bool
  deriving DecidableEq

namespace Layout

/-- Numbers in documents: positional from `0.00001` up to below `10 ^ 16`, and
    always recognisable as a float. -/
def document : Layout := ⟨some (-5, 16), true⟩

/-- Numbers in messages: positional, and whole numbers without a fraction. -/
def plain : Layout := ⟨none, false⟩

/-- An exponent with its sign always shown. -/
def signed (e : Int) : List Char :=
  (if e < 0 then '-' else '+') :: Nat.toDigits 10 e.natAbs

/-- `d.ddd` followed by the exponent; no point after a lone digit. -/
def scientific (d : Decimal) : List Char :=
  d.digits.take 1 ++ (if d.digits.length ≤ 1 then [] else '.' :: d.digits.drop 1) ++
    'e' :: signed d.exponent

/-- All digits around the point, with zeros filled in. -/
def expanded (wholeFraction : Bool) (d : Decimal) : List Char :=
  if d.exponent < 0 then
    '0' :: '.' :: (List.replicate (d.exponent.natAbs - 1) '0' ++ d.digits)
  else
    let whole := d.exponent.toNat + 1
    if d.digits.length ≤ whole then
      d.digits ++ List.replicate (whole - d.digits.length) '0' ++
        (if wholeFraction then ['.', '0'] else [])
    else d.digits.take whole ++ '.' :: d.digits.drop whole

/-- The text of a decimal. -/
def decimal (l : Layout) (d : Decimal) : List Char :=
  match l.positional with
  | none => expanded l.wholeFraction d
  | some (low, high) =>
    if low ≤ d.exponent ∧ d.exponent < high then expanded l.wholeFraction d else scientific d

/-- The text of a finite number: its sign and its shortest decimal. -/
def render (l : Layout) {f : Format} (x : Binary f) : String :=
  String.ofList ((if x.negative then ['-'] else []) ++ l.decimal (Decimal.shortest x))

end Layout

/-- The name of a number that is not finite; the sign of what is not a number
    is not shown. -/
def Binary.nonFiniteName {f : Format} (x : Binary f) : String :=
  if x.isNaN then "NaN" else if x.negative then "-inf" else "inf"

end WireForm
