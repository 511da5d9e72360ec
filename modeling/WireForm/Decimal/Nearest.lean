/-
  WireForm — the binary number nearest to a decimal.

  `Binary.ofDecimal` reads `m × 10 ^ e` exactly and rounds once.  A decimal
  whose first digit is far outside the format is told by that alone, so an
  exponent of any length costs nothing.
-/
import WireForm.Decimal.Shortest

namespace WireForm

/-- The number nearest to `m × 10 ^ e`.  With the point before its first digit
    a decimal lies between a tenth and one, times ten to the `top`: past
    `scale` places it exceeds the format or stays below half a quantum. -/
def Binary.ofDecimal {f : Format} (negative : Bool) (m : Nat) (e : Int) : Binary f :=
  let top := Decimal.digitCount m + e
  if m = 0 ∨ top < -(f.scale : Int) then ofIndex negative 0
  else if (f.scale : Int) < top then ofIndex negative f.infinityIndex
  else ofQuotient negative (m * 10 ^ e.toNat) (10 ^ (-e).toNat)

end WireForm
