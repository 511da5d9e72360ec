/-
  WireForm — the shortest decimal of a binary number.

  A decimal stands for a binary number if it rounds to it.  Among the decimals
  that stand for a finite number, `Decimal.shortest` is one with the fewest
  digits, of those the nearest, and of two equally near the one whose last
  digit is even.

  * `Rounds`: the interval of reals that round to a number, in half quanta;
  * `Decimal.onGrid`: the decimal with a given number of digits, if any;
  * `Decimal.shortest`: the first hit among one to seventeen digits.
-/
import WireForm.Binary.Basic

namespace WireForm

/-- A decimal in scientific form: the value is `d.ddd × 10 ^ exponent`, with
    the digits in order and the first one before the point. -/
structure Decimal where
  digits : List Char
  exponent : Int
  deriving DecidableEq

namespace Decimal

/-! ## Digits -/

/-- How many digits a natural number has; none for zero. -/
def digitCount (n : Nat) : Nat := if n = 0 then 0 else (Nat.toDigits 10 n).length

/-- The exponent of the first digit of `num / den`, for positive parts. -/
def leadingExponent (num den : Nat) : Int :=
  if den ≤ num then digitCount (num / den) - 1
  else -(digitCount ((den - 1) / num) : Int)

/-- The decimal `c × 10 ^ p`, without zeros at its end. -/
def ofScaled (c : Nat) (p : Int) : Decimal :=
  let ds := Nat.toDigits 10 c
  ⟨(ds.reverse.dropWhile (· = '0')).reverse, p + ds.length - 1⟩

/-! ## The interval of a number -/

/-- The reals that round to a number form an interval; its ends are halfway
    to the neighbours and belong to it iff the place is even. -/
structure Rounds where
  low : Nat
  high : Nat
  closed : Bool

/-- The interval of the magnitude at place `k`, in half quanta. -/
def Rounds.at (f : Format) (k : Nat) : Rounds :=
  ⟨f.quanta (k - 1) + f.quanta k, f.quanta k + f.quanta (k + 1), k % 2 = 0⟩

/-- `v / unit` lies in the interval, whose ends are given in `1 / per`. -/
def Rounds.contains (r : Rounds) (per v unit : Nat) : Bool :=
  if r.closed then r.low * unit ≤ v * per && v * per ≤ r.high * unit
  else r.low * unit < v * per && v * per < r.high * unit

/-- The decimal with `n` digits that stands for the magnitude at place `k`:
    one of the two neighbours of the magnitude on the grid of `n` digits. -/
def onGrid (f : Format) (k n : Nat) : Option Decimal :=
  let num := f.quanta k
  let den := 2 ^ f.scale
  let p : Int := leadingExponent num den - n + 1
  -- the magnitude is `a / b` steps of the grid, and a step is `up / down`
  let up := 10 ^ p.toNat
  let down := 10 ^ (-p).toNat
  let a := num * down
  let b := den * up
  let c := a / b
  let stands (c : Nat) : Bool := (Rounds.at f k).contains (2 * den * up) c down
  match stands c, stands (c + 1) with
  | true, true => some (ofScaled (roundHalfEven a b) p)
  | true, false => some (ofScaled c p)
  | false, true => some (ofScaled (c + 1) p)
  | false, false => none

/-- **The shortest decimal** of the magnitude of a finite number.  Seventeen
    digits tell all numbers of the two formats apart, so the search finds one. -/
def shortest {f : Format} (x : Binary f) : Decimal :=
  if x.index = 0 then ⟨['0'], 0⟩
  else ((List.range 17).findSome? fun i => onGrid f x.index (i + 1)).getD ⟨['0'], 0⟩

end Decimal

end WireForm
