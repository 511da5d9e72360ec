/-
  WireForm — the text of a timestamp.

  The text follows RFC 3339, in UTC with a `Z`: `2024-03-01T10:30:00.250Z`.

  * `Timestamp.yearText`: four digits, with a sign outside the years 0 to 9999;
  * `Timestamp.fractionText`: no, three, six or nine digits, as few as are exact;
  * `Timestamp.render`: the whole text.
-/
import WireForm.Timestamp.Basic

namespace WireForm

namespace Timestamp

/-- A number in decimal, with zeros in front up to a width. -/
def padded (width n : Nat) : List Char :=
  let ds := Nat.toDigits 10 n
  List.replicate (width - ds.length) '0' ++ ds

/-- A year: four digits, and a sign where four digits do not say it all. -/
def yearText (year : Int) : List Char :=
  if 0 ≤ year ∧ year ≤ 9999 then padded 4 year.toNat
  else (if year < 0 then '-' else '+') :: padded 4 year.natAbs

/-- A fraction of a second, given in nanoseconds. -/
def fractionText (nanos : Nat) : List Char :=
  if nanos = 0 then []
  else if nanos % 1000000 = 0 then '.' :: padded 3 (nanos / 1000000)
  else if nanos % 1000 = 0 then '.' :: padded 6 (nanos / 1000)
  else '.' :: padded 9 nanos

/-- The characters of the text of a timestamp. -/
def chars (t : Timestamp) : List Char :=
  let d := t.date
  yearText d.year ++ '-' :: padded 2 d.month ++ '-' :: padded 2 d.day ++
    'T' :: padded 2 (t.secondOfDay / 3600) ++ ':' :: padded 2 (t.secondOfDay / 60 % 60) ++
    ':' :: padded 2 t.secondOfMinute ++ fractionText t.subsecond ++ ['Z']

/-- The text of a timestamp. -/
def render (t : Timestamp) : String := String.ofList t.chars

end Timestamp

end WireForm
