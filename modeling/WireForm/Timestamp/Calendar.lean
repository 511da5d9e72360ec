/-
  WireForm — the civil calendar.

  Days are counted from the first of January 1970 and dates are those of the
  Gregorian calendar, extended to all years.  A year of the computation starts
  in March, so that a leap day is its last day; 400 such years are 146097 days.

  * `Date`, `Date.IsValid`: dates, and the dates that exist;
  * `Date.toDays`, `Date.ofDays`: the number of a day and the date of a day.
-/

namespace WireForm

/-- A year, a month from 1 to 12 and a day of the month from 1. -/
structure Date where
  year : Int
  month : Nat
  day : Nat
  deriving DecidableEq

namespace Date

/-- A leap year has a 29th of February. -/
def isLeap (year : Int) : Bool := year % 4 = 0 && (year % 100 ≠ 0 || year % 400 = 0)

/-- The length of a month. -/
def daysInMonth (year : Int) (month : Nat) : Nat :=
  if month = 2 then (if isLeap year then 29 else 28)
  else if month = 4 ∨ month = 6 ∨ month = 9 ∨ month = 11 then 30
  else 31

/-- The date exists. -/
def IsValid (d : Date) : Prop :=
  1 ≤ d.month ∧ d.month ≤ 12 ∧ 1 ≤ d.day ∧ d.day ≤ daysInMonth d.year d.month

instance (d : Date) : Decidable d.IsValid := inferInstanceAs (Decidable (_ ∧ _))

/-- The days from the first of March to the first of a month, counting months
    from March. -/
def daysBeforeMonth (m : Nat) : Nat := (153 * m + 2) / 5

/-- The number of a day. -/
def toDays (d : Date) : Int :=
  let year := if d.month ≤ 2 then d.year - 1 else d.year
  let month := if d.month ≤ 2 then d.month + 9 else d.month - 3
  let era := year / 400
  let y := year % 400
  era * 146097 + (365 * y + y / 4 - y / 100) + (daysBeforeMonth month + d.day - 1) - 719468

/-- The date of a day.  Within 400 years the centuries, the groups of four
    years and the years are peeled off; the last of each kind is a day longer,
    hence the bounds. -/
def ofDays (n : Int) : Date :=
  let n := n + 719468
  let era := n / 146097
  let r := (n % 146097).toNat
  let century := min (r / 36524) 3
  let r := r - century * 36524
  let group := r / 1461
  let r := r - group * 1461
  let y := min (r / 365) 3
  let r := r - y * 365
  let month := (5 * r + 2) / 153
  let year : Int := era * 400 + century * 100 + group * 4 + y
  { year := if month < 10 then year else year + 1
    month := if month < 10 then month + 3 else month - 9
    day := r - daysBeforeMonth month + 1 }

end Date

end WireForm
