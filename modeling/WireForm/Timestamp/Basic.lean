/-
  WireForm — points in time.

  A timestamp is a second of Unix time and the nanoseconds within it.  A leap
  second shares the number of the second before it, which is the last of its
  minute, and counts its nanoseconds on from a billion.
-/
import WireForm.Timestamp.Calendar

namespace WireForm

/-- A point in time, in UTC. -/
structure Timestamp where
  seconds : Int
  nanos : Nat
  /-- Only the last second of a minute can be followed by a leap second. -/
  valid : nanos < 1000000000 ∨ nanos < 2000000000 ∧ seconds % 60 = 59
  deriving DecidableEq

namespace Timestamp

/-- The day of a timestamp, from the first of January 1970. -/
def days (t : Timestamp) : Int := t.seconds / 86400

/-- The second of the day of a timestamp. -/
def secondOfDay (t : Timestamp) : Nat := (t.seconds % 86400).toNat

/-- The date of a timestamp. -/
def date (t : Timestamp) : Date := Date.ofDays t.days

/-- The second of the minute as it is written: 60 in a leap second. -/
def secondOfMinute (t : Timestamp) : Nat :=
  if t.nanos < 1000000000 then t.secondOfDay % 60 else 60

/-- The nanoseconds of the written second. -/
def subsecond (t : Timestamp) : Nat := t.nanos % 1000000000

end Timestamp

end WireForm
