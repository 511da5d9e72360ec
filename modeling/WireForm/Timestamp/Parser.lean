/-
  WireForm — timestamps from text.

  The text is read from left to right as RFC 3339 has it: a date, one of `T`,
  `t` and a space, a time of day, a fraction of a second and an offset from
  UTC.  It is read as bytes, since its length is counted in bytes.

  * `Timestamp.Error`: why a text is refused;
  * `Timestamp.parse`: the point in time of a text, taken to UTC.
-/
import WireForm.Power
import WireForm.Timestamp.Basic

namespace WireForm

namespace Timestamp

/-- Why a text stands for no point in time. -/
inductive Error where
  | premature
  | invalid
  | outOfRange
  | trailing
  deriving DecidableEq

/-- The wording of an error. -/
def Error.message : Error → String
  | premature => "premature end of input"
  | invalid => "input contains invalid characters"
  | outOfRange => "input is out of range"
  | trailing => "trailing input"

/-- A byte is a decimal digit. -/
def isDigit (c : UInt8) : Bool := 48 ≤ c.toNat && c.toNat ≤ 57

/-- The value of a decimal digit. -/
def digit (c : UInt8) : Except Error Nat :=
  if isDigit c then .ok (c.toNat - 48) else .error .invalid

/-- A separator. -/
def expect (c d : UInt8) : Except Error Unit := if c = d then .ok () else .error .invalid

/-- The value of two digits. -/
def twoDigits (a b : UInt8) : Except Error Nat := return (← digit a) * 10 + (← digit b)

/-! ## The parts -/

/-- The date, ten bytes such as `2024-03-01`. -/
def parseDate (y₁ y₂ y₃ y₄ s₁ m₁ m₂ s₂ d₁ d₂ : UInt8) : Except Error Date := do
  let century ← twoDigits y₁ y₂
  let year ← twoDigits y₃ y₄
  expect s₁ 45
  let month ← twoDigits m₁ m₂
  expect s₂ 45
  let day ← twoDigits d₁ d₂
  let date : Date := ⟨century * 100 + year, month, day⟩
  if date.IsValid then .ok date else .error .outOfRange

/-- The value of digits as a decimal number. -/
def ofDigits (ds : List UInt8) : Nat := ds.foldl (fun n d => 10 * n + (d.toNat - 48)) 0

/-- The nanoseconds after a point, and the rest.  Nine digits count; there may
    be more. -/
def parseFraction (s : List UInt8) : Except Error (Nat × List UInt8) :=
  match s with
  | 46 :: r =>
    let ds := (r.takeWhile isDigit).take 9
    match r with
    | [] => .error .premature
    | _ => if ds.isEmpty then .error .invalid
      else .ok (ofDigits ds * 10 ^ (9 - ds.length), r.dropWhile isDigit)
  | s => .ok (0, s)

/-- The sign of an offset, and the rest; the true minus sign U+2212 is one. -/
def parseSign (s : List UInt8) : Except Error (Bool × List UInt8) :=
  match s with
  | 43 :: r => .ok (false, r)
  | 45 :: r => .ok (true, r)
  | 0xe2 :: 0x88 :: 0x92 :: r => .ok (true, r)
  | [] => .error .premature
  | _ => .error .invalid

/-- The offset from UTC in minutes, and the rest. -/
def parseOffset (s : List UInt8) : Except Error (Int × List UInt8) :=
  match s with
  | 90 :: r | 122 :: r => .ok (0, r)
  | s => do
    let (negative, s) ← parseSign s
    match s with
    | h₁ :: h₂ :: s =>
      let hours ← twoDigits h₁ h₂
      match s with
      | [] => .error .premature
      | c :: s =>
        expect c 58
        match s with
        | m₁ :: m₂ :: s =>
          let tens ← digit m₁
          let ones ← digit m₂
          if 6 ≤ tens then .error .outOfRange
          else
            let minutes : Int := hours * 60 + (tens * 10 + ones : Nat)
            .ok (if negative then -minutes else minutes, s)
        | _ => .error .premature
    | _ => .error .premature

/-! ## The whole -/

/-- The point in time of a date, a time of day and an offset in minutes.  A
    second numbered 60 is the leap second after the one numbered 59. -/
def ofParts (date : Date) (hour minute second nanos : Nat) (offset : Int)
    (hn : nanos < 1000000000) : Timestamp :=
  let clock : Int := hour * 3600 + minute * 60 + (if second = 60 then 59 else second : Nat)
  { seconds := date.toDays * 86400 + clock - offset * 60
    nanos := if second = 60 then nanos + 1000000000 else nanos
    valid := by
      by_cases hs : second = 60
      · right
        simp only [clock, hs, if_true]
        omega
      · left
        simp only [hs, if_false]
        exact hn }

/-- The point in time of the bytes of a text. -/
def parseBytes (s : List UInt8) : Except Error Timestamp :=
  match s with
  | y₁ :: y₂ :: y₃ :: y₄ :: s₁ :: m₁ :: m₂ :: s₂ :: d₁ :: d₂ :: t :: h₁ :: h₂ :: c₁ :: i₁ :: i₂ ::
      c₂ :: e₁ :: e₂ :: rest => do
    let date ← parseDate y₁ y₂ y₃ y₄ s₁ m₁ m₂ s₂ d₁ d₂
    if t ≠ 84 ∧ t ≠ 116 ∧ t ≠ 32 then .error .invalid
    else
      let hour ← twoDigits h₁ h₂
      expect c₁ 58
      let minute ← twoDigits i₁ i₂
      expect c₂ 58
      let second ← twoDigits e₁ e₂
      let (nanos, rest) ← parseFraction rest
      if h : hour < 24 ∧ minute < 60 ∧ second ≤ 60 ∧ nanos < 1000000000 then
        let (offset, rest) ← parseOffset rest
        if rest ≠ [] then .error .trailing
        else if offset.natAbs < 24 * 60 then
          .ok (ofParts date hour minute second nanos offset h.2.2.2)
        else .error .outOfRange
      else .error .outOfRange
  | _ => .error .premature

/-- The point in time that a text stands for. -/
def parse (s : String) : Except Error Timestamp := parseBytes s.toUTF8.toList

end Timestamp

end WireForm
