/-
  WireForm — bytes as text in base 64.

  Three bytes make four symbols of six bits; one or two bytes left over make
  two or three symbols and padding up to four.  Every byte string has exactly
  one text: unused bits are zero and the padding is complete.

  * `Base64.symbol`, `Base64.bits?`: the alphabet and its inverse;
  * `Base64.encode`, `Base64.decode`: bytes to text and back;
  * `Base64.Error`: why a text is refused.
-/

namespace WireForm

namespace Base64

/-! ## The alphabet -/

/-- The symbol, as a byte, that stands for a number below 64. -/
def symbol (n : Nat) : UInt8 :=
  if n < 26 then UInt8.ofNat (n + 65)
  else if n < 52 then UInt8.ofNat (n - 26 + 97)
  else if n < 62 then UInt8.ofNat (n - 52 + 48)
  else if n = 62 then 43
  else 47

/-- The number that a symbol stands for. -/
def bits? (c : UInt8) : Option Nat :=
  let n := c.toNat
  if 65 ≤ n ∧ n ≤ 90 then some (n - 65)
  else if 97 ≤ n ∧ n ≤ 122 then some (n - 97 + 26)
  else if 48 ≤ n ∧ n ≤ 57 then some (n - 48 + 52)
  else if n = 43 then some 62
  else if n = 47 then some 63
  else none

/-- The padding sign, `=`. -/
def pad : UInt8 := 61

/-! ## Encoding -/

/-- The symbols of bytes, three bytes at a time. -/
def symbols : List UInt8 → List UInt8
  | [] => []
  | [a] =>
    [symbol (a.toNat / 4), symbol (a.toNat % 4 * 16), pad, pad]
  | [a, b] =>
    [symbol (a.toNat / 4), symbol (a.toNat % 4 * 16 + b.toNat / 16), symbol (b.toNat % 16 * 4), pad]
  | a :: b :: c :: rest =>
    symbol (a.toNat / 4) :: symbol (a.toNat % 4 * 16 + b.toNat / 16) ::
      symbol (b.toNat % 16 * 4 + c.toNat / 64) :: symbol (c.toNat % 64) :: symbols rest

/-- The text of bytes. -/
def encode (bytes : List UInt8) : String :=
  String.ofList ((symbols bytes).map fun c => Char.ofNat c.toNat)

/-! ## Decoding -/

/-- Why a text stands for no bytes; offsets count the bytes of the text. -/
inductive Error where
  | symbol (byte : UInt8) (offset : Nat)
  | length (n : Nat)
  | lastSymbol (byte : UInt8) (offset : Nat)
  | padding
  deriving DecidableEq

/-- The wording of an error. -/
def Error.message : Error → String
  | symbol c o => "Invalid symbol " ++ toString c.toNat ++ ", offset " ++ toString o ++ "."
  | length n => "Invalid input length: " ++ toString n
  | lastSymbol c o => "Invalid last symbol " ++ toString c.toNat ++ ", offset " ++ toString o ++ "."
  | padding => "Invalid padding"

/-- The number of the symbol at an offset. -/
def bits (offset : Nat) (c : UInt8) : Except Error Nat :=
  match bits? c with
  | some n => .ok n
  | none => .error (.symbol c offset)

/-- The numbers of the symbols of the last group, before its padding.  The
    first two places must hold symbols; after a padding sign, only padding
    signs may follow. -/
def lastBits (start : Nat) : (position : Nat) → List UInt8 → Except Error (List Nat)
  | _, [] => .ok []
  | position, c :: rest =>
    if c = pad ∧ 2 ≤ position then
      if rest.all (· = pad) then .ok [] else .error (.symbol pad (start + position))
    else do
      let n ← bits (start + position) c
      return n :: (← lastBits start (position + 1) rest)

/-- The bytes of the last group, of one to four bytes of text. -/
def lastGroup (start : Nat) (text : List UInt8) : Except Error (List UInt8) := do
  let ns ← lastBits start 0 text
  if ns.length < 2 then .error (.length (start + ns.length))
  else if text.length % 4 ≠ 0 then .error .padding
  else
    let last := .lastSymbol (text.getD (ns.length - 1) 0) (start + ns.length - 1)
    match ns with
    | [a, b] =>
      if b % 16 = 0 then .ok [UInt8.ofNat (a * 4 + b / 16)] else .error last
    | [a, b, c] =>
      if c % 4 = 0 then
        .ok [UInt8.ofNat (a * 4 + b / 16), UInt8.ofNat (b % 16 * 16 + c / 4)]
      else .error last
    | a :: b :: c :: d :: _ =>
      .ok [UInt8.ofNat (a * 4 + b / 16), UInt8.ofNat (b % 16 * 16 + c / 4),
        UInt8.ofNat (c % 4 * 64 + d)]
    | _ => .ok []

/-- The bytes of groups of four symbols, the last of which may be padded. -/
def groups (start : Nat) : List UInt8 → Except Error (List UInt8)
  | a :: b :: c :: d :: e :: rest => do
    let na ← bits start a
    let nb ← bits (start + 1) b
    let nc ← bits (start + 2) c
    let nd ← bits (start + 3) d
    let bytes ← groups (start + 4) (e :: rest)
    return UInt8.ofNat (na * 4 + nb / 16) :: UInt8.ofNat (nb % 16 * 16 + nc / 4) ::
      UInt8.ofNat (nc % 4 * 64 + nd) :: bytes
  | [] => .ok []
  | text => lastGroup start text

/-- The bytes of a text.  A lone byte after complete groups is looked at first,
    unless it is a padding sign. -/
def decodeBytes (text : List UInt8) : Except Error (List UInt8) :=
  match text.getLast? with
  | some c =>
    if text.length % 4 = 1 ∧ c ≠ pad ∧ bits? c = none then .error (.symbol c (text.length - 1))
    else groups 0 text
  | none => .ok []

/-- The bytes that a text stands for. -/
def decode (s : String) : Except Error (List UInt8) := decodeBytes s.toUTF8.toList

end Base64

end WireForm
