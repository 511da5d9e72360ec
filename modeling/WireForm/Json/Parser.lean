/-
  WireForm — documents from text.

  The grammar is that of JSON, with blanks between tokens; a text that leaves
  anything else over is refused.  Arrays and objects nest at most
  `Json.Grammar.depthLimit` deep.  Of entries with the same key the last value counts,
  at the place of the first.

  Each parser returns the rest of its input with the proof that it is shorter,
  which is why the parsers end.

  * `Json.Grammar.stringBody`, `number`, `value`: the parsers;
  * `Json.parse?`: the document of a text.
-/
import WireForm.Decimal.Nearest
import WireForm.Json.Basic

namespace WireForm

namespace Json.Grammar

/-- What is left of `s` after something was read. -/
abbrev Rest (s : List Char) : Type := { r : List Char // r.length < s.length }

/-- How deep arrays and objects may nest. -/
def depthLimit : Nat := 127

/-! ## Blanks and digits -/

/-- The characters that may stand between tokens. -/
def isBlank (c : Char) : Bool := c = ' ' || c = '\t' || c = '\n' || c = '\r'

/-- The input after its blanks. -/
def skipBlanks (s : List Char) : List Char := s.dropWhile isBlank

theorem length_dropWhile_le (p : Char → Bool) (s : List Char) :
    (s.dropWhile p).length ≤ s.length := (List.dropWhile_suffix p).length_le

theorem length_skipBlanks_le (s : List Char) : (skipBlanks s).length ≤ s.length :=
  length_dropWhile_le _ s

/-- The value of decimal digits. -/
def ofDigits (ds : List Char) : Nat := ds.foldl (fun n d => 10 * n + (d.toNat - '0'.toNat)) 0

/-- One digit or more, and the rest. -/
def digits (s : List Char) : Option (List Char × Rest s) :=
  match s with
  | [] => none
  | c :: r =>
    if c.isDigit then
      some (c :: r.takeWhile Char.isDigit, ⟨r.dropWhile Char.isDigit, by
        have := length_dropWhile_le Char.isDigit r
        simp only [List.length_cons]; omega⟩)
    else none

/-! ## Strings -/

/-- The value of four hexadecimal digits of either case. -/
def hex4? (a b c d : Char) : Option Nat := do
  let digit (c : Char) : Option Nat :=
    if c.isDigit then some (c.toNat - '0'.toNat)
    else if 'a' ≤ c ∧ c ≤ 'f' then some (c.toNat - 'a'.toNat + 10)
    else if 'A' ≤ c ∧ c ≤ 'F' then some (c.toNat - 'A'.toNat + 10)
    else none
  return ((← digit a) * 16 + (← digit b)) * 256 + (← digit c) * 16 + (← digit d)

/-- The character that an escape of one letter stands for. -/
def unescape? : Char → Option Char
  | '"' => some '"'
  | '\\' => some '\\'
  | '/' => some '/'
  | 'b' => some '\x08'
  | 'f' => some '\x0c'
  | 'n' => some '\n'
  | 'r' => some '\r'
  | 't' => some '\t'
  | _ => none

/-- The characters of a string up to its closing quote, and the rest.  A code
    point past the first plane is written as two escapes; neither half stands
    alone. -/
def stringBody (s : List Char) : Option (List Char × Rest s) :=
  match s with
  | [] => none
  | '"' :: r => some ([], ⟨r, by simp⟩)
  | '\\' :: 'u' :: a :: b :: c :: d :: r => do
    let n ← hex4? a b c d
    if 0xd800 ≤ n ∧ n < 0xdc00 then
      match h : r with
      | '\\' :: 'u' :: a' :: b' :: c' :: d' :: r' =>
        let low ← hex4? a' b' c' d'
        if 0xdc00 ≤ low ∧ low < 0xe000 then
          let (cs, rest) ← stringBody r'
          some (Char.ofNat (0x10000 + (n - 0xd800) * 0x400 + (low - 0xdc00)) :: cs,
            ⟨rest.1, by have := rest.2; simp only [h, List.length_cons]; omega⟩)
        else none
      | _ => none
    else if 0xdc00 ≤ n ∧ n < 0xe000 then none
    else
      let (cs, rest) ← stringBody r
      some (Char.ofNat n :: cs, ⟨rest.1, by have := rest.2; simp only [List.length_cons]; omega⟩)
  | '\\' :: e :: r => do
    let c ← unescape? e
    let (cs, rest) ← stringBody r
    some (c :: cs, ⟨rest.1, by have := rest.2; simp only [List.length_cons]; omega⟩)
  | c :: r =>
    if c.toNat < 32 ∨ c = '\\' then none
    else do
      let (cs, rest) ← stringBody r
      some (c :: cs, ⟨rest.1, by have := rest.2; simp only [List.length_cons]; omega⟩)

/-! ## Numbers -/

/-- A float, if it is finite. -/
def float? (x : Binary64) : Option Number :=
  if h : x.isFinite = true then some (.float x h) else none

/-- An integer literal: an integer of 64 bits, or else the nearest float.  The
    negative zero is a float, since no integer is. -/
def integer? (negative : Bool) (n : Nat) : Option Number :=
  if negative then
    if h : 0 < n ∧ n ≤ 2 ^ 63 then some (.int (-n) (by omega))
    else float? (Binary.ofDecimal true n 0)
  else
    if h : n < 2 ^ 64 then some (.int n (by omega))
    else float? (Binary.ofDecimal false n 0)

/-- The digits after a point, if there is one. -/
def fraction (s : List Char) :
    Option (Option (List Char) × { r : List Char // r.length ≤ s.length }) :=
  match s with
  | '.' :: r => do
    let (ds, rest) ← digits r
    some (some ds, ⟨rest.1, by have := rest.2; simp only [List.length_cons]; omega⟩)
  | s => some (none, ⟨s, Nat.le_refl _⟩)

/-- An exponent, if there is one. -/
def exponent (s : List Char) : Option (Option Int × { r : List Char // r.length ≤ s.length }) :=
  match s with
  | c :: r =>
    if c = 'e' ∨ c = 'E' then
      match r with
      | '-' :: r => do
        let (ds, rest) ← digits r
        some (some (-(ofDigits ds : Int)),
          ⟨rest.1, by have := rest.2; simp only [List.length_cons]; omega⟩)
      | '+' :: r => do
        let (ds, rest) ← digits r
        some (some (ofDigits ds), ⟨rest.1, by have := rest.2; simp only [List.length_cons]; omega⟩)
      | r => do
        let (ds, rest) ← digits r
        some (some (ofDigits ds), ⟨rest.1, by have := rest.2; simp only [List.length_cons]; omega⟩)
    else some (none, ⟨c :: r, Nat.le_refl _⟩)
  | [] => some (none, ⟨[], Nat.le_refl _⟩)

/-- A number after its sign.  No digit precedes the point after a zero in front,
    and a fraction or an exponent makes a float. -/
def unsignedNumber (negative : Bool) (s : List Char) : Option (Number × Rest s) := do
  let (whole, r₁) ← digits s
  if whole.head? = some '0' ∧ 1 < whole.length then none
  else
    let (frac, r₂) ← fraction r₁.1
    let (exp, r₃) ← exponent r₂.1
    let n ← match frac, exp with
      | none, none => integer? negative (ofDigits whole)
      | _, _ =>
        let ds := frac.getD []
        float? (Binary.ofDecimal negative (ofDigits (whole ++ ds)) (exp.getD 0 - ds.length))
    some (n, ⟨r₃.1, by have := r₁.2; have := r₂.2; have := r₃.2; omega⟩)

/-- A number. -/
def number (s : List Char) : Option (Number × Rest s) :=
  match s with
  | '-' :: r => do
    let (n, rest) ← unsignedNumber true r
    some (n, ⟨rest.1, by have := rest.2; simp only [List.length_cons]; omega⟩)
  | s => unsignedNumber false s

/-! ## Documents -/

/-- What is left of the input without its blanks is left of the input. -/
def Rest.ofSkipBlanks {s : List Char} (r : Rest (skipBlanks s)) : Rest s :=
  ⟨r.1, Nat.lt_of_lt_of_le r.2 (length_skipBlanks_le s)⟩

/-- What is left of a rest is left of the input. -/
def Rest.trans {s : List Char} (r : Rest s) (r' : Rest r.1) : Rest s :=
  ⟨r'.1, Nat.lt_trans r'.2 r.2⟩

/-- The next token is the character `c`. -/
def symbol (c : Char) (s : List Char) : Option (Rest s) :=
  match h : skipBlanks s with
  | [] => none
  | d :: r =>
    if d = c then
      some ⟨r, by have := length_skipBlanks_le s; simp only [h, List.length_cons] at this; omega⟩
    else none

mutual

/-- A document at the start of the input; `depth` more arrays and objects may
    open. -/
def value (depth : Nat) (s : List Char) : Option (Json × Rest s) :=
  match s with
  | 'n' :: 'u' :: 'l' :: 'l' :: r => some (.null, ⟨r, by simp only [List.length_cons]; omega⟩)
  | 't' :: 'r' :: 'u' :: 'e' :: r => some (.bool true, ⟨r, by simp only [List.length_cons]; omega⟩)
  | 'f' :: 'a' :: 'l' :: 's' :: 'e' :: r =>
    some (.bool false, ⟨r, by simp only [List.length_cons]; omega⟩)
  | '"' :: r => do
    let (cs, r') ← stringBody r
    some (.str (String.ofList cs), ⟨r'.1, by have := r'.2; simp only [List.length_cons]; omega⟩)
  | '[' :: r =>
    match depth, symbol ']' r with
    | 0, _ => none
    | _ + 1, some r' => some (.arr [], ⟨r'.1, by have := r'.2; simp only [List.length_cons]; omega⟩)
    | depth + 1, none => do
      let (xs, r') ← elements depth r
      some (.arr xs, ⟨r'.1, by have := r'.2; simp only [List.length_cons]; omega⟩)
  | '\x7b' :: r =>
    match depth, symbol '\x7d' r with
    | 0, _ => none
    | _ + 1, some r' => some (.obj [], ⟨r'.1, by have := r'.2; simp only [List.length_cons]; omega⟩)
    | depth + 1, none => do
      let (m, r') ← members depth r
      some (.obj (m.foldl (fun m e => Mapping.insert m e.1 e.2) []),
        ⟨r'.1, by have := r'.2; simp only [List.length_cons]; omega⟩)
  | s => do
    let (n, r) ← number s
    some (.num n, r)
termination_by (s.length, 0)

/-- The elements of an array, one at least, up to its end. -/
def elements (depth : Nat) (s : List Char) : Option (List Json × Rest s) := do
  let (x, r) ← value depth (skipBlanks s)
  let r := r.ofSkipBlanks
  match symbol ',' r.1, symbol ']' r.1 with
  | some r', _ =>
    let (xs, r'') ← elements depth r'.1
    some (x :: xs, r.trans (r'.trans r''))
  | none, some r' => some ([x], r.trans r')
  | none, none => none
termination_by (s.length, 1)
decreasing_by
  · have := length_skipBlanks_le s
    by_cases h : (skipBlanks s).length = s.length
    · rw [h]; exact Prod.Lex.right _ (by omega)
    · exact Prod.Lex.left _ _ (by omega)
  · exact Prod.Lex.left _ _ (r.trans r').2

/-- The entries of an object, one at least, up to its end. -/
def members (depth : Nat) (s : List Char) : Option (List (String × Json) × Rest s) := do
  let r₁ ← symbol '"' s
  let (key, r₂) ← stringBody r₁.1
  let r₃ ← symbol ':' r₂.1
  let (v, r₄) ← value depth (skipBlanks r₃.1)
  let r := r₁.trans (r₂.trans (r₃.trans r₄.ofSkipBlanks))
  match symbol ',' r.1, symbol '\x7d' r.1 with
  | some r', _ =>
    let (m, r'') ← members depth r'.1
    some ((String.ofList key, v) :: m, r.trans (r'.trans r''))
  | none, some r' => some ([(String.ofList key, v)], r.trans r')
  | none, none => none
termination_by (s.length, 1)
decreasing_by
  · have := length_skipBlanks_le r₃.1
    have := (r₁.trans (r₂.trans r₃)).2
    exact Prod.Lex.left _ _ (Nat.lt_of_le_of_lt ‹_› this)
  · exact Prod.Lex.left _ _ (r.trans r').2

end

end Json.Grammar

/-- The document of a text, or none if the text is not of the grammar. -/
def Json.parse? (s : String) : Option Json := do
  let (j, r) ← Grammar.value Grammar.depthLimit (Grammar.skipBlanks s.toList)
  if (Grammar.skipBlanks r.1).isEmpty then some j else none

end WireForm
