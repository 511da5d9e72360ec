/-
  WireForm — the text of a document.

  The text is compact, without blanks, and keeps the order of the entries.

  * `Json.escape`, `Json.text`: strings, where only quotes, backslashes and the
    controls below the space are escaped;
  * `Number.render`, `Json.render`: numbers and documents.
-/
import WireForm.Decimal.Layout
import WireForm.Json.Basic
import WireForm.Text.Quoted

namespace WireForm

/-- The text of a number: an integer in decimal, a float so that it reads back
    as a float. -/
def Number.render : Number → String
  | .int n _ => toString n
  | .float x _ => Layout.document.render x

namespace Json

/-- A character inside a string of a document. -/
def escape (c : Char) : List Char :=
  match c with
  | '"' => ['\\', '"']
  | '\\' => ['\\', '\\']
  | '\x08' => ['\\', 'b']
  | '\x0c' => ['\\', 'f']
  | '\n' => ['\\', 'n']
  | '\r' => ['\\', 'r']
  | '\t' => ['\\', 't']
  | c =>
    if c.toNat < 32 then
      ['\\', 'u', '0', '0', Nat.digitChar (c.toNat / 16), Nat.digitChar (c.toNat % 16)]
    else [c]

/-- The text of a string of a document. -/
def text (s : String) : List Char := '"' :: s.toList.flatMap escape ++ ['"']

mutual

/-- The characters of the text of a document. -/
def chars : Json → List Char
  | null => ['n', 'u', 'l', 'l']
  | bool true => ['t', 'r', 'u', 'e']
  | bool false => ['f', 'a', 'l', 's', 'e']
  | num n => n.render.toList
  | str s => text s
  | arr xs => '[' :: elements xs ++ [']']
  | obj m => '\x7b' :: entries m ++ ['\x7d']

/-- The texts of elements, with commas between them. -/
def elements : List Json → List Char
  | [] => []
  | [x] => chars x
  | x :: y :: xs => chars x ++ ',' :: elements (y :: xs)

/-- The texts of entries, with commas between them. -/
def entries : List (String × Json) → List Char
  | [] => []
  | [(k, v)] => text k ++ ':' :: chars v
  | (k, v) :: e :: m => text k ++ ':' :: chars v ++ ',' :: entries (e :: m)

end

/-- The text of a document. -/
def render (j : Json) : String := String.ofList j.chars

end Json

end WireForm
