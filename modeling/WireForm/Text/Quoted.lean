/-
  WireForm — quoted text.

  Messages show tags and text ordinals between double quotes, so that blanks,
  quotes and characters that do not show can be told apart.

  * `Text.escapeQuoted`: one character inside the quotes;
  * `Text.quote`: a text between quotes.
-/
import WireForm.Text.Printable

namespace WireForm

namespace Text

/-- A number in hexadecimal digits, in lower case and without leading zeros. -/
def hex (n : Nat) : List Char := Nat.toDigits 16 n

/-- A character inside quotes: the quote, the backslash and the usual controls
    by name, what does not show by its code point, anything else as it is. -/
def escapeQuoted (c : Char) : List Char :=
  match c with
  | '\x00' => ['\\', '0']
  | '\t' => ['\\', 't']
  | '\r' => ['\\', 'r']
  | '\n' => ['\\', 'n']
  | '"' => ['\\', '"']
  | '\\' => ['\\', '\\']
  | c => if isPrintable c then [c] else ['\\', 'u', '\x7b'] ++ hex c.toNat ++ ['\x7d']

/-- A text between double quotes. -/
def quote (s : String) : String :=
  String.ofList ('"' :: s.toList.flatMap escapeQuoted ++ ['"'])

end Text

end WireForm
