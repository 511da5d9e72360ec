/-
  WireForm — why a foreign value is refused.

  The messages say what was found and what was expected, each in words of its
  own.

  * `Found`: what stands in a document;
  * `Error`: the causes, with `Error.message`.
-/
import WireForm.Json.Printer

namespace WireForm

namespace Foreign

/-- What was found where something else was expected. -/
inductive Found where
  | document (j : Json)
  | text (s : String)
  | bareName
  deriving Inhabited

/-- A document in words: its kind, and its contents unless it has parts. -/
def Found.describe : Found → String
  | .document .null => "null"
  | .document (.bool b) => "boolean `" ++ (if b then "true" else "false") ++ "`"
  | .document (.num (.int n h)) => "integer `" ++ (Number.int n h).render ++ "`"
  | .document (.num (.float x h)) => "floating point `" ++ (Number.float x h).render ++ "`"
  | .document (.str s) | .text s => "string " ++ Text.quote s
  | .document (.arr _) => "sequence"
  | .document (.obj _) => "map"
  | .bareName => "unit variant"

/-- Why a foreign value is refused, by its reader or by its writer. -/
inductive Error where
  /-- Another kind of thing than expected. -/
  | type (found : Found) (expected : String)
  /-- The right kind of thing, but not one that is allowed. -/
  | value (found : Found) (expected : String)
  /-- The wrong number of elements. -/
  | length (n : Nat) (expected : String)
  | missingField (name : String)
  | unknownVariant (name : String) (known : List String)
  | keyNotText

/-- A name between ticks. -/
def ticked (name : String) : String := "`" ++ name ++ "`"

/-- What was expected instead of an unknown name, in words. -/
def expectation : List String → String
  | [] => "there are no variants"
  | [a] => "expected " ++ ticked a
  | [a, b] => "expected " ++ ticked a ++ " or " ++ ticked b
  | known => "expected one of " ++ String.intercalate ", " (known.map ticked)

/-- The wording of an error. -/
def Error.message : Error → String
  | type found expected => "invalid type: " ++ found.describe ++ ", expected " ++ expected
  | value found expected => "invalid value: " ++ found.describe ++ ", expected " ++ expected
  | length n expected => "invalid length " ++ toString n ++ ", expected " ++ expected
  | missingField name => "missing field " ++ ticked name
  | unknownVariant name known => "unknown variant " ++ ticked name ++ ", " ++ expectation known
  | keyNotText => "key must be a string"

end Foreign

end WireForm
