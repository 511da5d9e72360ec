/-
  WireForm — errors.

  An error is raised where it is found and passed on unchanged, but for one
  thing: an error about a bare value does not know where the value stands, and
  carries a placeholder that the nearest field or element replaces.

  * `Reason`: the causes of malformed data, with `Reason.text`;
  * `CodecError`: all errors, with `CodecError.message`;
  * `CodecError.locate`: the placeholder replaced by a location.
-/
import WireForm.Base64
import WireForm.Foreign.Error
import WireForm.Timestamp.Parser

namespace WireForm

/-! ## Locations -/

/-- The location of an error about a bare value. -/
def placeholder : String := "value"

/-- The location of a field. -/
def fieldPath (owner field : String) : String := owner ++ "." ++ field

/-- The location of an element. -/
def indexPath (owner : String) (index : Nat) : String :=
  owner ++ "[" ++ toString index ++ "]"

/-! ## Causes -/

/-- Why data is malformed. -/
inductive Reason where
  /-- A value of the wrong kind. -/
  | kind (expected : String) (found : Kind)
  /-- A record, tuple or interface of the wrong kind. -/
  | shape (expected owner : String) (found : Kind)
  /-- A required field that is absent. -/
  | missing
  | outOfRange (number type : String)
  | nonFinite (name : String)
  /-- A written key that the record does not declare. -/
  | undeclared
  /-- A declared key that the discriminant occupies. -/
  | reserved
  | pastEnd
  | unread (n : Nat)
  | count (encoded declared : Nat)
  | base64 (e : Base64.Error)
  | datetime (e : Timestamp.Error)
  | foreign (e : Foreign.Error)
  | sharedOrdinal (first second ordinal : String)
  | repeatedName (name : String)
  | repeatedTag (tag : String)
  /-- A cause in words. -/
  | other (text : String)

/-- The wording of a cause. -/
def Reason.text : Reason → String
  | kind expected found => "expected " ++ expected ++ ", found " ++ found.name
  | shape expected owner found =>
    "expected " ++ expected ++ " for " ++ owner ++ ", found " ++ found.name
  | missing => "missing required field"
  | outOfRange number type => number ++ " out of range for " ++ type
  | nonFinite name => "non-finite float " ++ name
  | undeclared => "field is not declared by the record"
  | reserved => "field collides with the reserved discriminant key"
  | pastEnd => "read past the end of the tuple"
  | unread n => toString n ++ " elements left unread"
  | count encoded declared =>
    "encoded " ++ toString encoded ++ " elements, tuple declares " ++ toString declared
  | base64 e => "invalid base64: " ++ e.message
  | datetime e => "invalid datetime: " ++ e.message
  | foreign e => e.message
  | sharedOrdinal first second ordinal =>
    "members " ++ first ++ " and " ++ second ++ " share ordinal " ++ ordinal
  | repeatedName name => "member name " ++ name ++ " declared twice"
  | repeatedTag tag => "discriminant " ++ Text.quote tag ++ " declared by more than one variant"
  | other text => text

/-! ## Errors -/

/-- The errors of encoding, decoding and the checks of declarations. -/
inductive CodecError where
  /-- Invalid data at a location. -/
  | malformed (context : String) (reason : Reason)
  /-- A tuple of the wrong length. -/
  | arity (tuple : String) (expected actual : Nat)
  /-- A document that is the ordinal of no member. -/
  | unknownOrdinal (enumeration : String) (ordinal : Json)
  /-- A discriminant of no variant. -/
  | unknownTag (interface tag : String)

namespace CodecError

/-- The wording of an error. -/
def message : CodecError → String
  | malformed context reason => "malformed data at " ++ context ++ ": " ++ reason.text
  | arity tuple expected actual =>
    "tuple " ++ tuple ++ ": expected " ++ toString expected ++ " elements, got " ++ toString actual
  | unknownOrdinal enumeration ordinal =>
    "enum " ++ enumeration ++ ": no member with ordinal " ++ ordinal.render
  | unknownTag interface tag =>
    "interface " ++ interface ++ ": unknown variant tag " ++ Text.quote tag

/-- An error about a bare value. -/
def bare (reason : Reason) : CodecError := malformed placeholder reason

/-- A value of another kind than expected, at a location. -/
def kindMismatch (context expected : String) (w : Json) : CodecError :=
  malformed context (.kind expected w.kind)

/-- A record, tuple or interface of another kind than expected.  The location
    is left to whatever holds it. -/
def shapeMismatch (owner expected : String) (w : Json) : CodecError :=
  bare (.shape expected owner w.kind)

/-- A required field that is absent. -/
def missingField (owner field : String) : CodecError :=
  malformed (fieldPath owner field) .missing

/-- An error that carries the placeholder gets the location; any other error
    knows its location and keeps it. -/
def locate (location : String) : CodecError → CodecError
  | malformed context reason =>
    if context = placeholder then malformed location reason else malformed context reason
  | e => e

end CodecError

end WireForm
