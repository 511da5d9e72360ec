/-
  WireForm — variants of an interface.

  A variant is a record that travels with a discriminant, the first entry of
  its mapping.

  * `Variant.encode`: the mapping of a variant;
  * `Variant.readTag`: the discriminant of a mapping;
  * `Variant.verifyTags` finds a discriminant that is declared twice.
-/
import WireForm.Record.Writer
import WireForm.Trace

namespace WireForm

/-- The key of the discriminant. -/
def typeKey : String := "type"

namespace Variant

/-- The mapping of the variant `owner` with a discriminant: the discriminant
    and then the entries that a script writes.  No declared key may take the
    discriminant's place. -/
def encode (owner tag : String) (declared : List String) (script : WriteScript) :
    Except CodecError Mapping :=
  if declared.contains typeKey then .error (.malformed (fieldPath owner typeKey) .reserved)
  else do
    let fields ← Record.encodeMapping owner declared script
    return fields.foldl (fun m e => m.insert e.1 e.2) [(typeKey, .str tag)]

/-- The discriminant of a mapping. -/
def readTag (owner : String) (m : Mapping) : Except CodecError String :=
  match m.get? typeKey with
  | some (.str tag) => .ok tag
  | some w => .error (.kindMismatch (fieldPath owner typeKey) "string" w)
  | none => .error (.missingField owner typeKey)

/-- The failure of a discriminant that no variant of an interface carries. -/
def unknownTag {α : Type} (interface tag : String) : Traced α := do
  Traced.log (.unknownTag interface tag)
  Traced.fail (.unknownTag interface tag)

/-- The first tag that occurs again after itself. -/
def firstRepeated : List String → Option String
  | [] => none
  | tag :: tags => if tags.contains tag then some tag else firstRepeated tags

/-- No two variants of an interface share a discriminant. -/
def verifyTags (interface : String) (tags : List String) : Except CodecError Unit :=
  match firstRepeated tags with
  | some tag => .error (.malformed interface (.repeatedTag tag))
  | none => .ok ()

end Variant

end WireForm
