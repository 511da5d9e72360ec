/-
  WireForm — reading records.

  A field is read from the entry with its key.  The reader hands the decoder
  the evidence that the value stands under the key, so that a decoder of nested
  documents can tell that it goes down.

  * `FieldReader.required`, `FieldReader.optional`: one field;
  * `Record.decode`: the entries of a document that must be a mapping.
-/
import WireForm.Trace

namespace WireForm

/-- The entries of a document of the record `owner`. -/
structure FieldReader where
  owner : String
  fields : Mapping

namespace FieldReader

variable {α : Type} (r : FieldReader)

/-- Read a field that must be present. -/
def required (name : String) (decode : (w : Json) → r.fields.get? name = some w → Traced α) :
    Traced α :=
  match h : r.fields.get? name with
  | none => .fail (.missingField r.owner name)
  | some w => (decode w h).locate (fieldPath r.owner name)

/-- Read a field that may be absent; `null` is absent, too. -/
def optional (name : String) (decode : (w : Json) → r.fields.get? name = some w → Traced α) :
    Traced (Option α) :=
  match h : r.fields.get? name with
  | none => pure none
  | some .null => pure none
  | some w => some <$> (decode w h).locate (fieldPath r.owner name)

end FieldReader

/-- Read the entries of a document that must be a mapping. -/
def Record.decode {α : Type} (owner : String) (w : Json)
    (read : (m : Mapping) → w = .obj m → Traced α) : Traced α :=
  match w with
  | .obj m => read m rfl
  | w => .fail (.shapeMismatch owner "mapping" w)

end WireForm
