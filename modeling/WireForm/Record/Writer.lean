/-
  WireForm — writing records.

  The code that writes a record is free in what it does with the writer it is
  given: a `WriteScript` is such code, a tree of calls that goes on by the
  outcome of each call.  Whatever the script, the record encoder lets only
  declared keys pass.

  * `FieldWriter`, `FieldCall`: the entries written so far, and the calls;
  * `WriteScript.run`: a script from beginning to end;
  * `Record.encodeMapping`: the mapping of a record.
-/
import WireForm.Error

namespace WireForm

/-! ## The writer -/

/-- The entries of the record `owner` that were written so far. -/
structure FieldWriter where
  owner : String
  fields : Mapping

/-- A call of the writer, with the outcome of encoding the value. -/
inductive FieldCall where
  | required (name : String) (encoded : Except CodecError Json)
  /-- An absent value is not encoded. -/
  | optional (name : String) (encoded : Option (Except CodecError Json))

namespace FieldWriter

/-- A writer without entries. -/
def new (owner : String) : FieldWriter := ⟨owner, []⟩

/-- Write a field: a failure gets the field's location and leaves the entries
    as they were. -/
def required (w : FieldWriter) (name : String) (encoded : Except CodecError Json) :
    Except CodecError Unit × FieldWriter :=
  match encoded with
  | .ok v => (.ok (), { w with fields := w.fields.insert name v })
  | .error e => (.error (e.locate (fieldPath w.owner name)), w)

/-- Write a field unless it is absent. -/
def optional (w : FieldWriter) (name : String) (encoded : Option (Except CodecError Json)) :
    Except CodecError Unit × FieldWriter :=
  match encoded with
  | some encoded => w.required name encoded
  | none => (.ok (), w)

/-- Make a call. -/
def call (w : FieldWriter) : FieldCall → Except CodecError Unit × FieldWriter
  | .required name encoded => w.required name encoded
  | .optional name encoded => w.optional name encoded

end FieldWriter

/-! ## Scripts -/

/-- Code that writes a record. -/
inductive WriteScript where
  | done (result : Except CodecError Unit)
  | call (c : FieldCall) (next : Except CodecError Unit → WriteScript)

namespace WriteScript

/-- The result of a script and the writer it leaves. -/
def run : WriteScript → FieldWriter → Except CodecError Unit × FieldWriter
  | done result, w => (result, w)
  | call c next, w => (next (w.call c).1).run (w.call c).2

/-- The calls in order, up to the first failure, which is the result. -/
def all : List FieldCall → WriteScript
  | [] => done (.ok ())
  | c :: cs => call c fun
    | .ok () => all cs
    | .error e => done (.error e)

end WriteScript

/-! ## Records -/

/-- The mapping that a script writes for the record `owner`, if all its keys
    are among `declared`. -/
def Record.encodeMapping (owner : String) (declared : List String) (script : WriteScript) :
    Except CodecError Mapping :=
  let (result, w) := script.run (FieldWriter.new owner)
  match result with
  | .error e => .error e
  | .ok () =>
    match w.fields.keys.find? fun key => !declared.contains key with
    | some key => .error (.malformed (fieldPath owner key) .undeclared)
    | none => .ok w.fields

/-- The document that a script writes for a record. -/
def Record.encode (owner : String) (declared : List String) (script : WriteScript) :
    Except CodecError Json :=
  .obj <$> Record.encodeMapping owner declared script

end WireForm
