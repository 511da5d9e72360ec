/-
  WireForm — encoding.

  Encoding goes through a value from the outside in, and fails at the first
  failure.

  * `Value.encode`: the document of a value;
  * `Schema.encodeFields`, `Schema.encodeRecord`, `Schema.encodeVariant`: a
    record by itself and as a variant.
-/
import WireForm.Family
import WireForm.Schema.Value
import WireForm.Tuple.Writer
import WireForm.Variant

namespace WireForm

variable {N : Names}

/-- The call that writes a field, given whether its value is absent and the
    outcome of encoding it.  A present option encodes as its content. -/
def Field.call (f : Field N) (absent : Bool) (encoded : Except CodecError Json) : FieldCall :=
  match f.presence with
  | .required => .required f.key encoded
  | .optional => .optional f.key (if absent then none else some encoded)

/-- The script that writes a record, given what `Field.call` needs for each
    field. -/
def RecordDecl.script (d : RecordDecl N)
    (encoded : Fin d.fields.length → Bool × Except CodecError Json) : WriteScript :=
  .all (d.writes.map (fun k => (d.fields.get k).call (encoded k).1 (encoded k).2) ++
    d.constants.map fun c => .required c.1 (.ok c.2))

/-- The script that writes a tuple, given the outcomes of encoding its
    elements. -/
def TupleDecl.script (d : TupleDecl N)
    (encoded : Fin d.elements.length → Except CodecError Json) : PushScript :=
  .all (List.ofFn encoded ++ d.echoes.map encoded)

/-- The document of a value. -/
def Value.encode {S : Schema N} : {t : Ty N} → Value S t → Except CodecError Json
  | _, .leaf x => Leaf.encode _ x
  | _, .none => .ok .null
  | _, .some v => v.encode
  | _, .box v => v.encode
  | _, .list _ xs => do
    let ws ← Family.collect fun i => (xs i).encode
    return .arr (List.ofFn ws)
  | _, .map keys _ xs => do
    let ws ← Family.collect fun i => (xs i).encode
    return .obj (List.ofFn fun i => (keys.get i, ws i))
  | _, .tuple i xs =>
    Tuple.encode (S.tuple i).name (S.tuple i).arity
      ((S.tuple i).script fun k => (xs k).encode)
  | _, .record i xs =>
    Record.encode (S.record i).name (S.record i).keys
      ((S.record i).script fun k => ((xs k).isNone, (xs k).encode))
  | _, .variant i v xs =>
    let d := S.record ((S.interface i).variants.get v).record
    .obj <$> Variant.encode d.name ((S.interface i).variants.get v).tag d.keys
      (d.script fun k => ((xs k).isNone, (xs k).encode))

namespace Schema

variable (S : Schema N)

/-- The script that writes the fields of a record. -/
def fieldScript {r : N.Record} (xs : S.Fields r) : WriteScript :=
  (S.record r).script fun k => ((xs k).isNone, (xs k).encode)

/-- The entries of a record. -/
def encodeFields {r : N.Record} (xs : S.Fields r) : Except CodecError Mapping :=
  Record.encodeMapping (S.record r).name (S.record r).keys (S.fieldScript xs)

/-- The document of a record. -/
def encodeRecord {r : N.Record} (xs : S.Fields r) : Except CodecError Json :=
  Record.encode (S.record r).name (S.record r).keys (S.fieldScript xs)

/-- The entries of a record with a discriminant. -/
def encodeVariant {r : N.Record} (tag : String) (xs : S.Fields r) : Except CodecError Mapping :=
  Variant.encode (S.record r).name tag (S.record r).keys (S.fieldScript xs)

end Schema

end WireForm
