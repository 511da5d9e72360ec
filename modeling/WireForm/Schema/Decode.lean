/-
  WireForm — decoding.

  Decoding goes down a document along a type.  Options and boxes read the same
  document by a smaller type; everything else goes on to a part of the
  document, and that is why decoding ends also for recursive declarations.

  * `Schema.decode`: the value of a document;
  * `Schema.decodeFields`, `Schema.dispatch`: the entries of a record, and the
    entries of the variant with a discriminant;
  * `Schema.decodeRecord`, `Schema.decodeAs`: a document that must be a record,
    and one that must be a certain variant.
-/
import WireForm.Record.Reader
import WireForm.Schema.Value
import WireForm.Tuple.Reader
import WireForm.Variant

namespace WireForm

variable {N : Names}

namespace Schema

/-- A field as its declaration says, given a decoder for the values that stand
    under its key. -/
def readField {S : Schema N} (f : Field N) (r : FieldReader)
    (decode : (w : Json) → r.fields.get? f.key = some w → Traced (Value S f.type)) :
    Traced (Value S f.valueType) :=
  match f, decode with
  | ⟨key, .required, _⟩, decode => r.required key decode
  | ⟨key, .optional, _⟩, decode => Value.ofOption <$> r.optional key decode

mutual

/-- The value of a document. -/
def decode (S : Schema N) (t : Ty N) (w : Json) : Traced (Value S t) :=
  match t with
  | .leaf l => .leaf <$> l.decode w
  | .option t =>
    match w with
    | .null => pure .none
    | w => .some <$> decode S t w
  | .box t => .box <$> decode S t w
  | .list t =>
    match w with
    | .arr xs => .list xs.length <$> Family.collect fun i => decode S t (xs.get i)
    | w => .fail (.kindMismatch placeholder "sequence" w)
  | .map t =>
    match w with
    | .obj m => do
      let xs ← Family.collect fun i : Fin m.length => decode S t (m.get i).2
      return .ofEntries (List.ofFn fun i => ((m.get i).1, xs i))
    | w => .fail (.kindMismatch placeholder "mapping" w)
  | .tuple i =>
    Tuple.decode (S.tuple i).name (S.tuple i).arity w fun xs _hw =>
      .each (fun k x _hx => decode S ((S.tuple i).elements.get k) x) fun values =>
        .each (fun (k : Fin (S.tuple i).echoes.length) x _hx =>
            decode S ((S.tuple i).elements.get ((S.tuple i).echoes.get k)) x) fun _ =>
          .done (.ok (.tuple i values))
  | .record i => Record.decode (S.record i).name w fun m _hw => .record i <$> decodeFields S i m
  | .interface i => Record.decode (S.interface i).name w fun m _hw => do
    let tag ← Traced.ofExcept (Variant.readTag (S.interface i).name m)
    Traced.log (.dispatch (S.interface i).name tag)
    dispatch S i tag m
termination_by (sizeOf w, 0, sizeOf t)
decreasing_by
  · exact Prod.Lex.right _ (Prod.Lex.right _ (by simp))
  · exact Prod.Lex.right _ (Prod.Lex.right _ (by simp))
  · exact Prod.Lex.left _ _ (Json.sizeOf_lt_arr (List.get_mem _ i))
  · exact Prod.Lex.left _ _ (Json.sizeOf_lt_obj_of_mem (List.get_mem _ i))
  · exact Prod.Lex.left _ _ (_hw ▸ Json.sizeOf_lt_arr _hx)
  · exact Prod.Lex.left _ _ (_hw ▸ Json.sizeOf_lt_arr _hx)
  · exact Prod.Lex.left _ _ (_hw ▸ Json.sizeOf_lt_obj m)
  · exact Prod.Lex.left _ _ (_hw ▸ Json.sizeOf_lt_obj m)

/-- The entries of the variant with a discriminant. -/
def dispatch (S : Schema N) (i : N.Interface) (tag : String) (m : Mapping) :
    Traced (Value S (.interface i)) :=
  match (S.interface i).find? tag with
  | some v => .variant i v <$> decodeFields S ((S.interface i).variants.get v).record m
  | none => Variant.unknownTag (S.interface i).name tag
termination_by (sizeOf m, 1, 0)
decreasing_by exact Prod.Lex.right _ (Prod.Lex.left _ _ Nat.one_pos)

/-- The entries of a record, in the order of the declaration. -/
def decodeFields (S : Schema N) (i : N.Record) (m : Mapping) : Traced (S.Fields i) :=
  Family.traverse fun k =>
    readField ((S.record i).fields.get k) ⟨(S.record i).name, m⟩ fun w _hw =>
      decode S ((S.record i).fields.get k).type w
termination_by (sizeOf m, 0, 0)
decreasing_by exact Prod.Lex.left _ _ (Mapping.sizeOf_lt_of_mem (Mapping.mem_of_get? _hw))

end

variable (S : Schema N)

/-- A document that must be a record. -/
def decodeRecord (i : N.Record) (w : Json) : Traced (S.Fields i) :=
  Record.decode (S.record i).name w fun m _ => decodeFields S i m

/-- A document that must be the variant `v`: no other discriminant will do. -/
def decodeAs (v : VariantDecl N) (w : Json) : Traced (S.Fields v.record) :=
  Record.decode (S.record v.record).name w fun m _ => do
    let name := (S.record v.record).name
    let tag ← Traced.ofExcept (Variant.readTag name m)
    if tag = v.tag then decodeFields S v.record m
    else do
      Traced.log (.tagMismatch name tag v.tag)
      Traced.fail (.unknownTag name tag)

end Schema

end WireForm
