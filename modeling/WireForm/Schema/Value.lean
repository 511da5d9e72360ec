/-
  WireForm — typed values.

  A value is typed by the schema: a record holds one value per field, a tuple
  one per element, and a variant the values of its record.

  * `Value`: the values of a type;
  * `Schema.Fields`: the values of a record's fields, and `Schema.writtenValue`, one
    of them by its place in the order of writing;
  * `Value.ofOption`, `Value.ofEntries`: optional values and maps.
-/
import WireForm.Schema.Basic
import WireForm.SortedEntries

namespace WireForm

variable {N : Names}

/-- The values of a type. -/
inductive Value (S : Schema N) : Ty N → Type where
  | leaf {l : Leaf} (x : l.Carrier) : Value S (.leaf l)
  | none {t : Ty N} : Value S (.option t)
  | some {t : Ty N} (v : Value S t) : Value S (.option t)
  | box {t : Ty N} (v : Value S t) : Value S (.box t)
  | list {t : Ty N} (n : Nat) (xs : Fin n → Value S t) : Value S (.list t)
  | map {t : Ty N} (keys : List String) (sorted : SortedEntries.Sorted keys)
      (xs : Fin keys.length → Value S t) : Value S (.map t)
  | tuple (i : N.Tuple) (xs : (k : Fin (S.tuple i).elements.length) →
      Value S ((S.tuple i).elements.get k)) : Value S (.tuple i)
  | record (i : N.Record) (xs : (k : Fin (S.record i).fields.length) →
      Value S ((S.record i).fields.get k).valueType) : Value S (.record i)
  | variant (i : N.Interface) (v : Fin (S.interface i).variants.length)
      (xs : (k : Fin (S.record ((S.interface i).variants.get v).record).fields.length) →
        Value S ((S.record ((S.interface i).variants.get v).record).fields.get k).valueType) :
      Value S (.interface i)

/-- The values of a record's fields. -/
abbrev Schema.Fields (S : Schema N) (r : N.Record) : Type :=
  (k : Fin (S.record r).fields.length) → Value S ((S.record r).fields.get k).valueType

/-- The value that is written at a place of the order of writing. -/
abbrev Schema.writtenValue {S : Schema N} {r : N.Record} (xs : S.Fields r)
    (k : Fin (S.record r).writes.length) : Value S ((S.record r).written k).valueType :=
  xs ((S.record r).writes.get k)

namespace Value

variable {S : Schema N} {t : Ty N}

/-- The value is an absent option. -/
def isNone : Value S t → Bool
  | none => true
  | leaf _ | some _ | box _ | list _ _ | map _ _ _ | tuple _ _ | record _ _ | variant _ _ _ => false

/-- An optional value as a value of the optional type. -/
def ofOption : Option (Value S t) → Value S (.option t)
  | .none => none
  | .some v => some v

/-- The map of entries, the last of several with one key. -/
def ofEntries (entries : List (String × Value S t)) : Value S (.map t) :=
  let l := SortedEntries.ofList entries
  map (l.map (·.1)) (SortedEntries.sorted_ofList entries) fun i =>
    (l.get ⟨i, by simpa using i.isLt⟩).2

end Value

end WireForm
