/-
  WireForm — documents.

  A document is a JSON value.  Its numbers are of three kinds, which never
  mix: integers from `0` to `2 ^ 64 - 1`, integers from `-2 ^ 63` to `-1`, and
  finite floats; since the sign tells the first two apart, an integer and its
  range stand for both.  The entries of an object keep their order.

  * `Number`, `Json`, `Mapping`: the types;
  * `Mapping.get?` and `Mapping.insert`: look-up, and writing in place;
  * `Json.asInt?`, `Json.asNat?`, `Json.asFloat?`, `Json.asText?`, `Json.asBool?`:
    a document read as a leaf, if it is one.
-/
import WireForm.Binary.Basic

namespace WireForm

/-! ## Numbers -/

/-- A number of a document: an integer of 64 bits with or without a sign, or a
    finite float. -/
inductive Number where
  | int (n : Int) (range : -2 ^ 63 ≤ n ∧ n < 2 ^ 64)
  | float (x : Binary64) (finite : x.isFinite = true)
  deriving DecidableEq

/-- The value of a number as a float, the nearest one for an integer. -/
def Number.toFloat : Number → Binary64
  | int n _ => Binary.ofInt n
  | float x _ => x

/-! ## Documents -/

/-- A document. -/
inductive Json where
  | null
  | bool (b : Bool)
  | num (n : Number)
  | str (s : String)
  | arr (elements : List Json)
  | obj (entries : List (String × Json))
  deriving Inhabited

/-- The entries of an object, in order. -/
abbrev Mapping : Type := List (String × Json)

/-- What a document is, without its contents. -/
inductive Kind where
  | null
  | boolean
  | number
  | string
  | sequence
  | mapping
  deriving DecidableEq

/-- The name of a kind in messages. -/
def Kind.name : Kind → String
  | null => "null"
  | boolean => "boolean"
  | number => "number"
  | string => "string"
  | sequence => "sequence"
  | mapping => "mapping"

namespace Json

/-- The kind of a document. -/
def kind : Json → Kind
  | null => .null
  | bool _ => .boolean
  | num _ => .number
  | str _ => .string
  | arr _ => .sequence
  | obj _ => .mapping

/-- The integer document of an integer in range. -/
def int (n : Int) (range : -2 ^ 63 ≤ n ∧ n < 2 ^ 64) : Json := num (.int n range)

/-- A document read as an integer of 64 bits with a sign; a float is none, even
    if whole. -/
def asInt? : Json → Option Int
  | num (.int n _) => if n < 2 ^ 63 then some n else none
  | _ => none

/-- A document read as an integer of 64 bits without a sign. -/
def asNat? : Json → Option Int
  | num (.int n _) => if 0 ≤ n then some n else none
  | _ => none

/-- A document read as a truth value. -/
def asBool? : Json → Option Bool
  | bool b => some b
  | _ => none

/-- A document read as a text. -/
def asText? : Json → Option String
  | str s => some s
  | _ => none

/-- A document read as a float; any number is one. -/
def asFloat? : Json → Option Binary64
  | num n => some n.toFloat
  | _ => none

end Json

/-! ## Mappings -/

namespace Mapping

/-- The keys of a mapping, in order. -/
def keys (m : Mapping) : List String := m.map (·.1)

/-- The value of the first entry with a key. -/
def get? : Mapping → String → Option Json
  | [], _ => none
  | (k, v) :: m, key => if k = key then some v else get? m key

/-- Write an entry: over the one with the same key, where it stands, or at the
    end. -/
def insert : Mapping → String → Json → Mapping
  | [], key, value => [(key, value)]
  | (k, v) :: m, key, value =>
    if k = key then (key, value) :: m else (k, v) :: insert m key value

theorem mem_of_get? {m : Mapping} {key : String} {v : Json} (h : m.get? key = some v) :
    (key, v) ∈ m := by
  induction m with
  | nil => simp [get?] at h
  | cons e m ih =>
    obtain ⟨k, w⟩ := e
    rw [get?] at h
    split at h
    · simp_all
    · exact List.mem_cons_of_mem _ (ih h)

/-- An entry's value is smaller than the mapping. -/
theorem sizeOf_lt_of_mem {m : Mapping} {key : String} {v : Json} (h : (key, v) ∈ m) :
    sizeOf v < sizeOf m := by
  have := List.sizeOf_lt_of_mem h
  simp at this
  omega

end Mapping

namespace Json

/-- An element is smaller than the array. -/
theorem sizeOf_lt_arr {xs : List Json} {x : Json} (h : x ∈ xs) : sizeOf x < sizeOf (arr xs) := by
  have := List.sizeOf_lt_of_mem h
  simp
  omega

/-- The entries are smaller than the object. -/
theorem sizeOf_lt_obj (m : Mapping) : sizeOf m < sizeOf (obj m) := by simp

/-- The value of an entry is smaller than the object. -/
theorem sizeOf_lt_obj_of_mem {m : Mapping} {e : String × Json} (h : e ∈ m) :
    sizeOf e.2 < sizeOf (obj m) :=
  Nat.lt_trans (Mapping.sizeOf_lt_of_mem (show (e.1, e.2) ∈ m from h)) (sizeOf_lt_obj m)

end Json

end WireForm
