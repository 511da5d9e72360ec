/-
  WireForm — schemas.

  A schema declares records, tuples and interfaces by name.  Types refer to
  declarations by name, so declarations may be recursive.

  * `Names`, `Ty`: the names of a schema and the types over them;
  * `RecordDecl`, `TupleDecl`, `InterfaceDecl`: declarations;
  * `Schema`: a declaration for every name.
-/
import WireForm.Leaf

namespace WireForm

/-- The names of a schema's declarations. -/
structure Names where
  Record : Type
  Tuple : Type
  Interface : Type

/-- The types of a schema. -/
inductive Ty (N : Names) where
  | leaf (l : Leaf)
  /-- A value that may be absent, written as `null`. -/
  | option (t : Ty N)
  | list (t : Ty N)
  /-- Values by text keys. -/
  | map (t : Ty N)
  /-- The same values; a place where declarations may recur. -/
  | box (t : Ty N)
  | tuple (i : N.Tuple)
  | record (i : N.Record)
  | interface (i : N.Interface)

variable {N : Names}

/-! ## Declarations -/

/-- Whether a field must be present. -/
inductive Presence where
  | required
  | optional
  deriving DecidableEq

/-- A field of a record. -/
structure Field (N : Names) where
  key : String
  presence : Presence
  type : Ty N

/-- The type of a field's values: an optional field may hold none. -/
def Field.valueType (f : Field N) : Ty N :=
  match f.presence with
  | .required => f.type
  | .optional => .option f.type

/-- A record.  Its reader reads the fields in order.  Its writer has an order of
    its own, in which it writes each field once, and goes on with the constant
    entries.  In a sound declaration the fields' keys are declared and different,
    and there are no constants. -/
structure RecordDecl (N : Names) where
  name : String
  keys : List String
  fields : List (Field N)
  /-- The fields in the order of writing, by their places. -/
  writes : List (Fin fields.length)
  writes_perm : writes.Perm (List.finRange fields.length)
  constants : List (String × Json)

/-- The field that is written at a place of the order of writing. -/
abbrev RecordDecl.written (d : RecordDecl N) (k : Fin d.writes.length) : Field N :=
  d.fields.get (d.writes.get k)

/-- A record whose keys are those of its fields, read and written in one order. -/
def RecordDecl.plain (name : String) (fields : List (Field N)) : RecordDecl N where
  name := name
  keys := fields.map (·.key)
  fields := fields
  writes := List.finRange fields.length
  writes_perm := .refl _
  constants := []

/-- A tuple.  Its writer pushes the elements in order and then those at the
    echoed places again; its reader reads the elements in order, and then one
    for each echo, which it drops.  In a sound declaration the arity is the
    number of elements, and there are no echoes. -/
structure TupleDecl (N : Names) where
  name : String
  arity : Nat
  elements : List (Ty N)
  echoes : List (Fin elements.length)

/-- A tuple whose arity is the number of its elements. -/
def TupleDecl.plain (name : String) (elements : List (Ty N)) : TupleDecl N :=
  ⟨name, elements.length, elements, []⟩

/-- A variant of an interface: a record with a discriminant. -/
structure VariantDecl (N : Names) where
  tag : String
  record : N.Record

/-- An interface: its declared discriminants and its variants.  In a sound
    declaration the discriminants are different and those of the variants. -/
structure InterfaceDecl (N : Names) where
  name : String
  tags : List String
  variants : List (VariantDecl N)

/-- An interface whose discriminants are those of its variants. -/
def InterfaceDecl.plain (name : String) (variants : List (VariantDecl N)) : InterfaceDecl N :=
  ⟨name, variants.map (·.tag), variants⟩

/-- The first variant with a discriminant. -/
def InterfaceDecl.find? (d : InterfaceDecl N) (tag : String) : Option (Fin d.variants.length) :=
  d.variants.findFinIdx? fun v => v.tag = tag

/-- A declaration for every name. -/
structure Schema (N : Names) where
  record : N.Record → RecordDecl N
  tuple : N.Tuple → TupleDecl N
  interface : N.Interface → InterfaceDecl N

end WireForm
