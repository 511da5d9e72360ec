/-
  WireForm — enumerations by discriminant.

  The members of such an enumeration are named constants of an integer kind,
  all different.  A member travels as its constant, and reading goes through
  signed integers of 64 bits: a constant past them is written but never read.

  * `Discriminants`, `Discriminants.encode`, `Discriminants.decode`.
-/
import WireForm.Integer
import WireForm.Trace

namespace WireForm

/-- Named constants of an integer kind. -/
structure Discriminants where
  name : String
  kind : IntKind
  constants : List (String × kind.Word)

namespace Discriminants

variable (e : Discriminants)

/-- The places of the constants. -/
abbrev Index : Type := Fin e.constants.length

/-- The member with a discriminant. -/
def ofDiscriminant? (n : e.kind.Word) : Option e.Index :=
  e.constants.findFinIdx? fun c => c.2 = n

/-- The document of a member. -/
def encode (i : e.Index) : Json := .int e.constants[i].2.1 e.constants[i].2.2.range

/-- The member whose discriminant the document is. -/
def find? (w : Json) : Option e.Index := do
  let n ← w.asInt?
  if h : e.kind.Contains n then e.ofDiscriminant? ⟨n, h⟩ else none

/-- The member whose discriminant the document is, or an error. -/
def decode (w : Json) : Traced e.Index :=
  match e.find? w with
  | some i => pure i
  | none => do
    Traced.log (.unknownOrdinal e.name w)
    Traced.fail (.unknownOrdinal e.name w)

end Discriminants

end WireForm
