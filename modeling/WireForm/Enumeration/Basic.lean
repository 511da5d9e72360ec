/-
  WireForm — enumerations.

  An enumeration is a fixed list of members, each with a name and an ordinal;
  all its ordinals are integers, or all are texts.  A member travels as its
  ordinal, and reading gives back the place of the member in the list.

  * `OrdinalKind`, `Ordinal`: the two kinds of ordinals, with `Ordinal.toWire`
    and `Ordinal.isWire`;
  * `Enumeration`: look-up by ordinal (`ofOrdinal?`), by name (`byName?`) and by
    document (`decode`);
  * `Enumeration.verify` finds members that share an ordinal or a name.
-/
import WireForm.Integer
import WireForm.Trace

namespace WireForm

/-! ## Ordinals -/

/-- What the ordinals of an enumeration are. -/
inductive OrdinalKind where
  | integer
  | text
  deriving DecidableEq

/-- The ordinals of a kind. -/
inductive Ordinal : OrdinalKind → Type where
  | int (n : IntKind.i64.Word) : Ordinal .integer
  | text (s : String) : Ordinal .text
  deriving DecidableEq

namespace Ordinal

variable {k : OrdinalKind}

/-- The document of an ordinal. -/
def toWire : Ordinal k → Json
  | int n => .int n.1 n.2.range
  | text s => .str s

/-- A document is exactly this ordinal; kinds never mix. -/
def isWire : Ordinal k → Json → Bool
  | int n, w => w.asInt? = some n.1
  | text s, w => w.asText? = some s

/-- An ordinal as messages show it: texts are quoted. -/
def shown : Ordinal k → String
  | int n => toString n.1
  | text s => Text.quote s

end Ordinal

/-! ## Enumerations -/

/-- A member of an enumeration. -/
structure Member (k : OrdinalKind) where
  name : String
  ordinal : Ordinal k

/-- A fixed list of named members. -/
structure Enumeration where
  name : String
  kind : OrdinalKind
  members : List (Member kind)

namespace Enumeration

variable (e : Enumeration)

/-- The places of the members. -/
abbrev Index : Type := Fin e.members.length

/-- The first member with an ordinal. -/
def ofOrdinal? (o : Ordinal e.kind) : Option e.Index :=
  e.members.findFinIdx? fun m => m.ordinal = o

/-- The first member with a name. -/
def byName? (name : String) : Option e.Index :=
  e.members.findFinIdx? fun m => m.name = name

/-- The document of a member. -/
def encode (i : e.Index) : Json := e.members[i].ordinal.toWire

/-- The first member whose ordinal the document is. -/
def decode (w : Json) : Traced e.Index :=
  match e.members.findFinIdx? fun m => m.ordinal.isWire w with
  | some i => do
    Traced.log (.member e.name e.members[i].name)
    return i
  | none => do
    Traced.log (.unknownOrdinal e.name w)
    Traced.fail (.unknownOrdinal e.name w)

/-- The first member with an ordinal, or an error. -/
def decodeOrdinal (o : Ordinal e.kind) : Traced e.Index :=
  match e.ofOrdinal? o with
  | some i => pure i
  | none => do
    Traced.log (.unassigned e.name o.shown)
    Traced.fail (.unknownOrdinal e.name o.toWire)

/-! ## Checking -/

/-- What two members have in common that they must not: the ordinal, or else
    the name. -/
def clash {k : OrdinalKind} (m m' : Member k) : Option Reason :=
  if m.ordinal = m'.ordinal then some (.sharedOrdinal m.name m'.name m.ordinal.shown)
  else if m.name = m'.name then some (.repeatedName m.name)
  else none

/-- The first clash of a pair of members, pairs being ordered by their first
    and then by their second member. -/
def firstClash {k : OrdinalKind} : List (Member k) → Option Reason
  | [] => none
  | m :: ms => (ms.findSome? (clash m)).or (firstClash ms)

/-- No two members share an ordinal or a name. -/
def verify : Except CodecError Unit :=
  match firstClash e.members with
  | some reason => .error (.malformed e.name reason)
  | none => .ok ()

end Enumeration

end WireForm
