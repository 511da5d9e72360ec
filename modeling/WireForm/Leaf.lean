/-
  WireForm — leaves.

  A leaf is a type whose values have no parts that the schema knows of.  Each
  has one kind of document, and nothing is coerced.

  * `Leaf`, `Leaf.Carrier`: the types of leaves and their values;
  * `Leaf.encode`, `Leaf.decode`: the two directions.
-/
import WireForm.Enumeration.Basic
import WireForm.Enumeration.Discriminants
import WireForm.Foreign.Codec
import WireForm.Timestamp.Printer

namespace WireForm

/-- A type of leaves. -/
inductive Leaf where
  | bool
  | string
  | int (k : IntKind)
  | float64
  | float32
  /-- Any document, passed through untouched. -/
  | any
  /-- Bytes, as text in base 64. -/
  | bytes
  /-- Points in time, as text of RFC 3339. -/
  | datetime
  | foreign (s : Foreign.Shape)
  | enumeration (e : Enumeration)
  | discriminants (e : Discriminants)

namespace Leaf

/-- The values of a leaf. -/
def Carrier : Leaf → Type
  | bool => Bool
  | string => String
  | int k => k.Word
  | float64 => Binary64
  | float32 => Binary32
  | any => Json
  | bytes => List UInt8
  | datetime => Timestamp
  | foreign s => s.Carrier
  | enumeration e => e.Index
  | discriminants e => e.Index

/-! ## Encoding -/

/-- The document of a float, which must be finite. -/
def encodeFloat (x : Binary64) : Except CodecError Json :=
  if h : x.isFinite = true then .ok (.num (.float x h))
  else .error (.bare (.nonFinite x.nonFiniteName))

/-- The document of a leaf. -/
def encode : (l : Leaf) → l.Carrier → Except CodecError Json
  | bool, (b : Bool) => .ok (.bool b)
  | string, (s : String) => .ok (.str s)
  | int _, (n : IntKind.Word _) => .ok (.int n.1 n.2.range)
  | float64, (x : Binary64) => encodeFloat x
  | float32, (x : Binary32) => encodeFloat (x.convert .double)
  | any, (j : Json) => .ok j
  | bytes, (bs : List UInt8) => .ok (.str (Base64.encode bs))
  | datetime, (t : Timestamp) => .ok (.str t.render)
  | foreign s, (x : s.Carrier) => (Foreign.encode s x).mapError fun e => .bare (.foreign e)
  | enumeration e, (i : e.Index) => .ok (e.encode i)
  | discriminants e, (i : e.Index) => .ok (e.encode i)

/-! ## Decoding -/

/-- A document read in some way, or else of the wrong kind. -/
def readAs {α : Type} (expected : String) (read : Json → Option α) (w : Json) :
    Except CodecError α :=
  match read w with
  | some a => .ok a
  | none => .error (.kindMismatch placeholder expected w)

/-- An integer of a kind.  Signed kinds read signed numbers and unsigned kinds
    unsigned ones before the range is looked at. -/
def decodeInt (k : IntKind) (w : Json) : Except CodecError k.Word := do
  let n ← if k.signed then readAs "integer" Json.asInt? w
    else readAs "unsigned integer" Json.asNat? w
  if h : k.Contains n then .ok ⟨n, h⟩
  else .error (.bare (.outOfRange (toString n) k.name))

/-- A float of 32 bits: the nearest one, which must be finite. -/
def decodeFloat32 (w : Json) : Except CodecError Binary32 := do
  let x ← readAs "number" Json.asFloat? w
  let y := x.convert .single
  if y.isFinite then .ok y
  else .error (.bare (.outOfRange (Layout.plain.render x) "f32"))

/-- The bytes of a text in base 64. -/
def decodeBytes (w : Json) : Except CodecError (List UInt8) := do
  let s ← readAs "base64 string" Json.asText? w
  (Base64.decode s).mapError fun e => .bare (.base64 e)

/-- The point in time of a text of RFC 3339. -/
def decodeDatetime (w : Json) : Except CodecError Timestamp := do
  let s ← readAs "RFC 3339 string" Json.asText? w
  (Timestamp.parse s).mapError fun e => .bare (.datetime e)

/-- The leaf of a document. -/
def decode : (l : Leaf) → Json → Traced l.Carrier
  | bool, w => .ofExcept (readAs "boolean" Json.asBool? w)
  | string, w => .ofExcept (readAs "string" Json.asText? w)
  | int k, w => .ofExcept (decodeInt k w)
  | float64, w => .ofExcept (readAs "number" Json.asFloat? w)
  | float32, w => .ofExcept (decodeFloat32 w)
  | any, w => .ofExcept (.ok w)
  | bytes, w => .ofExcept (decodeBytes w)
  | datetime, w => .ofExcept (decodeDatetime w)
  | foreign s, w => .ofExcept ((Foreign.decode s w).mapError fun e => .bare (.foreign e))
  | enumeration e, w => e.decode w
  | discriminants e, w => e.decode w

end Leaf

end WireForm
