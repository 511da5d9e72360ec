/-
  WireForm — the shapes of foreign values.

  A foreign value is one whose type brings a wire form of its own, with its own
  rules and its own messages; the schema only passes it through.  Its shape
  says what the type is made of.

  * `Shape`, `Payload`: shapes, and what an alternative of a union carries;
  * `TextMap`: values by texts;
  * `Shape.Carrier`: the values of a shape.
-/
import WireForm.Binary.Basic
import WireForm.Integer
import WireForm.SortedEntries

namespace WireForm

namespace Foreign

mutual

/-- The shape of a foreign value. -/
inductive Shape where
  | bool
  | text
  | int (k : IntKind)
  | float32
  | float64
  /-- A value that may be absent. -/
  | option (s : Shape)
  | list (s : Shape)
  /-- Values by texts. -/
  | map (s : Shape)
  /-- Texts by pairs of integers. -/
  | pairs
  /-- Named fields. -/
  | struct (name : String) (fields : List String) (shape : Fin fields.length → Shape)
  /-- One of several named alternatives. -/
  | union (name : String) (alternatives : List String)
      (payload : Fin alternatives.length → Payload)

/-- What an alternative of a union carries. -/
inductive Payload where
  | unit
  | single (s : Shape)
  | tuple (n : Nat) (shape : Fin n → Shape)
  | struct (fields : List String) (shape : Fin fields.length → Shape)

end

/-- Values by texts, in the order of the texts. -/
@[ext]
structure TextMap (α : Type) where
  entries : List (String × α)
  sorted : SortedEntries.Sorted (entries.map (·.1))

/-- The map of entries, the last of several with one key. -/
def TextMap.ofEntries {α : Type} (entries : List (String × α)) : TextMap α :=
  ⟨SortedEntries.ofList entries, SortedEntries.sorted_ofList entries⟩

/-- A text by a pair of integers. -/
structure PairEntry where
  first : IntKind.i64.Word
  second : IntKind.i64.Word
  text : String
  deriving DecidableEq

mutual

/-- The values of a shape. -/
@[reducible] def Shape.Carrier : Shape → Type
  | .bool => Bool
  | .text => String
  | .int k => k.Word
  | .float32 => Binary32
  | .float64 => Binary64
  | .option s => Option s.Carrier
  | .list s => List s.Carrier
  | .map s => TextMap s.Carrier
  | .pairs => List PairEntry
  | .struct _ _ shape => ∀ i, (shape i).Carrier
  | .union _ _ payload => Σ i, (payload i).Carrier

/-- The values that an alternative carries. -/
@[reducible] def Payload.Carrier : Payload → Type
  | .unit => Unit
  | .single s => s.Carrier
  | .tuple _ shape => ∀ i, (shape i).Carrier
  | .struct _ shape => ∀ i, (shape i).Carrier

end

end Foreign

end WireForm
