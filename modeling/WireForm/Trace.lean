/-
  WireForm — decoding with a trail.

  Decoding leaves a trail of events, also when it fails.

  * `Event`: what happens, with its level, message and fields;
  * `Traced`: a result together with the events that led to it.
-/
import WireForm.Error

namespace WireForm

/-! ## Events -/

/-- How much an event matters. -/
inductive Level where
  | trace
  | debug
  deriving DecidableEq

/-- What happens while decoding. -/
inductive Event where
  | member (enumeration name : String)
  /-- A document that is no ordinal of the enumeration. -/
  | unknownOrdinal (enumeration : String) (ordinal : Json)
  /-- An ordinal that no member carries, shown as `shown`. -/
  | unassigned (enumeration shown : String)
  | dispatch (interface tag : String)
  | unknownTag (interface tag : String)
  | tagMismatch (variant tag expected : String)

namespace Event

/-- Routine events are traces; what fails is worth a look. -/
def level : Event → Level
  | member .. | dispatch .. => .trace
  | unknownOrdinal .. | unassigned .. | unknownTag .. | tagMismatch .. => .debug

/-- The wording of an event. -/
def message : Event → String
  | member .. => "decoded enum member"
  | unknownOrdinal .. | unassigned .. => "unknown enum value"
  | dispatch .. => "dispatching variant"
  | unknownTag .. => "unknown variant tag"
  | tagMismatch .. => "variant tag mismatch"

/-- The fields of an event, by name. -/
def fields : Event → List (String × String)
  | .member enumeration name => [("enumeration", enumeration), ("member", name)]
  | unknownOrdinal enumeration ordinal =>
    [("enumeration", enumeration), ("ordinal", ordinal.render)]
  | unassigned enumeration shown => [("enumeration", enumeration), ("ordinal", shown)]
  | dispatch interface tag | unknownTag interface tag => [("interface", interface), ("tag", tag)]
  | tagMismatch variant tag expected =>
    [("variant", variant), ("tag", tag), ("expected", expected)]

end Event

/-! ## Results with a trail -/

/-- A result and the events that led to it, in order. -/
structure Traced (α : Type) where
  events : List Event
  result : Except CodecError α

namespace Traced

/-- The events of a continuation follow; after a failure nothing does. -/
def bind {α β : Type} (x : Traced α) (f : α → Traced β) : Traced β :=
  match x.result with
  | .ok a =>
    let y := f a
    ⟨x.events ++ y.events, y.result⟩
  | .error e => ⟨x.events, .error e⟩

instance : Monad Traced where
  pure a := ⟨[], .ok a⟩
  bind := bind

/-- A result without events. -/
def ofExcept {α : Type} (r : Except CodecError α) : Traced α := ⟨[], r⟩

/-- A failure. -/
def fail {α : Type} (e : CodecError) : Traced α := ⟨[], .error e⟩

/-- An event. -/
def log (e : Event) : Traced Unit := ⟨[e], .ok ()⟩

/-- A failure gets a location unless it has one. -/
def locate {α : Type} (location : String) (x : Traced α) : Traced α :=
  ⟨x.events, x.result.mapError (CodecError.locate location)⟩

end Traced

end WireForm
