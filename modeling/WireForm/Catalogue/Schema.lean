/-
  WireForm — a sample schema.

  The schema has recursive records, tuples within tuples, and interfaces whose
  variants hold interfaces.  Some declarations are unsound on purpose: writers
  that write undeclared keys or too many elements, readers that leave elements
  unread, owners that bear the name of the placeholder.

  * `Catalogue.names`: the names of its declarations;
  * `Catalogue.schema`: the declarations.
-/
import WireForm.Catalogue.Enumerations
import WireForm.Catalogue.Foreign
import WireForm.Schema.Basic

namespace WireForm

namespace Catalogue

/-! ## Names -/

inductive RecordName where
  | entry
  | type
  | subType
  | person
  | drawing
  | circle
  | square
  | group
  | kitchen
  | tree
  | leaky
  | rewriter
  | measurement
  | blob
  | ambient
  | series
  | odd
  | holder
  | foreign
  | shadowing
  | sneaky
  | ping
  | note
  | wrap
  deriving DecidableEq

inductive TupleName where
  | empty
  | point
  | labeled
  | short
  | greedy
  | claimed
  | single
  | mix
  | stamp
  deriving DecidableEq

inductive InterfaceName where
  | interface
  | shape
  | event
  | doubled
  deriving DecidableEq

/-- The names of the schema. -/
abbrev names : Names := ⟨RecordName, TupleName, InterfaceName⟩

/-! ## Types -/

/-- An integer type. -/
def int (k : IntKind) : Ty names := .leaf (.int k)

def bool : Ty names := .leaf .bool
def string : Ty names := .leaf .string
def float64 : Ty names := .leaf .float64
def float32 : Ty names := .leaf .float32
def any : Ty names := .leaf .any
def bytes : Ty names := .leaf .bytes
def datetime : Ty names := .leaf .datetime

/-- A type of members. -/
def enum (e : Enumeration) : Ty names := .leaf (.enumeration e)

/-- A type of members by discriminant. -/
def repr (e : Discriminants) : Ty names := .leaf (.discriminants e)

/-- A type of foreign values. -/
def foreign (s : Foreign.Shape) : Ty names := .leaf (.foreign s)

/-- A field that must be present. -/
def required (key : String) (t : Ty names) : Field names := ⟨key, .required, t⟩

/-- A field that may be absent. -/
def optional (key : String) (t : Ty names) : Field names := ⟨key, .optional, t⟩

/-! ## Tuples -/

def tupleDecl : TupleName → TupleDecl names
  | .empty => .plain "Tuple" []
  | .point => .plain "Point" [float64, float64]
  | .labeled => .plain "Labeled" [string, int .u32, enum role]
  -- declares two elements and handles one
  | .short => ⟨"Short", 2, [int .u8], []⟩
  -- declares one element and handles two
  | .greedy => ⟨"Greedy", 1, [int .u8], [⟨0, by decide⟩]⟩
  -- bears the name of the placeholder
  | .claimed => ⟨"value", 2, [int .u8], []⟩
  | .single => .plain "Single" [.option string]
  | .mix =>
    .plain "Mix"
      [.tuple .point, .tuple .labeled, .option (.tuple .point), .list (int .u8), .map (int .i16)]
  | .stamp => .plain "Stamp" [datetime, bytes, repr priority]

/-! ## Records -/

def recordDecl : RecordName → RecordDecl names
  | .entry => .plain "Entry" []
  | .type => .plain "Type" []
  | .subType => .plain "Interface_SubType" []
  | .person =>
    .plain "Person"
      [required "name" string, required "age" (int .u32), optional "email" string,
        required "tags" (.list string), required "role" (enum role),
        optional "favorite" (enum color), optional "avatar" bytes, required "joined" datetime,
        required "home" (.tuple .point), required "attributes" (.map string)]
  | .drawing =>
    .plain "Drawing"
      [required "title" string, required "priority" (repr priority),
        required "shape" (.interface .shape)]
  | .circle =>
    .plain "Shape_Circle" [required "radius" float64, required "center" (.tuple .point)]
  | .square => .plain "Shape_Square" [required "side" float64, required "color" (enum color)]
  | .group =>
    .plain "Shape_Group"
      [required "name" string, optional "label" string,
        required "members" (.list (.interface .shape))]
  | .kitchen =>
    .plain "Kitchen"
      [required "flag" bool, required "a" (int .i8), required "b" (int .i16),
        required "c" (int .i32), required "d" (int .i64), required "e" (int .u8),
        required "f" (int .u16), required "g" (int .u32), required "h" (int .u64),
        required "x" float32, required "y" float64, required "any" any,
        required "maybe" (.option (int .u32)), optional "deep" (.option (int .u8))]
  | .tree =>
    .plain "Tree"
      [required "value" (int .i32), optional "next" (.box (.record .tree)),
        required "kids" (.list (.record .tree))]
  -- writes a key that it does not declare
  | .leaky =>
    { RecordDecl.plain "Leaky" [required "declared" (int .u8)] with
      constants := [("undeclared", .int 2 (by decide))] }
  -- writes a key twice
  | .rewriter =>
    { RecordDecl.plain "Rewriter" [required "a" (int .u16), required "b" string] with
      constants := [("a", .int 2 (by decide))] }
  | .measurement => .plain "Measurement" [required "value" float64]
  | .blob => .plain "Blob" [required "payload" any]
  -- bears the name of the placeholder
  | .ambient => .plain "value" [required "value" (int .u8)]
  | .series =>
    .plain "Series"
      [required "points" (.list (.tuple .point)), optional "low" float32,
        required "by_name" (.map (.list float64))]
  | .odd =>
    .plain "" [required "" (int .u8), optional "a.b" (int .u8), required "ключ" string]
  | .holder =>
    .plain "Holder"
      [optional "short" (.tuple .short), optional "greedy" (.tuple .greedy),
        optional "claimed" (.tuple .claimed), optional "ambient" (.record .ambient),
        optional "single" (.tuple .single), optional "mix" (.tuple .mix),
        optional "stamp" (.tuple .stamp), optional "leaky" (.record .leaky),
        optional "twins" (enum twins), optional "mood" (enum mood), optional "huge" (repr huge)]
  | .foreign =>
    .plain "Opaque"
      [required "at" (foreign xy), optional "mode" (foreign mode),
        required "ratio" (foreign .float32)]
  -- declares the key of the discriminant
  | .shadowing => .plain "Shadowing" [required "type" string]
  -- writes the key of the discriminant without declaring it
  | .sneaky =>
    { RecordDecl.plain "Sneaky" [required "x" (int .u8)] with
      constants := [("type", .int 2 (by decide))] }
  | .ping => .plain "Event_Ping" []
  | .note => .plain "Event_Note" [required "text" string, optional "at" datetime]
  | .wrap =>
    .plain "Event_Wrap"
      [optional "inner" (.box (.interface .event)), optional "shape" (.interface .shape),
        required "by_key" (.map (.interface .event))]

/-! ## Interfaces -/

def interfaceDecl : InterfaceName → InterfaceDecl names
  | .interface => .plain "Interface" [⟨"SubType", .subType⟩]
  | .shape => .plain "Shape" [⟨"circle", .circle⟩, ⟨"square", .square⟩, ⟨"group", .group⟩]
  | .event =>
    .plain "Event"
      [⟨"", .ping⟩, ⟨"noté", .note⟩, ⟨"type", .wrap⟩, ⟨"shadowing", .shadowing⟩,
        ⟨"sneaky", .sneaky⟩]
  -- declares a discriminant twice, and has no variants
  | .doubled => ⟨"Doubled", ["a", "b\"\n", "c", "b\"\n", "a2"], []⟩

/-- The sample schema. -/
def schema : Schema names := ⟨recordDecl, tupleDecl, interfaceDecl⟩

end Catalogue

end WireForm
