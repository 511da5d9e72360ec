/-
  WireForm — sample enumerations.

  The catalogue holds declarations of every kind, sound ones and some that are
  not, such as enumerations whose members share an ordinal or a name.

  * `Catalogue.enumerations`: enumerations with integer and with text ordinals;
  * `Catalogue.discriminants`: enumerations by discriminant.
-/
import WireForm.Enumeration.Basic
import WireForm.Enumeration.Discriminants

namespace WireForm

namespace Catalogue

/-- An enumeration with integer ordinals. -/
def byNumber (name : String) (members : List (String × IntKind.i64.Word)) : Enumeration :=
  ⟨name, .integer, members.map fun m => ⟨m.1, .int m.2⟩⟩

/-- An enumeration with text ordinals. -/
def byText (name : String) (members : List (String × String)) : Enumeration :=
  ⟨name, .text, members.map fun m => ⟨m.1, .text m.2⟩⟩

/-- An integer of a kind. -/
def word (k : IntKind) (n : Int) (h : k.Contains n := by decide) : k.Word := ⟨n, h⟩

/-! ## Integer ordinals -/

def single : Enumeration := byNumber "Enum" [("Variant", word .i64 1)]

def role : Enumeration :=
  byNumber "Role" [("Admin", word .i64 1), ("Editor", word .i64 2), ("Viewer", word .i64 3)]

/-- Two members share an ordinal. -/
def clashing : Enumeration := byNumber "Clashing" [("A", word .i64 7), ("B", word .i64 7)]

/-- The ends of the range, and an integer that no float is. -/
def extreme : Enumeration :=
  byNumber "Extreme"
    [("Min", word .i64 (-2 ^ 63)), ("Neg", word .i64 (-1)), ("Zero", word .i64 0),
      ("Big", word .i64 9007199254740993), ("Max", word .i64 (2 ^ 63 - 1))]

def nothing : Enumeration := byNumber "Nothing" []

/-- Two members share a name. -/
def twins : Enumeration :=
  byNumber "Twins" [("X", word .i64 1), ("Y", word .i64 2), ("X", word .i64 3)]

/-- A shared name before a shared ordinal. -/
def mixed : Enumeration :=
  byNumber "Mixed"
    [("A", word .i64 1), ("B", word .i64 2), ("A", word .i64 3), ("C", word .i64 2)]

/-- A member declared twice. -/
def same : Enumeration := byNumber "Same" [("S", word .i64 4), ("S", word .i64 4)]

/-- A clash of the last two members. -/
def late : Enumeration :=
  byNumber "Late"
    [("P", word .i64 1), ("Q", word .i64 2), ("R", word .i64 (-5)), ("T", word .i64 (-5))]

/-! ## Text ordinals -/

def color : Enumeration := byText "Color" [("Red", "red"), ("Green", "green"), ("Blue", "blue")]

/-- Texts that look like something else. -/
def mood : Enumeration :=
  byText "Mood"
    [("Blank", ""), ("Accent", "é"), ("Break", "a\nb"), ("One", "1"), ("Null", "null"),
      ("Face", "😀")]

/-- A shared ordinal that needs quoting. -/
def quoted : Enumeration := byText "Quoted" [("L", "x\"y\\\t\u0301"), ("R", "x\"y\\\t\u0301")]

/-- The enumerations, under the names of their types. -/
def enumerations : List (String × Enumeration) :=
  [("Enum", single), ("Role", role), ("Clashing", clashing), ("Extreme", extreme),
    ("Nothing", nothing), ("Twins", twins), ("Mixed", mixed), ("Same", same), ("Late", late),
    ("Color", color), ("Mood", mood), ("Quoted", quoted)]

/-! ## Discriminants -/

def priority : Discriminants :=
  ⟨"Priority", .u8, [("Low", word .u8 0), ("Normal", word .u8 5), ("High", word .u8 10)]⟩

def tiny : Discriminants :=
  ⟨"Tiny", .i8,
    [("Low", word .i8 (-128)), ("Minus", word .i8 (-1)), ("Zero", word .i8 0),
      ("High", word .i8 127)]⟩

def port : Discriminants :=
  ⟨"Port", .u16, [("None", word .u16 0), ("Http", word .u16 80), ("Last", word .u16 65535)]⟩

def wide : Discriminants :=
  ⟨"Wide", .i64,
    [("Min", word .i64 (-2 ^ 63)), ("Minus", word .i64 (-1)), ("Max", word .i64 (2 ^ 63 - 1))]⟩

/-- Two of the constants are past the signed integers. -/
def huge : Discriminants :=
  ⟨"Huge", .u64,
    [("Zero", word .u64 0), ("Edge", word .u64 (2 ^ 63 - 1)), ("Over", word .u64 (2 ^ 63)),
      ("Max", word .u64 (2 ^ 64 - 1))]⟩

/-- The enumerations by discriminant, under the names of their types. -/
def discriminants : List (String × Discriminants) :=
  [("Priority", priority), ("Tiny", tiny), ("Port", port), ("Wide", wide), ("Huge", huge)]

end Catalogue

end WireForm
