/-
  WireForm — sample shapes of foreign values.
-/
import WireForm.Foreign.Shape

namespace WireForm

namespace Catalogue

open Foreign

/-- Two named integers. -/
def xy : Shape := .struct "Xy" ["x", "y"] fun _ => .int .i32

/-- Alternatives of all four kinds. -/
def mode : Shape :=
  .union "Mode" ["Off", "Level", "Range", "Named"] fun
    | 0 => .unit
    | 1 => .single (.int .u8)
    | 2 => .tuple 2 fun _ => .int .i32
    | 3 => .struct ["on"] fun _ => .bool

/-- The shapes, by name. -/
def shapes : List (String × Shape) :=
  [("xy", xy), ("u8", .int .u8), ("f64", .float64), ("f32", .float32), ("string", .text),
    ("bools", .list (.option .bool)), ("pairs", .pairs), ("mode", mode)]

end Catalogue

end WireForm
