/-
  WireForm — powers of numbers.

  The bounds of integers and the formats of numbers are powers of two and ten.
  They are powers in the sense of the core library, also next to Mathlib, which
  has powers of its own for monoids.
-/

attribute [instance (2000), default_instance 20000] instPowNat
