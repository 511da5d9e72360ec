/-
  WireForm — numbers of 32 bits in documents.

  The floats of a document have 64 bits.  A number of 32 bits is widened to be
  written and narrowed again when it is read.  Every number has a nearest one of
  32 bits up to the midpoint between the greatest finite one and the next power
  of two, where infinity begins.

  * `Binary.isFinite_narrow_iff`: that midpoint;
  * `Binary.value_widen`: widening keeps the value;
  * `Leaf.float32_survives`: a number of 32 bits comes back from its document, and
    the number of a document is read iff it is below the midpoint;
  * `Leaf.toBits_of_encode_float32`: the same for bit patterns.
-/
import Mathlib.Tactic.NormNum
import WireForm.Proofs.Rounding
import WireForm.Proofs.Stability

namespace WireForm

namespace Binary

/-! ## Between 32 and 64 bits -/

/-- **A number is narrowed to a finite one** iff it is below the midpoint above the
    greatest of them, which is `2 ^ 128 - 2 ^ 104`. -/
theorem isFinite_narrow_iff {x : Binary64} (hx : x.isFinite = true) :
    (x.convert .single).isFinite = true ↔ |x.value| < 2 ^ 128 - 2 ^ 103 := by
  have hmid : Format.single.quanta (Format.single.infinityIndex - 1) +
      Format.single.quanta Format.single.infinityIndex = (2 ^ 25 - 1) * 2 ^ 253 :=
    Format.quanta_add_quanta (f := .single) (s := 253) (c := 2 ^ 24 - 1) (by decide) (by decide)
  have hbound : (2 ^ 128 - 2 ^ 103 : ℚ) = ((2 ^ 25 - 1) * 2 ^ 103 : ℕ) := by norm_num
  rw [convert_of_isFinite hx, isFinite_ofQuotient_iff (by decide) (by decide) (Nat.two_pow_pos _),
    hmid, hbound, abs_value_lt_iff]
  have hnum : 2 * (x.quanta * 2 ^ Format.single.scale) = x.quanta * 2 ^ 150 := by
    rw [show Format.single.scale = 149 by decide]
    ring
  have hpow : (2 ^ 25 - 1) * 2 ^ 253 * 2 ^ Format.double.scale =
      (2 ^ 25 - 1) * 2 ^ 103 * 2 ^ Format.double.scale * 2 ^ 150 := by
    ring
  rw [hnum, hpow]
  exact Nat.mul_lt_mul_right (Nat.two_pow_pos 150)

/-- A shift of a magnitude and of its scale cancel. -/
theorem cast_mul_two_pow_div (m e s : ℕ) : ((m * 2 ^ e : ℕ) : ℚ) / 2 ^ (e + s) = m / 2 ^ s := by
  rw [Nat.cast_mul, Nat.cast_pow, Nat.cast_ofNat, add_comm, pow_add]
  exact mul_div_mul_right _ _ (by positivity)

/-- **Widening is exact.** -/
theorem value_widen {x : Binary32} (hx : x.isFinite = true) :
    (x.convert .double).value = x.value := by
  rw [value, negative_convert hx, quanta_widen hx, scale_double_eq,
    cast_mul_two_pow_div x.quanta 925, value]

end Binary

/-! ## Leaves -/

namespace Leaf

theorem encode_float32 {x : Binary32} (hx : x.isFinite = true) :
    encode .float32 x =
      .ok (.num (.float (x.convert .double) (Binary.isFinite_convert_of_isFinite hx))) :=
  encodeFloat_of_isFinite _

section
variable {n : Number}

theorem decode_float32_of_isFinite (h : (n.toFloat.convert .single).isFinite = true) :
    (decode .float32 (.num n)).result = .ok (n.toFloat.convert .single) :=
  if_pos h

theorem decode_float32_of_not_isFinite (h : ¬ (n.toFloat.convert .single).isFinite = true) :
    (decode .float32 (.num n)).result =
      .error (.bare (.outOfRange (Layout.plain.render n.toFloat) "f32")) :=
  if_neg h

end

/-- A finite number of 32 bits is read back from a number of the same value. -/
theorem exists_encode_float32 {x : Binary32} (hx : x.isFinite = true) :
    ∃ n, encode .float32 x = .ok (.num n) ∧ n.toFloat.value = x.value ∧
      (decode .float32 (.num n)).result = .ok x := by
  have hnarrow := Binary.narrow_widen hx
  have hdecode := decode_float32_of_isFinite
    (n := .float (x.convert .double) (Binary.isFinite_convert_of_isFinite hx))
    (by rw [Number.toFloat, hnarrow, hx])
  exact ⟨_, encode_float32 hx, Binary.value_widen hx, hdecode.trans (congrArg _ hnarrow)⟩

/-- All patterns of 32 bits come back, but those of the infinities and of what is
    not a number. -/
theorem toBits_of_encode_float32 {bits : Nat} (hbits : bits < 2 ^ 32)
    (hx : (Binary.ofBits .single bits).isFinite = true) :
    ∃ w, encode .float32 (Binary.ofBits .single bits) = .ok w ∧
      ∃ y : Binary32, (decode .float32 w).result = .ok y ∧ y.toBits = bits := by
  obtain ⟨n, hn, -, hread⟩ := exists_encode_float32 hx
  exact ⟨_, hn, _, hread, Binary.toBits_ofBits hbits⟩

/-- **Numbers of 32 bits survive their documents**, which have 64.  A finite one is
    written without a change of its value and comes back, bit by bit.  A number of
    a document is read iff its value is below the midpoint above the greatest
    finite number of 32 bits, and then as a finite number that no other is nearer
    than; from the midpoint on it is out of range. -/
theorem float32_survives :
    (∀ x : Binary32, x.isFinite = true → ∃ n, encode .float32 x = .ok (.num n) ∧
      n.toFloat.value = x.value ∧ (decode .float32 (.num n)).result = .ok x) ∧
    ∀ n : Number,
      ((∃ x, (decode .float32 (.num n)).result = .ok x) ↔
        |n.toFloat.value| < 2 ^ 128 - 2 ^ 103) ∧
      (∀ x : Binary32, (decode .float32 (.num n)).result = .ok x → x.isFinite = true ∧
        ∀ y : Binary32, y.isFinite = true →
          |x.value - n.toFloat.value| ≤ |y.value - n.toFloat.value|) ∧
      (2 ^ 128 - 2 ^ 103 ≤ |n.toFloat.value| → (decode .float32 (.num n)).result =
        .error (.bare (.outOfRange (Layout.plain.render n.toFloat) "f32"))) := by
  constructor
  · exact fun x hx => exists_encode_float32 hx
  · intro n
    have hn := n.isFinite_toFloat
    rw [← not_lt, ← Binary.isFinite_narrow_iff hn]
    by_cases hfinite : (n.toFloat.convert .single).isFinite = true
    · rw [decode_float32_of_isFinite hfinite]
      refine ⟨iff_of_true ⟨_, rfl⟩ hfinite, fun x hx => ?_, fun h => absurd hfinite h⟩
      cases hx
      exact ⟨hfinite, fun y _ => Binary.value_convert_nearest (by decide) hn hfinite y⟩
    · rw [decode_float32_of_not_isFinite hfinite]
      refine ⟨iff_of_false ?_ hfinite, fun x hx => ?_, fun _ => rfl⟩
      · rintro ⟨x, hx⟩
        cases hx
      · cases hx

end Leaf

namespace Catalogue

/-- The negative number of 32 bits next to zero. -/
def leastNegative : Binary32 := .ofBits .single 0x80000001

/-- The midpoint above the greatest number of 32 bits. -/
def lastMidpoint : Binary64 := .ofBits .double 0x47effffff0000000

theorem isFinite_lastMidpoint : lastMidpoint.isFinite = true := by decide

theorem abs_value_lastMidpoint : |lastMidpoint.value| = 2 ^ 128 - 2 ^ 103 := by
  have hquanta : lastMidpoint.quanta = (2 ^ 128 - 2 ^ 103) * 2 ^ Format.double.scale := by
    decide +kernel
  have hpos : (2 ^ Format.double.scale : ℚ) ≠ 0 := by positivity
  rw [Binary.abs_value, hquanta, Nat.cast_mul, Nat.cast_pow, Nat.cast_ofNat,
    mul_div_cancel_right₀ _ hpos]
  norm_num

/-- A subnormal number comes back, with its sign, and the midpoint itself is out of
    range. -/
theorem float32_survives_lastMidpoint :
    leastNegative.isFinite = true ∧
      (∃ n, Leaf.encode .float32 leastNegative = .ok (.num n) ∧
        n.toFloat.value = leastNegative.value ∧
        (Leaf.decode .float32 (.num n)).result = .ok leastNegative) ∧
      (Leaf.decode .float32 (.num (.float lastMidpoint isFinite_lastMidpoint))).result =
        .error (.bare (.outOfRange (Layout.plain.render lastMidpoint) "f32")) :=
  ⟨by decide, Leaf.float32_survives.1 leastNegative (by decide),
    (Leaf.float32_survives.2 _).2.2 (le_of_eq abs_value_lastMidpoint.symm)⟩

end Catalogue

end WireForm
