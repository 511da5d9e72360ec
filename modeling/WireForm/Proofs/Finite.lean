/-
  WireForm — rounding that stays finite.

  Rounding at most doubles a magnitude, so what is far enough below the largest
  number of a format is rounded to a finite number.  Integers of a document and
  numbers of 32 bits are, for the format of 64 bits.

  * `Format.nearestIndex_lt`, `Binary.isFinite_ofQuotient`: when a quotient is
    rounded to a finite number;
  * `Binary.isFinite_ofInt`: integers of a document as floats;
  * `Binary.isFinite_widen`, `Binary.nonFiniteName_widen`: a number of 32 bits
    in 64 bits is finite or not as before, and is called the same if not.
-/
import WireForm.Decimal.Layout

namespace WireForm

/-! ## Places -/

theorem roundHalfEven_le (num den : Nat) : roundHalfEven num den ≤ num / den + 1 := by
  unfold roundHalfEven
  dsimp only
  split
  · omega
  · split <;> omega

namespace Format

variable {f : Format}

/-- The significand that is rounded has one binary place more than the
    fraction, and rounding may carry into another. -/
theorem nearestIndex_lt {num den e : Nat} (hq : num / den < 2 ^ (f.fractionBits + e))
    (he : e + 2 < f.topExponent) : f.nearestIndex num den < f.infinityIndex := by
  unfold nearestIndex
  dsimp only
  generalize hs : Nat.log2 (num / den) - f.fractionBits = s
  have hse : s ≤ e := by
    by_cases h0 : num / den = 0
    · rw [h0] at hs
      simp at hs
      omega
    · have hlog := (Nat.log2_lt h0).2 hq
      omega
  have hsig : num / (den * 2 ^ s) < 2 ^ (f.fractionBits + 1) := by
    rw [← Nat.div_div_eq_div_mul, Nat.div_lt_iff_lt_mul (Nat.two_pow_pos s), ← Nat.pow_add]
    exact Nat.lt_of_lt_of_le (Nat.lt_log2_self) (Nat.pow_le_pow_right (by decide) (by omega))
  have hround : roundHalfEven num (den * 2 ^ s) ≤ 2 * 2 ^ f.fractionBits := by
    rw [Nat.pow_succ] at hsig
    exact Nat.le_trans (roundHalfEven_le _ _) (by omega)
  calc s * 2 ^ f.fractionBits + roundHalfEven num (den * 2 ^ s)
      ≤ s * 2 ^ f.fractionBits + 2 * 2 ^ f.fractionBits := Nat.add_le_add_left hround _
    _ = (s + 2) * 2 ^ f.fractionBits := (Nat.add_mul _ _ _).symm
    _ < f.topExponent * 2 ^ f.fractionBits :=
      Nat.mul_lt_mul_of_pos_right (by omega) (Nat.two_pow_pos _)

/-- A finite magnitude is a significand shifted by its exponent. -/
theorem quanta_lt {k : Nat} (hk : k < f.infinityIndex) :
    f.quanta k < 2 ^ (f.fractionBits + f.topExponent) := by
  have hexp : k / 2 ^ f.fractionBits < f.topExponent :=
    Nat.div_lt_of_lt_mul (by rwa [Nat.mul_comm])
  have hmod : k % 2 ^ f.fractionBits < 2 ^ f.fractionBits := Nat.mod_lt _ (Nat.two_pow_pos _)
  unfold quanta
  split
  · next h0 =>
    calc k < 2 ^ f.fractionBits := Nat.lt_of_div_eq_zero (Nat.two_pow_pos _) h0
      _ ≤ 2 ^ (f.fractionBits + f.topExponent) :=
        Nat.pow_le_pow_right (by decide) (Nat.le_add_right _ _)
  · generalize k / 2 ^ f.fractionBits = exponent at *
    calc (2 ^ f.fractionBits + k % 2 ^ f.fractionBits) * 2 ^ (exponent - 1)
        < 2 ^ (f.fractionBits + 1) * 2 ^ (exponent - 1) := by
          refine Nat.mul_lt_mul_of_pos_right ?_ (Nat.two_pow_pos _)
          rw [Nat.pow_succ]
          omega
      _ = 2 ^ (f.fractionBits + 1 + (exponent - 1)) := (Nat.pow_add _ _ _).symm
      _ ≤ 2 ^ (f.fractionBits + f.topExponent) := Nat.pow_le_pow_right (by decide) (by omega)

end Format

namespace Binary

/-! ## Numbers -/

section
variable {f : Format} {negative : Bool}

theorem isFinite_ofIndex {k : Nat} (hk : k < f.infinityIndex) :
    (ofIndex negative k : Binary f).isFinite = true := by
  have hdiv : k / 2 ^ f.fractionBits < f.topExponent :=
    Nat.div_lt_of_lt_mul (by rwa [Nat.mul_comm])
  have htop : f.topExponent < 2 ^ f.exponentBits := Nat.sub_lt (Nat.two_pow_pos _) Nat.one_pos
  rw [isFinite, bne_iff_ne, ofIndex, Nat.min_eq_left (Nat.le_of_lt hk)]
  show k / 2 ^ f.fractionBits % 2 ^ f.exponentBits ≠ _
  rw [Nat.mod_eq_of_lt (by omega)]
  omega

/-- Far enough below infinity, rounding is to a finite number. -/
theorem isFinite_ofQuotient {num den e : Nat}
    (hq : num * 2 ^ f.scale / den < 2 ^ (f.fractionBits + e)) (he : e + 2 < f.topExponent) :
    (ofQuotient negative num den : Binary f).isFinite = true :=
  isFinite_ofIndex (Format.nearestIndex_lt hq he)

/-- The place is before those of the next exponent. -/
theorem index_lt_run (x : Binary f) : x.index < (x.exponent.val + 1) * 2 ^ f.fractionBits := by
  rw [index, Nat.add_mul, Nat.one_mul]
  exact Nat.add_lt_add_left x.fraction.isLt _

theorem index_lt_of_isFinite {x : Binary f} (hx : x.isFinite = true) :
    x.index < f.infinityIndex := by
  rw [isFinite, bne_iff_ne, Format.topExponent] at hx
  have hexp := x.exponent.isLt
  calc x.index < (x.exponent.val + 1) * 2 ^ f.fractionBits := x.index_lt_run
    _ ≤ (2 ^ f.exponentBits - 1) * 2 ^ f.fractionBits := Nat.mul_le_mul_right _ (by omega)

end

/-- The integers of a document are finite as floats. -/
theorem isFinite_ofInt {n : Int} (hn : -2 ^ 63 ≤ n ∧ n < 2 ^ 64) :
    (ofInt n : Binary64).isFinite = true := by
  refine isFinite_ofQuotient (e := 1086) ?_ (by decide)
  rw [Nat.div_one]
  calc n.natAbs * 2 ^ Format.double.scale
      < 2 ^ 64 * 2 ^ Format.double.scale :=
        Nat.mul_lt_mul_of_pos_right (by omega) (Nat.two_pow_pos _)
    _ = 2 ^ (64 + Format.double.scale) := (Nat.pow_add _ _ _).symm
    _ = 2 ^ (Format.double.fractionBits + 1086) := congrArg _ (by decide)

/-! ## From 32 to 64 bits -/

section
variable {x : Binary32}

theorem isFinite_convert_of_isFinite (hx : x.isFinite = true) :
    (x.convert .double).isFinite = true := by
  have hnan : x.isNaN = false := by rw [isNaN, hx]; rfl
  rw [convert, hnan, hx]
  refine isFinite_ofQuotient (e := 1151) ?_ (by decide)
  have hq := Format.quanta_lt (index_lt_of_isFinite hx)
  refine Nat.div_lt_of_lt_mul ?_
  calc x.quanta * 2 ^ Format.double.scale
      < 2 ^ (Format.single.fractionBits + Format.single.topExponent) * 2 ^ Format.double.scale :=
        Nat.mul_lt_mul_of_pos_right hq (Nat.two_pow_pos _)
    _ = 2 ^ (Format.single.fractionBits + Format.single.topExponent + Format.double.scale) :=
      (Nat.pow_add _ _ _).symm
    _ = 2 ^ (Format.single.scale + (Format.double.fractionBits + 1151)) := congrArg _ (by decide)
    _ = 2 ^ Format.single.scale * 2 ^ (Format.double.fractionBits + 1151) := Nat.pow_add _ _ _

theorem isFinite_widen (x : Binary32) : (x.convert .double).isFinite = x.isFinite := by
  cases hx : x.isFinite with
  | true => exact isFinite_convert_of_isFinite hx
  | false =>
    rw [convert, hx]
    cases x.isNaN <;> rfl

theorem nonFiniteName_widen (hx : x.isFinite = false) :
    (x.convert .double).nonFiniteName = x.nonFiniteName := by
  rw [convert, hx, nonFiniteName, nonFiniteName]
  cases x.isNaN <;> rfl

end

end Binary

end WireForm
