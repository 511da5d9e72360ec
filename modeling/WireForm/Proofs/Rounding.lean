/-
  WireForm — rounding to the nearest number.

  The magnitudes of a format grow with their places.  Rounding goes to the place
  whose magnitude is nearest, and from the midpoint of two to the even place, so
  it is decided by the midpoints alone.

  * `roundHalfEven_le_iff`: the rule for integers;
  * `Format.quanta_significand`, `Format.quanta_strictMono`: the magnitude at the
    place of a significand and a shift, and their order;
  * `Format.nearestIndex_le_iff`: the rule for places;
  * `Binary.value`: the value of a number, and `Binary.isFinite_ofQuotient_iff`:
    when a quotient is rounded to a finite one;
  * `Binary.value_convert_nearest`: no number of a format is nearer to a number
    than the one that it is converted to;
  * `Binary.toBits_ofBits`: each bit pattern is that of a number of its own.
-/
import Mathlib.Algebra.Order.Field.Basic
import Mathlib.Data.Rat.Cast.Order
import Mathlib.Order.Monotone.Basic
import Mathlib.Tactic.FieldSimp
import Mathlib.Tactic.Linarith
import Mathlib.Tactic.Positivity
import Mathlib.Tactic.Ring
import WireForm.Proofs.Widening

namespace WireForm

/-! ## Rounding to integers -/

/-- A quotient is rounded up past `k` from the midpoint on, and at the midpoint
    itself only if `k` is odd. -/
theorem roundHalfEven_le_iff {num den k : Nat} (hden : 0 < den) :
    roundHalfEven num den ≤ k ↔
      2 * num < (2 * k + 1) * den ∨ 2 * num = (2 * k + 1) * den ∧ k % 2 = 0 := by
  have hnum : den * (num / den) + num % den = num := Nat.div_add_mod num den
  have hmod : num % den < den := Nat.mod_lt num hden
  have hmid : (2 * k + 1) * den = 2 * (den * k) + den := by ring
  unfold roundHalfEven
  dsimp only
  generalize num / den = q at *
  generalize num % den = r at *
  rw [hmid]
  -- unless `k` is the integer part, that alone tells the side of the midpoint above `k`
  rcases Nat.lt_trichotomy k q with hk | rfl | hk
  · have hle : den * k + den ≤ den * q := by
      rw [← Nat.mul_succ]
      exact Nat.mul_le_mul_left den hk
    split_ifs <;> omega
  · split_ifs <;> omega
  · have hle : den * q + den ≤ den * k := by
      rw [← Nat.mul_succ]
      exact Nat.mul_le_mul_left den hk
    split_ifs <;> omega

theorem roundHalfEven_le_of_lt {num den q : Nat} (h : num < q * den) :
    roundHalfEven num den ≤ q :=
  Nat.le_trans (roundHalfEven_le num den) (Nat.div_lt_of_lt_mul (by rwa [Nat.mul_comm]))

theorem le_roundHalfEven {num den q : Nat} (hden : 0 < den) (h : q * den ≤ num) :
    q ≤ roundHalfEven num den := by
  have hq : q ≤ num / den := (Nat.le_div_iff_mul_le hden).2 h
  unfold roundHalfEven
  dsimp only
  split_ifs <;> omega

namespace Format

variable {f : Format}

/-! ## Places -/

/-- A place is that of a significand and a shift.  Only without a shift may the
    significand be short. -/
theorem exists_significand (k : Nat) : ∃ s c, c < 2 * 2 ^ f.fractionBits ∧
    (s = 0 ∨ 2 ^ f.fractionBits ≤ c) ∧ k = s * 2 ^ f.fractionBits + c := by
  rcases lt_or_exists_run (f := f) k with hk | ⟨e, m, hm, rfl⟩
  · exact ⟨0, k, by omega, .inl rfl, by omega⟩
  · exact ⟨e, 2 ^ f.fractionBits + m, by omega, .inr (Nat.le_add_right _ _), by ring⟩

/-- The magnitude at the place of a significand and a shift, also for the
    significand that carries into the next run. -/
theorem quanta_significand {s c : Nat} (hc : c ≤ 2 * 2 ^ f.fractionBits)
    (hs : s = 0 ∨ 2 ^ f.fractionBits ≤ c) :
    f.quanta (s * 2 ^ f.fractionBits + c) = c * 2 ^ s := by
  rcases Nat.lt_or_ge c (2 ^ f.fractionBits) with hshort | hfull
  · obtain rfl : s = 0 := hs.resolve_right (Nat.not_le.2 hshort)
    rw [Nat.zero_mul, Nat.zero_add, quanta_of_lt hshort, Nat.pow_zero, Nat.mul_one]
  · obtain ⟨m, rfl⟩ := Nat.exists_eq_add_of_le hfull
    rcases Nat.lt_or_ge m (2 ^ f.fractionBits) with hm | hm
    · rw [← quanta_run s hm]
      congr 1
      ring
    · obtain rfl : m = 2 ^ f.fractionBits := by omega
      have hcarry := quanta_run (f := f) (s + 1) (Nat.two_pow_pos f.fractionBits)
      rw [Nat.add_zero, Nat.add_zero] at hcarry
      calc f.quanta (s * 2 ^ f.fractionBits + (2 ^ f.fractionBits + 2 ^ f.fractionBits))
          = f.quanta ((s + 1 + 1) * 2 ^ f.fractionBits) := by congr 1; ring
        _ = 2 ^ f.fractionBits * 2 ^ (s + 1) := hcarry
        _ = (2 ^ f.fractionBits + 2 ^ f.fractionBits) * 2 ^ s := by rw [Nat.pow_succ]; ring

/-- **Magnitudes grow with their places.** -/
theorem quanta_strictMono : StrictMono f.quanta := by
  refine strictMono_nat_of_lt_succ fun k => ?_
  obtain ⟨s, c, hc, hs, rfl⟩ := exists_significand (f := f) k
  rw [Nat.add_assoc, quanta_significand (Nat.le_of_lt hc) hs,
    quanta_significand (by omega) (hs.imp_right fun h => by omega)]
  exact Nat.mul_lt_mul_of_pos_right (Nat.lt_succ_self c) (Nat.two_pow_pos s)

/-- The midpoint, doubled, of the magnitudes at a place and the next. -/
theorem quanta_add_quanta {s c : Nat} (hc : c < 2 * 2 ^ f.fractionBits)
    (hs : s = 0 ∨ 2 ^ f.fractionBits ≤ c) :
    f.quanta (s * 2 ^ f.fractionBits + c) + f.quanta (s * 2 ^ f.fractionBits + c + 1) =
      (2 * c + 1) * 2 ^ s := by
  rw [quanta_significand (Nat.le_of_lt hc) hs, Nat.add_assoc,
    quanta_significand (c := c + 1) hc (hs.imp_right Nat.le_succ_of_le)]
  ring

section
variable {num den k l : Nat}

/-- A quotient that reaches a magnitude is past the midpoints before it. -/
theorem midpoint_lt (hden : 0 < den) (hk : k < l) (h : f.quanta l * den ≤ num) :
    (f.quanta k + f.quanta (k + 1)) * den < 2 * num := by
  have hlt : f.quanta k < f.quanta (k + 1) := quanta_strictMono (Nat.lt_succ_self k)
  have hle : f.quanta (k + 1) ≤ f.quanta l := quanta_strictMono.monotone hk
  calc (f.quanta k + f.quanta (k + 1)) * den
      < 2 * f.quanta l * den := Nat.mul_lt_mul_of_pos_right (by omega) hden
    _ = 2 * (f.quanta l * den) := Nat.mul_assoc _ _ _
    _ ≤ 2 * num := Nat.mul_le_mul_left 2 h

/-- A quotient below a magnitude is before the midpoints past it. -/
theorem lt_midpoint (hk : l ≤ k) (h : num < f.quanta l * den) :
    2 * num < (f.quanta k + f.quanta (k + 1)) * den := by
  have hlt : f.quanta k < f.quanta (k + 1) := quanta_strictMono (Nat.lt_succ_self k)
  have hle : f.quanta l ≤ f.quanta k := quanta_strictMono.monotone hk
  calc 2 * num < 2 * (f.quanta l * den) := Nat.mul_lt_mul_of_pos_left h Nat.two_pos
    _ = 2 * f.quanta l * den := (Nat.mul_assoc _ _ _).symm
    _ ≤ (f.quanta k + f.quanta (k + 1)) * den := Nat.mul_le_mul_right den (by omega)

end

/-! ## Rounding to places -/

/-- What is rounded has a full significand, or is rounded without a shift. -/
theorem exists_nearestIndex (f : Format) (num : Nat) {den : Nat} (hden : 0 < den) :
    ∃ s, f.nearestIndex num den = s * 2 ^ f.fractionBits + roundHalfEven num (den * 2 ^ s) ∧
      num < 2 * 2 ^ f.fractionBits * (den * 2 ^ s) ∧
      (s = 0 ∨ 2 ^ f.fractionBits * (den * 2 ^ s) ≤ num) := by
  refine ⟨Nat.log2 (num / den) - f.fractionBits, rfl, ?_, ?_⟩
  · have hlog : num / den < 2 ^ (Nat.log2 (num / den) + 1) := Nat.lt_log2_self
    have hpow : 2 ^ (Nat.log2 (num / den) + 1) ≤
        2 * 2 ^ f.fractionBits * 2 ^ (Nat.log2 (num / den) - f.fractionBits) := by
      rw [← Nat.pow_succ', ← Nat.pow_add]
      exact Nat.pow_le_pow_right (by decide) (by omega)
    have hlt := (Nat.div_lt_iff_lt_mul hden).1 (Nat.lt_of_lt_of_le hlog hpow)
    rwa [Nat.mul_assoc, Nat.mul_comm _ den] at hlt
  · rcases Nat.lt_or_ge f.fractionBits (Nat.log2 (num / den)) with hgt | hle
    · right
      have h0 : num / den ≠ 0 := by
        intro h0
        rw [h0, Nat.log2_zero] at hgt
        exact Nat.not_lt_zero _ hgt
      have hlog : 2 ^ (f.fractionBits + (Nat.log2 (num / den) - f.fractionBits)) ≤ num / den := by
        rw [Nat.add_sub_cancel' (Nat.le_of_lt hgt)]
        exact Nat.log2_self_le h0
      rw [Nat.pow_add, Nat.le_div_iff_mul_le hden] at hlog
      rwa [Nat.mul_comm den, ← Nat.mul_assoc]
    · exact .inl (Nat.sub_eq_zero_of_le hle)

section
variable {num den k : Nat} (hf : 0 < f.fractionBits) (hden : 0 < den)
include hf hden

/-- With the shift of a place, the rule for places is that for integers. -/
theorem roundHalfEven_le_iff_midpoint {s c : Nat} (hc : c < 2 * 2 ^ f.fractionBits)
    (hs : s = 0 ∨ 2 ^ f.fractionBits ≤ c) (hk : k = s * 2 ^ f.fractionBits + c) :
    roundHalfEven num (den * 2 ^ s) ≤ c ↔
      2 * num < (f.quanta k + f.quanta (k + 1)) * den ∨
        2 * num = (f.quanta k + f.quanta (k + 1)) * den ∧ k % 2 = 0 := by
  have heven : 2 ∣ s * 2 ^ f.fractionBits :=
    Dvd.dvd.mul_left (dvd_pow_self 2 (Nat.ne_of_gt hf)) s
  have hparity : k % 2 = c % 2 := by omega
  have hmid : (f.quanta k + f.quanta (k + 1)) * den = (2 * c + 1) * (den * 2 ^ s) := by
    rw [hk, quanta_add_quanta hc hs, Nat.mul_assoc, Nat.mul_comm den]
  rw [roundHalfEven_le_iff (Nat.mul_pos hden (Nat.two_pow_pos s)), hmid, hparity]

/-- **Rounding is to the nearest place**, and from a midpoint to the even one: a
    quotient is rounded to a place up to `k` iff it is below the midpoint of the
    magnitudes at `k` and the next place, or at the midpoint and `k` is even. -/
theorem nearestIndex_le_iff : f.nearestIndex num den ≤ k ↔
    2 * num < (f.quanta k + f.quanta (k + 1)) * den ∨
      2 * num = (f.quanta k + f.quanta (k + 1)) * den ∧ k % 2 = 0 := by
  obtain ⟨s, hindex, hlt, hge⟩ := exists_nearestIndex f num hden
  rw [hindex]
  rcases Nat.lt_or_ge k (s * 2 ^ f.fractionBits + 2 * 2 ^ f.fractionBits) with hk | hk
  · by_cases hrun : s = 0 ∨ s * 2 ^ f.fractionBits + 2 ^ f.fractionBits ≤ k
    · -- the place has the shift that the quotient is rounded with
      have hle : s * 2 ^ f.fractionBits ≤ k := by
        rcases hrun with rfl | h
        · omega
        · exact Nat.le_of_add_right_le h
      obtain ⟨c, rfl⟩ := Nat.exists_eq_add_of_le hle
      rw [Nat.add_le_add_iff_left]
      exact roundHalfEven_le_iff_midpoint hf hden (Nat.lt_of_add_lt_add_left hk)
        (hrun.imp_right Nat.le_of_add_le_add_left) rfl
    · -- the place is before the run of the quotient
      obtain ⟨hs, hbefore⟩ := not_or.1 hrun
      have hge := hge.resolve_left hs
      have hround := le_roundHalfEven (Nat.mul_pos hden (Nat.two_pow_pos s)) hge
      have hmid : (f.quanta k + f.quanta (k + 1)) * den < 2 * num := by
        refine midpoint_lt hden (Nat.lt_of_not_le hbefore) ?_
        rwa [quanta_significand (by omega) (.inr (Nat.le_refl _)), Nat.mul_assoc,
          Nat.mul_comm _ den]
      omega
  · -- the place is past the run of the quotient
    have hround := roundHalfEven_le_of_lt hlt
    have hmid : 2 * num < (f.quanta k + f.quanta (k + 1)) * den := by
      refine lt_midpoint hk ?_
      rwa [quanta_significand (Nat.le_refl _) (.inr (by omega)), Nat.mul_assoc, Nat.mul_comm _ den]
    omega

/-- The quotient is at most the midpoint past its place. -/
theorem two_mul_le_of_nearestIndex_le (h : f.nearestIndex num den ≤ k) :
    2 * (num / den : ℚ) ≤ f.quanta k + f.quanta (k + 1) := by
  have hmid : 2 * num ≤ (f.quanta k + f.quanta (k + 1)) * den := by
    rcases (nearestIndex_le_iff hf hden).1 h with hlt | ⟨heq, -⟩
    · exact Nat.le_of_lt hlt
    · exact Nat.le_of_eq heq
  rw [← mul_div_assoc, div_le_iff₀ (by exact_mod_cast hden)]
  exact_mod_cast hmid

/-- The quotient is at least the midpoints before its place. -/
theorem le_two_mul_of_lt_nearestIndex (h : k < f.nearestIndex num den) :
    (f.quanta k + f.quanta (k + 1) : ℚ) ≤ 2 * (num / den) := by
  have hmid : (f.quanta k + f.quanta (k + 1)) * den ≤ 2 * num := by
    have h := mt (nearestIndex_le_iff hf hden).2 (Nat.not_le_of_lt h)
    exact Nat.le_of_not_lt (not_or.1 h).1
  rw [← mul_div_assoc, le_div_iff₀ (by exact_mod_cast hden)]
  exact_mod_cast hmid

/-- No magnitude is nearer to a quotient than the one that it is rounded to. -/
theorem quanta_nearestIndex_nearest (j : Nat) :
    |(f.quanta (f.nearestIndex num den) - num / den : ℚ)| ≤ |(f.quanta j - num / den : ℚ)| := by
  have hmono : ∀ {i k : Nat}, i ≤ k → (f.quanta i : ℚ) ≤ f.quanta k := fun h => by
    exact_mod_cast quanta_strictMono.monotone h
  rcases Nat.lt_trichotomy j (f.nearestIndex num den) with hj | rfl | hj
  · have hmid := le_two_mul_of_lt_nearestIndex hf hden (Nat.sub_one_lt (Nat.ne_zero_of_lt hj))
    rw [Nat.sub_add_cancel (Nat.zero_lt_of_lt hj)] at hmid
    have hle := hmono (Nat.le_sub_one_of_lt hj)
    have hle' := hmono (Nat.le_of_lt hj)
    rw [abs_sub_comm (f.quanta j : ℚ)]
    exact le_trans (abs_le.2 ⟨by linarith, by linarith⟩) (le_abs_self _)
  · exact le_refl _
  · have hmid := two_mul_le_of_nearestIndex_le hf hden (Nat.le_refl (f.nearestIndex num den))
    have hle := hmono (Nat.succ_le_of_lt hj)
    have hle' := hmono (Nat.le_of_lt hj)
    exact le_trans (abs_le.2 ⟨by linarith, by linarith⟩) (le_abs_self _)

end

/-- The place before infinity is odd, so that its midpoint belongs to infinity. -/
theorem nearestIndex_lt_infinityIndex {num den : Nat} (he : 0 < f.exponentBits)
    (hf : 0 < f.fractionBits) (hden : 0 < den) :
    f.nearestIndex num den < f.infinityIndex ↔
      2 * num < (f.quanta (f.infinityIndex - 1) + f.quanta f.infinityIndex) * den := by
  have htop : 0 < f.topExponent := Nat.sub_pos_of_lt (Nat.one_lt_two_pow (Nat.ne_of_gt he))
  have hpos : 0 < f.infinityIndex := Nat.mul_pos htop (Nat.two_pow_pos _)
  have heven : 2 ∣ f.infinityIndex :=
    Dvd.dvd.mul_left (dvd_pow_self 2 (Nat.ne_of_gt hf)) f.topExponent
  have hodd : (f.infinityIndex - 1) % 2 ≠ 0 := by omega
  rw [← Nat.le_sub_one_iff_lt hpos, nearestIndex_le_iff hf hden, Nat.sub_add_cancel hpos]
  simp only [hodd, and_false, or_false]

end Format

/-! ## Values -/

namespace Binary

variable {f g : Format}

/-- The value of a finite number. -/
def value (x : Binary f) : ℚ := (if x.negative then -1 else 1) * (x.quanta / 2 ^ f.scale)

theorem abs_value (x : Binary f) : |x.value| = x.quanta / 2 ^ f.scale := by
  have hpos : (0 : ℚ) ≤ x.quanta / 2 ^ f.scale := by positivity
  unfold value
  split
  · rw [neg_one_mul, abs_neg, abs_of_nonneg hpos]
  · rw [one_mul, abs_of_nonneg hpos]

/-- A value is compared with an integer in quanta. -/
theorem abs_value_lt_iff {x : Binary f} {n : ℕ} : |x.value| < n ↔ x.quanta < n * 2 ^ f.scale := by
  rw [abs_value, div_lt_iff₀ (by positivity)]
  exact_mod_cast Iff.rfl

theorem isFinite_ofQuotient_iff {negative : Bool} {num den : Nat} (he : 0 < f.exponentBits)
    (hf : 0 < f.fractionBits) (hden : 0 < den) :
    (ofQuotient negative num den : Binary f).isFinite = true ↔
      2 * (num * 2 ^ f.scale) <
        (f.quanta (f.infinityIndex - 1) + f.quanta f.infinityIndex) * den := by
  rw [ofQuotient, isFinite_ofIndex_iff, Format.nearestIndex_lt_infinityIndex he hf hden]

/-- What a finite number is converted to has its sign. -/
theorem negative_convert {x : Binary f} (hx : x.isFinite = true) :
    (x.convert g).negative = x.negative := by
  rw [convert_of_isFinite hx]
  rfl

theorem quanta_convert {x : Binary f} (hx : x.isFinite = true)
    (hy : (x.convert g).isFinite = true) :
    (x.convert g).quanta = g.quanta (g.nearestIndex (x.quanta * 2 ^ g.scale) (2 ^ f.scale)) := by
  rw [convert_of_isFinite hx] at hy ⊢
  rw [quanta, ofQuotient, index_ofIndex (isFinite_ofIndex_iff.1 hy)]

/-- The distance of two magnitudes, in quanta of the latter. -/
theorem abs_value_sub_abs_value (x : Binary f) (y : Binary g) :
    |(|y.value| - |x.value|)| =
      |(y.quanta - (x.quanta * 2 ^ g.scale : ℕ) / (2 ^ f.scale : ℕ) : ℚ)| / 2 ^ g.scale := by
  have hpos : (0 : ℚ) < 2 ^ g.scale := by positivity
  rw [abs_value, abs_value, ← abs_of_pos hpos, ← abs_div, abs_of_pos hpos]
  congr 1
  push_cast
  field_simp

theorem abs_value_sub_value {x : Binary f} {y : Binary g} (h : y.negative = x.negative) :
    |y.value - x.value| = |(|y.value| - |x.value|)| := by
  rw [abs_value, abs_value, value, value, h]
  split_ifs
  · rw [neg_one_mul, neg_one_mul, ← neg_sub', abs_neg]
  · rw [one_mul, one_mul]

/-- **A number is converted to a nearest one**: none of the other format is nearer. -/
theorem value_convert_nearest {x : Binary f} (hg : 0 < g.fractionBits) (hx : x.isFinite = true)
    (hy : (x.convert g).isFinite = true) (z : Binary g) :
    |(x.convert g).value - x.value| ≤ |z.value - x.value| := by
  calc |(x.convert g).value - x.value|
      = |(|(x.convert g).value| - |x.value|)| := abs_value_sub_value (negative_convert hx)
    _ ≤ |(|z.value| - |x.value|)| := by
      rw [abs_value_sub_abs_value, abs_value_sub_abs_value, quanta_convert hx hy]
      exact div_le_div_of_nonneg_right
        (Format.quanta_nearestIndex_nearest hg (Nat.two_pow_pos _) z.index) (by positivity)
    _ ≤ |z.value - x.value| := abs_abs_sub_abs_le _ _

/-! ## Bit patterns -/

theorem index_ofBits (bits : Nat) :
    (ofBits f bits).index = bits % 2 ^ (f.exponentBits + f.fractionBits) := by
  show bits / 2 ^ f.fractionBits % 2 ^ f.exponentBits * 2 ^ f.fractionBits +
    bits % 2 ^ f.fractionBits = _
  rw [Nat.add_comm f.exponentBits, Nat.pow_add, Nat.mod_mul, Nat.mul_comm, Nat.add_comm]

/-- A bit pattern is that of its number. -/
theorem toBits_ofBits {bits : Nat} (h : bits < 2 * 2 ^ (f.exponentBits + f.fractionBits)) :
    (ofBits f bits).toBits = bits := by
  have hsign : bits / 2 ^ (f.exponentBits + f.fractionBits) < 2 :=
    Nat.div_lt_of_lt_mul (by rwa [Nat.mul_comm])
  have hparts := Nat.div_add_mod bits (2 ^ (f.exponentBits + f.fractionBits))
  rw [toBits, index_ofBits]
  show (if decide (bits / 2 ^ (f.exponentBits + f.fractionBits) % 2 = 1) = true then _ else 0) +
    _ = _
  generalize bits / 2 ^ (f.exponentBits + f.fractionBits) = sign at *
  obtain rfl | rfl : sign = 0 ∨ sign = 1 := by omega
  · rw [if_neg (by decide)]
    omega
  · rw [if_pos (by decide)]
    omega

end Binary

end WireForm
