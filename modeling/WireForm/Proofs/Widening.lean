/-
  WireForm — rounding that changes nothing.

  A quotient that is a magnitude of the format is rounded to that magnitude.
  The magnitudes of 32 bits are among those of 64 bits, so that widening is
  exact and narrowing takes it back.

  * `Format.nearestIndex_quanta`: a magnitude is rounded to its place;
  * `Format.exists_quanta_eq`, `Format.quanta_eq_mul`: the magnitudes are the
    significands, shifted;
  * `Binary.quanta_widen`: widening is exact;
  * **`Binary.narrow_widen`**: narrowing takes it back, to the sign of a zero.
-/
import WireForm.Proofs.Finite

namespace WireForm

/-! ## Magnitudes -/

theorem roundHalfEven_mul {den : Nat} (q : Nat) (hden : 0 < den) :
    roundHalfEven (q * den) den = q := by
  unfold roundHalfEven
  dsimp only
  rw [Nat.mul_mod_left, Nat.mul_div_cancel q hden, Nat.mul_zero, if_pos hden]

namespace Format

variable {f : Format}

theorem infinityIndex_div : f.infinityIndex / 2 ^ f.fractionBits = f.topExponent :=
  Nat.mul_div_cancel _ (Nat.two_pow_pos _)

theorem quanta_of_lt {k : Nat} (hk : k < 2 ^ f.fractionBits) : f.quanta k = k :=
  if_pos (Nat.div_eq_of_lt hk)

/-- The magnitudes past the subnormal ones, by exponent and fraction. -/
theorem quanta_run {m : Nat} (e : Nat) (hm : m < 2 ^ f.fractionBits) :
    f.quanta ((e + 1) * 2 ^ f.fractionBits + m) = (2 ^ f.fractionBits + m) * 2 ^ e := by
  have hdiv : ((e + 1) * 2 ^ f.fractionBits + m) / 2 ^ f.fractionBits = e + 1 := by
    rw [Nat.mul_comm, Nat.mul_add_div (Nat.two_pow_pos _), Nat.div_eq_of_lt hm, Nat.add_zero]
  have hmod : ((e + 1) * 2 ^ f.fractionBits + m) % 2 ^ f.fractionBits = m := by
    rw [Nat.mul_comm, Nat.mul_add_mod, Nat.mod_eq_of_lt hm]
  rw [quanta, hdiv, hmod, if_neg (Nat.succ_ne_zero e), Nat.add_sub_cancel]

/-- Each place is a subnormal one or one of a run. -/
theorem lt_or_exists_run (k : Nat) : k < 2 ^ f.fractionBits ∨
    ∃ e m, m < 2 ^ f.fractionBits ∧ k = (e + 1) * 2 ^ f.fractionBits + m := by
  rcases Nat.lt_or_ge k (2 ^ f.fractionBits) with hk | hk
  · exact .inl hk
  · have hdiv : 0 < k / 2 ^ f.fractionBits := Nat.div_pos hk (Nat.two_pow_pos _)
    refine .inr ⟨k / 2 ^ f.fractionBits - 1, k % 2 ^ f.fractionBits,
      Nat.mod_lt _ (Nat.two_pow_pos _), ?_⟩
    rw [Nat.sub_add_cancel hdiv, Nat.mul_comm, Nat.div_add_mod]

/-- **A magnitude is rounded to its place.** -/
theorem nearestIndex_quanta {den : Nat} (k : Nat) (hden : 0 < den) :
    f.nearestIndex (f.quanta k * den) den = k := by
  unfold nearestIndex
  dsimp only
  rw [Nat.mul_div_cancel _ hden]
  rcases lt_or_exists_run (f := f) k with hk | ⟨e, m, hm, rfl⟩
  · rw [quanta_of_lt hk]
    have hlog : Nat.log2 k - f.fractionBits = 0 := by
      by_cases h0 : k = 0
      · simp [h0]
      · have := (Nat.log2_lt h0).2 hk
        omega
    rw [hlog, Nat.zero_mul, Nat.pow_zero, Nat.mul_one, roundHalfEven_mul k hden, Nat.zero_add]
  · rw [quanta_run e hm]
    have hlog : Nat.log2 ((2 ^ f.fractionBits + m) * 2 ^ e) = f.fractionBits + e := by
      have hpos : (2 ^ f.fractionBits + m) * 2 ^ e ≠ 0 :=
        Nat.ne_of_gt (Nat.mul_pos (Nat.add_pos_left (Nat.two_pow_pos _) m) (Nat.two_pow_pos e))
      rw [Nat.log2_eq_iff hpos, Nat.pow_add]
      refine ⟨Nat.mul_le_mul_right _ (Nat.le_add_right _ _), ?_⟩
      calc (2 ^ f.fractionBits + m) * 2 ^ e
          < (2 ^ f.fractionBits * 2) * 2 ^ e :=
            Nat.mul_lt_mul_of_pos_right (by omega) (Nat.two_pow_pos e)
        _ = 2 ^ (f.fractionBits + e + 1) := by
          rw [← Nat.pow_succ, ← Nat.pow_add, Nat.add_right_comm]
    rw [hlog, Nat.add_sub_cancel_left,
      show (2 ^ f.fractionBits + m) * 2 ^ e * den = (2 ^ f.fractionBits + m) * (den * 2 ^ e) by
        rw [Nat.mul_assoc, Nat.mul_comm (2 ^ e)],
      roundHalfEven_mul _ (Nat.mul_pos hden (Nat.two_pow_pos e)), Nat.add_mul, Nat.one_mul,
      Nat.add_assoc]

/-- A significand, shifted, is a magnitude. -/
theorem exists_quanta_eq {m : Nat} (e : Nat) (hm : m < 2 ^ (f.fractionBits + 1)) :
    ∃ k, f.quanta k = m * 2 ^ e := by
  induction e generalizing m with
  | zero =>
    rcases Nat.lt_or_ge m (2 ^ f.fractionBits) with h | h
    · exact ⟨m, by rw [quanta_of_lt h, Nat.pow_zero, Nat.mul_one]⟩
    · refine ⟨(0 + 1) * 2 ^ f.fractionBits + (m - 2 ^ f.fractionBits), ?_⟩
      rw [Nat.pow_succ] at hm
      rw [quanta_run 0 (by omega), Nat.add_sub_cancel' h]
  | succ e ih =>
    rcases Nat.lt_or_ge m (2 ^ f.fractionBits) with h | h
    · obtain ⟨k, hk⟩ := ih (m := 2 * m) (by rw [Nat.pow_succ]; omega)
      exact ⟨k, by rw [hk, Nat.mul_comm 2, Nat.mul_assoc, Nat.pow_succ']⟩
    · refine ⟨(e + 1 + 1) * 2 ^ f.fractionBits + (m - 2 ^ f.fractionBits), ?_⟩
      rw [Nat.pow_succ] at hm
      rw [quanta_run (e + 1) (by omega), Nat.add_sub_cancel' h]

/-- A magnitude is a significand, shifted. -/
theorem quanta_eq_mul (k : Nat) :
    ∃ m e, m < 2 ^ (f.fractionBits + 1) ∧ f.quanta k = m * 2 ^ e := by
  rw [Nat.pow_succ]
  rcases lt_or_exists_run (f := f) k with hk | ⟨e, m, hm, rfl⟩
  · exact ⟨k, 0, by omega, by rw [quanta_of_lt hk, Nat.pow_zero, Nat.mul_one]⟩
  · exact ⟨2 ^ f.fractionBits + m, e, by omega, quanta_run e hm⟩

/-- A significand, shifted, is rounded to itself. -/
theorem quanta_nearestIndex {m den : Nat} (e : Nat) (hm : m < 2 ^ (f.fractionBits + 1))
    (hden : 0 < den) : f.quanta (f.nearestIndex (m * 2 ^ e * den) den) = m * 2 ^ e := by
  obtain ⟨k, hk⟩ := exists_quanta_eq e hm
  rw [← hk, nearestIndex_quanta k hden]

end Format

/-! ## Numbers -/

namespace Binary

section
variable {f : Format}

theorem index_ofIndex {negative : Bool} {k : Nat} (hk : k < f.infinityIndex) :
    (ofIndex negative k : Binary f).index = k := by
  have hexp : k / 2 ^ f.fractionBits < 2 ^ f.exponentBits := by
    have htop : f.topExponent < 2 ^ f.exponentBits := Nat.sub_lt (Nat.two_pow_pos _) Nat.one_pos
    have hdiv : k / 2 ^ f.fractionBits < f.topExponent :=
      Nat.div_lt_of_lt_mul (by rwa [Nat.mul_comm])
    exact Nat.lt_trans hdiv htop
  rw [ofIndex, Nat.min_eq_left (Nat.le_of_lt hk)]
  show k / 2 ^ f.fractionBits % 2 ^ f.exponentBits * 2 ^ f.fractionBits + k % 2 ^ f.fractionBits = k
  rw [Nat.mod_eq_of_lt hexp, Nat.mul_comm, Nat.div_add_mod]

/-- A number is told by its sign and its place. -/
theorem ext_index {x y : Binary f} (hsign : x.negative = y.negative) (hindex : x.index = y.index) :
    x = y := by
  obtain ⟨s, e, m⟩ := x
  obtain ⟨s', e', m'⟩ := y
  have hm : m.val = m'.val := by
    have h := congrArg (· % 2 ^ f.fractionBits) hindex
    simpa [index, Nat.mul_add_mod', Nat.mod_eq_of_lt m.isLt, Nat.mod_eq_of_lt m'.isLt] using h
  have he : e.val = e'.val := by
    have h : e.val * 2 ^ f.fractionBits + m.val = e'.val * 2 ^ f.fractionBits + m'.val := hindex
    rw [hm] at h
    exact Nat.eq_of_mul_eq_mul_right (Nat.two_pow_pos _) (Nat.add_right_cancel h)
  obtain rfl : s = s' := hsign
  obtain rfl := Fin.ext he
  obtain rfl := Fin.ext hm
  rfl

theorem ofIndex_index {x : Binary f} (hx : x.isFinite = true) :
    ofIndex x.negative x.index = x :=
  ext_index rfl (index_ofIndex (index_lt_of_isFinite hx))

theorem isFinite_ofIndex_iff {negative : Bool} {k : Nat} :
    (ofIndex negative k : Binary f).isFinite = true ↔ k < f.infinityIndex := by
  refine ⟨fun h => Nat.lt_of_not_le fun hk => ?_, isFinite_ofIndex⟩
  rw [isFinite, bne_iff_ne, ofIndex, Nat.min_eq_right hk] at h
  have htop : f.topExponent < 2 ^ f.exponentBits := Nat.sub_lt (Nat.two_pow_pos _) Nat.one_pos
  refine h ?_
  show f.infinityIndex / 2 ^ f.fractionBits % 2 ^ f.exponentBits = f.topExponent
  rw [Format.infinityIndex_div, Nat.mod_eq_of_lt htop]

theorem convert_of_isFinite {g : Format} {x : Binary f} (hx : x.isFinite = true) :
    x.convert g = ofQuotient x.negative x.quanta (2 ^ f.scale) := by
  have hnan : x.isNaN = false := by rw [isNaN, hx]; rfl
  rw [convert, hnan, hx]
  rfl

end

/-! ## From 32 to 64 bits and back -/

variable {x : Binary32}

/-- The quantum of 32 bits is `2 ^ 925` quanta of 64 bits. -/
theorem scale_double_eq : Format.double.scale = 925 + Format.single.scale := by decide

/-- Widening is exact. -/
theorem quanta_widen (hx : x.isFinite = true) :
    (x.convert .double).quanta = x.quanta * 2 ^ 925 := by
  have hfinite := isFinite_convert_of_isFinite hx
  rw [convert_of_isFinite hx] at hfinite ⊢
  obtain ⟨m, e, hm, hquanta⟩ : ∃ m e, m < 2 ^ (Format.single.fractionBits + 1) ∧
      x.quanta = m * 2 ^ e := Format.quanta_eq_mul x.index
  have hm : m < 2 ^ (Format.double.fractionBits + 1) :=
    Nat.lt_of_lt_of_le hm (Nat.pow_le_pow_right (by decide) (by decide))
  have hnum : x.quanta * 2 ^ Format.double.scale =
      m * 2 ^ (e + 925) * 2 ^ Format.single.scale := by
    rw [hquanta, scale_double_eq, Nat.pow_add, Nat.pow_add, Nat.mul_assoc, Nat.mul_assoc,
      Nat.mul_assoc]
  rw [quanta, ofQuotient, index_ofIndex (isFinite_ofIndex_iff.1 hfinite), hnum,
    Format.quanta_nearestIndex (e + 925) hm (Nat.two_pow_pos _), hquanta, Nat.pow_add,
    Nat.mul_assoc]

/-- **Narrowing takes widening back.** -/
theorem narrow_widen (hx : x.isFinite = true) : (x.convert .double).convert .single = x := by
  have hsign : (x.convert .double).negative = x.negative := by
    rw [convert_of_isFinite hx]
    rfl
  have hnum : x.quanta * 2 ^ 925 * 2 ^ Format.single.scale =
      Format.single.quanta x.index * 2 ^ Format.double.scale := by
    rw [scale_double_eq, Nat.pow_add, Nat.mul_assoc]
    rfl
  rw [convert_of_isFinite (isFinite_convert_of_isFinite hx), quanta_widen hx, hsign, ofQuotient,
    hnum, Format.nearestIndex_quanta _ (Nat.two_pow_pos _), ofIndex_index hx]

end Binary

end WireForm
