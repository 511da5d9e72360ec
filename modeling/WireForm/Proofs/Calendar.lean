/-
  WireForm — days and dates.

  The calendar counts years from the first of March, so that a leap day is the
  last day of its year: a date is a year and a number of days after that first
  of March, and both the number of a day and the date of a day go over these
  two.

  * `Date.daysBeforeMarch`, `Date.ofMarch`: the days before a year that starts
    in March, and the date of a day of such a year;
  * `Date.isValid_ofDays`, `Date.toDays_ofDays`: the date of a day exists, and
    is that of no other day;
  * `Date.lt_toDays_sub`: how far apart dates of different years are.
-/
import Mathlib.Tactic.IntervalCases
import Mathlib.Tactic.SplitIfs
import WireForm.Timestamp.Calendar

namespace WireForm

namespace Date

variable {d d' : Date}

/-! ## Years and months -/

/-- The days before the first of March of a year, from that of year 0. -/
def daysBeforeMarch (year : Int) : Int := 365 * year + year / 4 - year / 100 + year / 400

/-- Eras of 400 years are all of one length. -/
theorem daysBeforeMarch_eq_era (year : Int) : daysBeforeMarch year =
    year / 400 * 146097 + (365 * (year % 400) + year % 400 / 4 - year % 400 / 100) := by
  unfold daysBeforeMarch
  omega

theorem isLeap_iff {year : Int} :
    isLeap year = true ↔ year % 4 = 0 ∧ (year % 100 ≠ 0 ∨ year % 400 = 0) := by
  simp [isLeap]

theorem daysBeforeMarch_sub_le {y y' : Int} (h : y ≤ y') :
    365 * (y' - y) ≤ daysBeforeMarch y' - daysBeforeMarch y := by
  unfold daysBeforeMarch
  omega

theorem daysInMonth_le (year : Int) (month : Nat) : daysInMonth year month ≤ 31 := by
  unfold daysInMonth
  split_ifs <;> decide

/-- Only February, the last month, depends on the year. -/
theorem daysBeforeMonth_succ {m : Nat} (hm : m < 11) (year : Int) : daysBeforeMonth (m + 1) =
    daysBeforeMonth m + daysInMonth year (if m < 10 then m + 3 else m - 9) := by
  interval_cases m <;> rfl

/-! ## The number of a day -/

theorem toDays_of_le (h : d.month ≤ 2) : d.toDays =
    daysBeforeMarch (d.year - 1) + (daysBeforeMonth (d.month + 9) + d.day - 1) - 719468 := by
  rw [daysBeforeMarch_eq_era]
  simp only [toDays, if_pos h]

theorem toDays_of_lt (h : 2 < d.month) : d.toDays =
    daysBeforeMarch d.year + (daysBeforeMonth (d.month - 3) + d.day - 1) - 719468 := by
  rw [daysBeforeMarch_eq_era]
  simp only [toDays, if_neg (Nat.not_le.2 h)]

/-! ## The date of a day -/

/-- The date of a day of the year that begins with the first of March. -/
def ofMarch (year : Int) (day : Nat) : Date :=
  let month := (5 * day + 2) / 153
  { year := if month < 10 then year else year + 1
    month := if month < 10 then month + 3 else month - 9
    day := day - daysBeforeMonth month + 1 }

/-- Periods of `len` days are peeled off, of which the last one, after `k`
    others, is a day longer. -/
theorem peel (len k : Nat) {r : Nat} (hlen : 0 < len) (hr : r ≤ len * (k + 1)) :
    min (r / len) k * len ≤ r ∧ r - min (r / len) k * len ≤ len ∧
      (r - min (r / len) k * len = len → min (r / len) k = k) := by
  have hdiv := Nat.div_add_mod' r len
  have hmod := Nat.mod_lt r hlen
  rcases Nat.le_total (r / len) k with h | h
  · rw [Nat.min_eq_left h]
    omega
  · rw [Nat.min_eq_right h]
    have hk : k * len ≤ r / len * len := Nat.mul_le_mul_right len h
    rw [Nat.mul_add, Nat.mul_comm len k] at hr
    omega

/-- Four years, 25 groups of which make a century, four of which make an era. -/
theorem daysBeforeMarch_parts (era : Int) {century group y : Nat} (hc : century ≤ 3)
    (hg : group ≤ 24) (hy : y ≤ 3) :
    daysBeforeMarch (era * 400 + century * 100 + group * 4 + y) =
      era * 146097 + century * 36524 + group * 1461 + y * 365 := by
  generalize hyear : era * 400 + century * 100 + group * 4 + y = year
  have h₄ : year / 4 = era * 100 + century * 25 + group := by omega
  have h₁₀₀ : year / 100 = era * 4 + century := by omega
  have h₄₀₀ : year / 400 = era := by omega
  rw [daysBeforeMarch, h₄, h₁₀₀, h₄₀₀, ← hyear]
  omega

/-- The date of a day is found from the year that begins in March and the day of
    that year. -/
theorem exists_ofMarch (n : Int) : ∃ (year : Int) (day : Nat),
    n + 719468 = daysBeforeMarch year + day ∧ day ≤ 365 ∧
      (day = 365 → isLeap (year + 1) = true) ∧ ofDays n = ofMarch year day := by
  unfold ofDays
  dsimp only
  generalize hera : (n + 719468) / 146097 = era
  generalize hr : ((n + 719468) % 146097).toNat = r
  obtain ⟨hc, hr₁, hlast₁⟩ := peel 36524 3 (by decide) (show r ≤ _ by omega)
  have hc₃ := Nat.min_le_right (r / 36524) 3
  generalize min (r / 36524) 3 = century at *
  generalize h₁ : r - century * 36524 = r₁ at *
  have hg := Nat.div_add_mod' r₁ 1461
  have hr₂ := Nat.mod_lt r₁ (show 0 < 1461 by decide)
  generalize r₁ / 1461 = group at *
  generalize h₂ : r₁ - group * 1461 = r₂ at *
  obtain ⟨hy, hr₃, hlast₃⟩ := peel 365 3 (by decide) (show r₂ ≤ _ by omega)
  have hy₃ := Nat.min_le_right (r₂ / 365) 3
  generalize min (r₂ / 365) 3 = y at *
  generalize h₃ : r₂ - y * 365 = day at *
  refine ⟨era * 400 + century * 100 + group * 4 + y, day, ?_, hr₃, fun hday => ?_, rfl⟩
  · rw [daysBeforeMarch_parts era hc₃ (by omega) hy₃]
    omega
  · rw [isLeap_iff]
    omega

/-- The month of a day is the one that the day lies in. -/
theorem daysBeforeMonth_le_lt {day : Nat} (h : day ≤ 365) :
    (5 * day + 2) / 153 ≤ 11 ∧ daysBeforeMonth ((5 * day + 2) / 153) ≤ day ∧
      day < daysBeforeMonth ((5 * day + 2) / 153 + 1) := by
  unfold daysBeforeMonth
  omega

theorem isValid_ofMarch {year : Int} {day : Nat} (h : day ≤ 365)
    (hlast : day = 365 → isLeap (year + 1) = true) : (ofMarch year day).IsValid := by
  obtain ⟨hm, hle, hlt⟩ := daysBeforeMonth_le_lt h
  unfold ofMarch
  dsimp only
  generalize (5 * day + 2) / 153 = m at *
  rcases Nat.lt_or_ge m 11 with hm₁₁ | hm₁₁
  · have hs := daysBeforeMonth_succ hm₁₁ (if m < 10 then year else year + 1)
    refine ⟨?_, ?_, ?_, ?_⟩ <;> dsimp only
    · split <;> omega
    · split <;> omega
    · omega
    · omega
  · -- the last month is February
    obtain rfl : m = 11 := by omega
    have h₁₁ : daysBeforeMonth 11 = 337 := rfl
    rw [h₁₁] at hle ⊢
    show 1 ≤ 2 ∧ 2 ≤ 12 ∧ 1 ≤ day - 337 + 1 ∧
      day - 337 + 1 ≤ if isLeap (year + 1) then 29 else 28
    refine ⟨by decide, by decide, Nat.le_add_left _ _, ?_⟩
    split
    · omega
    · next hleap =>
      have hday : day ≠ 365 := fun hday => hleap (hlast hday)
      omega

theorem toDays_ofMarch {day : Nat} (year : Int) (h : day ≤ 365) :
    (ofMarch year day).toDays = daysBeforeMarch year + day - 719468 := by
  obtain ⟨hm, hle, -⟩ := daysBeforeMonth_le_lt h
  unfold ofMarch
  dsimp only
  generalize (5 * day + 2) / 153 = m at *
  by_cases hm₁₀ : m < 10
  · rw [if_pos hm₁₀, if_pos hm₁₀, toDays_of_lt (show 2 < m + 3 by omega)]
    simp only [Nat.add_sub_cancel]
    omega
  · rw [if_neg hm₁₀, if_neg hm₁₀, toDays_of_le (show m - 9 ≤ 2 by omega)]
    simp only [Nat.sub_add_cancel (show 9 ≤ m by omega), Int.add_sub_cancel]
    omega

/-- The date of a day exists. -/
theorem isValid_ofDays (n : Int) : (ofDays n).IsValid := by
  obtain ⟨year, day, -, hle, hlast, h⟩ := exists_ofMarch n
  rw [h]
  exact isValid_ofMarch hle hlast

/-- **The date of a day is the date of that day.** -/
theorem toDays_ofDays (n : Int) : (ofDays n).toDays = n := by
  obtain ⟨year, day, hn, hle, -, h⟩ := exists_ofMarch n
  rw [h, toDays_ofMarch year hle, ← hn]
  omega

/-! ## Distances -/

/-- The days of a year, from the first of January. -/
theorem toDays_bounds (h : d.IsValid) : daysBeforeMarch (d.year - 1) + 306 ≤ d.toDays + 719468 ∧
    d.toDays + 719468 < daysBeforeMarch d.year + 306 := by
  obtain ⟨hm, hm', hd, hd'⟩ := h
  have hyear := daysBeforeMarch_sub_le (show d.year - 1 ≤ d.year by omega)
  by_cases hle : d.month ≤ 2
  · rw [toDays_of_le hle]
    have hday := Nat.le_trans hd' (daysInMonth_le d.year d.month)
    unfold daysBeforeMonth
    omega
  · rw [toDays_of_lt (by omega)]
    have hs := daysBeforeMonth_succ (m := d.month - 3) (by omega) d.year
    rw [if_pos (by omega), Nat.sub_add_cancel (by omega)] at hs
    unfold daysBeforeMonth at hs ⊢
    omega

/-- Whole years lie between dates of different years. -/
theorem lt_toDays_sub (h : d.IsValid) (h' : d'.IsValid) (hlt : d.year < d'.year) :
    365 * (d'.year - d.year - 1) < d'.toDays - d.toDays := by
  have hy := daysBeforeMarch_sub_le (show d.year ≤ d'.year - 1 by omega)
  have hd := (toDays_bounds h).2
  have hd' := (toDays_bounds h').1
  omega

end Date

end WireForm
