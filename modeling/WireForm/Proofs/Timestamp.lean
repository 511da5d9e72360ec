/-
  WireForm — timestamps, written and read.

  The text of a timestamp has four digits for the year and no sign, unless the
  year does not fit; it is read exactly then.  A text may hold any year of four
  digits with an offset of less than a day, so that the year in UTC can be one
  off.

  * `Timestamp.parse_render`: the text of a timestamp is read as it was, if its
    year has four digits, and `Timestamp.parse_render_of_year`: if not, it is
    refused at the sign;
  * `Timestamp.year_of_parse`: the years of the timestamps that are read;
  * `Leaf.datetime_returns_iff`: all together, for leaves.
-/
import WireForm.Leaf
import WireForm.Proofs.Bytes
import WireForm.Proofs.Calendar
import WireForm.Proofs.Leaf

namespace WireForm

namespace Timestamp

/-! ## The parts -/

section
variable {y₁ y₂ y₃ y₄ m₁ m₂ d₁ d₂ : UInt8} {w n year month day : Nat} {ds : List UInt8}

theorem parseDate_of_numerals (hy : Numeral 4 year [y₁, y₂, y₃, y₄])
    (hm : Numeral 2 month [m₁, m₂]) (hd : Numeral 2 day [d₁, d₂])
    (hv : Date.IsValid ⟨year, month, day⟩) :
    parseDate y₁ y₂ y₃ y₄ 45 m₁ m₂ 45 d₁ d₂ = .ok ⟨year, month, day⟩ := by
  obtain ⟨hc, hy⟩ := hy.halves
  have hyear : ((year / 100 : Nat) : Int) * 100 + (year % 100 : Nat) = year := by omega
  rw [parseDate, twoDigits_of_numeral hc, twoDigits_of_numeral hy, twoDigits_of_numeral hm,
    twoDigits_of_numeral hd]
  simp only [bind, Except.bind, expect, if_true, hyear]
  exact if_pos hv

/-- Up to nine digits of a fraction are read to the last. -/
theorem parseFraction_numeral (h : Numeral w n ds) (hw : 0 < w) (hw₉ : w ≤ 9) :
    parseFraction (46 :: (ds ++ [90])) = .ok (n * 10 ^ (9 - w), [90]) := by
  have h90 : isDigit 90 = false := rfl
  have htake : ((ds ++ [90]).takeWhile isDigit).take 9 = ds := by
    rw [h.takeWhile_append h90, List.take_of_length_le (by rw [h.length]; exact hw₉)]
  have hne : ds ≠ [] := List.ne_nil_of_length_pos (by rw [h.length]; exact hw)
  have hdrop : (ds ++ [90]).dropWhile isDigit = [90] := h.dropWhile_append h90
  obtain ⟨d, ds, rfl⟩ := List.exists_cons_of_ne_nil hne
  rw [List.cons_append] at htake hdrop ⊢
  simp only [parseFraction, htake, hdrop, h.value, h.length, List.isEmpty_cons,
    Bool.false_eq_true, if_false]

theorem parseFraction_padded (hw : 0 < w) (hw₉ : w ≤ 9) (hn : n < 10 ^ w) :
    parseFraction (bytes ('.' :: padded w n) ++ [90]) = .ok (n * 10 ^ (9 - w), [90]) := by
  have hdot : String.utf8EncodeChar '.' = [46] := rfl
  rw [bytes_cons, hdot]
  exact parseFraction_numeral (numeral_padded hw hn) hw hw₉

/-- The fraction is read as the nanoseconds that it was written for. -/
theorem parseFraction_fractionText (hn : n < 1000000000) :
    parseFraction (bytes (fractionText n) ++ [90]) = .ok (n, [90]) := by
  unfold fractionText
  split_ifs with h₀ h₃ h₆
  · subst h₀; rfl
  · have hback : n / 1000000 * 10 ^ (9 - 3) = n := by omega
    rw [parseFraction_padded (by decide) (by decide) (by omega), hback]
  · have hback : n / 1000 * 10 ^ (9 - 6) = n := by omega
    rw [parseFraction_padded (by decide) (by decide) (by omega), hback]
  · have hback : n * 10 ^ (9 - 9) = n := by omega
    rw [parseFraction_padded (by decide) (by decide) (by omega), hback]

end

/-! ## The whole -/

section
variable {y₁ y₂ y₃ y₄ m₁ m₂ d₁ d₂ h₁ h₂ i₁ i₂ e₁ e₂ : UInt8} {rest : List UInt8}
  {year month day hour minute second nanos : Nat}

theorem parseBytes_of_numerals (hy : Numeral 4 year [y₁, y₂, y₃, y₄])
    (hm : Numeral 2 month [m₁, m₂]) (hd : Numeral 2 day [d₁, d₂])
    (hv : Date.IsValid ⟨year, month, day⟩) (hh : Numeral 2 hour [h₁, h₂])
    (hi : Numeral 2 minute [i₁, i₂]) (he : Numeral 2 second [e₁, e₂])
    (hf : parseFraction rest = .ok (nanos, [90]))
    (hb : hour < 24 ∧ minute < 60 ∧ second ≤ 60 ∧ nanos < 1000000000) :
    parseBytes (y₁ :: y₂ :: y₃ :: y₄ :: 45 :: m₁ :: m₂ :: 45 :: d₁ :: d₂ :: 84 :: h₁ :: h₂ :: 58 ::
      i₁ :: i₂ :: 58 :: e₁ :: e₂ :: rest) =
      .ok (ofParts ⟨year, month, day⟩ hour minute second nanos 0 hb.2.2.2) := by
  rw [parseBytes, parseDate_of_numerals hy hm hd hv]
  simp only [bind, Except.bind, expect, if_true, twoDigits_of_numeral hh,
    twoDigits_of_numeral hi, twoDigits_of_numeral he, hf]
  rw [dif_pos hb]
  rfl

end

variable {t : Timestamp} {s : String}

theorem secondOfDay_lt (t : Timestamp) : t.secondOfDay < 86400 := by
  unfold secondOfDay
  omega

/-- The parts of a timestamp are those that are written. -/
theorem ofParts_self (t : Timestamp) (hn : t.subsecond < 1000000000) :
    ofParts t.date (t.secondOfDay / 3600) (t.secondOfDay / 60 % 60) t.secondOfMinute t.subsecond 0
      hn = t := by
  have hdays : t.date.toDays = t.seconds / 86400 := Date.toDays_ofDays _
  obtain ⟨seconds, nanos, valid⟩ := t
  simp only [ofParts, mk.injEq, hdays, secondOfMinute, subsecond, secondOfDay]
  constructor
  · split <;> split <;> omega
  · split <;> split <;> omega

theorem secondOfMinute_le (t : Timestamp) : t.secondOfMinute ≤ 60 := by
  unfold secondOfMinute
  split <;> omega

/-- **A timestamp is read from its text** if its year has four digits. -/
theorem parse_render (h : 0 ≤ t.date.year ∧ t.date.year ≤ 9999) : parse t.render = .ok t := by
  have hv : t.date.IsValid := Date.isValid_ofDays t.days
  have hday := Nat.le_trans hv.2.2.2 (Date.daysInMonth_le _ _)
  have hmonth := hv.2.1
  have hclock := t.secondOfDay_lt
  have hsec := t.secondOfMinute_le
  have hsub : t.subsecond < 1000000000 := Nat.mod_lt _ (by decide)
  obtain ⟨y₁, y₂, y₃, y₄, hyb, hy⟩ := exists_fourDigits (n := t.date.year.toNat) (by omega)
  obtain ⟨m₁, m₂, hmb, hm⟩ := exists_twoDigits (n := t.date.month) (by omega)
  obtain ⟨d₁, d₂, hdb, hd⟩ := exists_twoDigits (n := t.date.day) (by omega)
  obtain ⟨h₁, h₂, hhb, hh⟩ := exists_twoDigits (n := t.secondOfDay / 3600) (by omega)
  obtain ⟨i₁, i₂, hib, hi⟩ := exists_twoDigits (n := t.secondOfDay / 60 % 60) (by omega)
  obtain ⟨e₁, e₂, heb, he⟩ := exists_twoDigits (n := t.secondOfMinute) (by omega)
  have hyear : (⟨(t.date.year.toNat : Int), t.date.month, t.date.day⟩ : Date) = t.date := by
    rw [Int.toNat_of_nonneg h.1]
  have hv' : Date.IsValid ⟨(t.date.year.toNat : Int), t.date.month, t.date.day⟩ := by
    rw [hyear]
    exact hv
  have hparse := parseBytes_of_numerals hy hm hd hv' hh hi he
    (parseFraction_fractionText hsub) ⟨by omega, by omega, hsec, hsub⟩
  simp only [hyear, t.ofParts_self hsub] at hparse
  have hbytes : bytes t.chars = y₁ :: y₂ :: y₃ :: y₄ :: 45 :: m₁ :: m₂ :: 45 :: d₁ :: d₂ :: 84 ::
      h₁ :: h₂ :: 58 :: i₁ :: i₂ :: 58 :: e₁ :: e₂ :: (bytes (fractionText t.subsecond) ++ [90]) := by
    rw [chars, yearText, if_pos h]
    simp only [bytes_append, bytes_cons, hyb, hmb, hdb, hhb, hib, heb, List.append_assoc]
    rfl
  rw [parse, render, toList_toUTF8_ofList, hbytes, hparse]

/-! ## Years that do not fit -/

/-- A text must begin with a digit. -/
theorem parseBytes_of_not_digit {c : UInt8} {s : List UInt8} (hc : isDigit c = false)
    (hs : 18 ≤ s.length) : parseBytes (c :: s) = .error .invalid := by
  have hdigit : digit c = .error .invalid := if_neg (by rw [hc]; decide)
  -- the text is long enough for a date and a time of day
  iterate 18
    obtain _ | ⟨b, s⟩ := s
    · simp at hs
  rw [parseBytes, parseDate, twoDigits, hdigit]
  rfl

/-- A date without its year and a time of day are at least 16 characters. -/
theorem le_length_of_fields (month day hour minute second : Nat) (fraction : List Char) :
    16 ≤ ('-' :: padded 2 month ++ '-' :: padded 2 day ++ 'T' :: padded 2 hour ++
      ':' :: padded 2 minute ++ ':' :: padded 2 second ++ fraction ++ ['Z']).length := by
  have htwo := length_le_length_padded 2
  have hmonth := htwo month
  have hday := htwo day
  have hhour := htwo hour
  have hminute := htwo minute
  have hsecond := htwo second
  simp only [List.length_append, List.length_cons]
  omega

/-- The year is written first. -/
theorem exists_chars (t : Timestamp) :
    ∃ cs, t.chars = yearText t.date.year ++ cs ∧ 16 ≤ cs.length := by
  refine ⟨_, ?_, le_length_of_fields t.date.month t.date.day (t.secondOfDay / 3600)
    (t.secondOfDay / 60 % 60) t.secondOfMinute (fractionText t.subsecond)⟩
  simp only [chars, List.append_assoc]

/-- A year that does not have four digits is written with a sign. -/
theorem exists_yearText {year : Int} (h : ¬ (0 ≤ year ∧ year ≤ 9999)) : ∃ c cs,
    yearText year = c :: cs ∧ (c = '-' ∨ c = '+') ∧ 4 ≤ cs.length := by
  refine ⟨_, _, if_neg h, ?_, length_le_length_padded 4 year.natAbs⟩
  split
  · exact Or.inl rfl
  · exact Or.inr rfl

/-- **A text with a sign is refused**, and so the text of a timestamp is if its year
    does not have four digits. -/
theorem parse_render_of_year (h : ¬ (0 ≤ t.date.year ∧ t.date.year ≤ 9999)) :
    parse t.render = .error .invalid := by
  obtain ⟨rest, hchars, hrest⟩ := t.exists_chars
  obtain ⟨c, digits, hyear, hc, hdigits⟩ := exists_yearText h
  rw [hyear, List.cons_append] at hchars
  rw [parse, render, toList_toUTF8_ofList, hchars, bytes_cons]
  have hlen : 18 ≤ (bytes (digits ++ rest)).length := by
    have hbytes := length_le_length_bytes (digits ++ rest)
    rw [List.length_append] at hbytes
    omega
  rcases hc with rfl | rfl
  · exact parseBytes_of_not_digit rfl hlen
  · exact parseBytes_of_not_digit rfl hlen

/-! ## Years that are read -/

section
variable {a b y₁ y₂ y₃ y₄ s₁ m₁ m₂ s₂ d₁ d₂ : UInt8} {n : Nat} {date : Date}

theorem digit_lt (h : digit a = .ok n) : n < 10 := by
  unfold digit at h
  split at h
  · next ha =>
    simp only [isDigit, Bool.and_eq_true, decide_eq_true_eq] at ha
    cases h
    omega
  · cases h

theorem twoDigits_lt (h : twoDigits a b = .ok n) : n < 100 := by
  obtain ⟨tens, ht, h⟩ := Except.bind_eq_ok.1 h
  obtain ⟨ones, ho, h⟩ := Except.bind_eq_ok.1 h
  cases h
  have htens := digit_lt ht
  have hones := digit_lt ho
  omega

/-- A date that is read exists, in a year of four digits. -/
theorem year_of_parseDate (h : parseDate y₁ y₂ y₃ y₄ s₁ m₁ m₂ s₂ d₁ d₂ = .ok date) :
    date.IsValid ∧ 0 ≤ date.year ∧ date.year ≤ 9999 := by
  obtain ⟨century, hc, h⟩ := Except.bind_eq_ok.1 h
  obtain ⟨year, hy, h⟩ := Except.bind_eq_ok.1 h
  obtain ⟨-, -, h⟩ := Except.bind_eq_ok.1 h
  obtain ⟨month, -, h⟩ := Except.bind_eq_ok.1 h
  obtain ⟨-, -, h⟩ := Except.bind_eq_ok.1 h
  obtain ⟨day, -, h⟩ := Except.bind_eq_ok.1 h
  have hcentury := twoDigits_lt hc
  have hyear := twoDigits_lt hy
  dsimp only at h
  split at h
  · next hv =>
    cases h
    refine ⟨hv, ?_, ?_⟩ <;> dsimp only <;> omega
  · cases h

end

/-- A timestamp that is read is that of a date of four digits, a time of day and
    an offset of less than a day. -/
theorem exists_ofParts_of_parseBytes {bs : List UInt8} (h : parseBytes bs = .ok t) :
    ∃ (date : Date) (hour minute second nanos : Nat) (offset : Int) (hn : nanos < 1000000000),
      (date.IsValid ∧ 0 ≤ date.year ∧ date.year ≤ 9999) ∧
      (hour < 24 ∧ minute < 60 ∧ second ≤ 60) ∧ offset.natAbs < 24 * 60 ∧
      t = ofParts date hour minute second nanos offset hn := by
  unfold parseBytes at h
  split at h
  · obtain ⟨date, hdate, h⟩ := Except.bind_eq_ok.1 h
    split at h
    · cases h
    obtain ⟨hour, -, h⟩ := Except.bind_eq_ok.1 h
    obtain ⟨-, -, h⟩ := Except.bind_eq_ok.1 h
    obtain ⟨minute, -, h⟩ := Except.bind_eq_ok.1 h
    obtain ⟨-, -, h⟩ := Except.bind_eq_ok.1 h
    obtain ⟨second, -, h⟩ := Except.bind_eq_ok.1 h
    obtain ⟨⟨nanos, rest⟩, -, h⟩ := Except.bind_eq_ok.1 h
    dsimp only at h
    split at h
    · next hclock =>
      obtain ⟨⟨offset, rest⟩, -, h⟩ := Except.bind_eq_ok.1 h
      dsimp only at h
      split at h
      · cases h
      split at h
      · next hoffset =>
        cases h
        exact ⟨date, hour, minute, second, nanos, offset, hclock.2.2.2, year_of_parseDate hdate,
          ⟨hclock.1, hclock.2.1, hclock.2.2.1⟩, hoffset, rfl⟩
      · cases h
    · cases h
  · cases h

/-- The offset moves the date by no more than a day. -/
theorem days_ofParts (date : Date) {hour minute second nanos : Nat} {offset : Int}
    (hn : nanos < 1000000000) (hclock : hour < 24 ∧ minute < 60 ∧ second ≤ 60)
    (hoffset : offset.natAbs < 24 * 60) :
    let t := ofParts date hour minute second nanos offset hn
    date.toDays - 1 ≤ t.days ∧ t.days ≤ date.toDays + 1 := by
  simp only [days, ofParts]
  split <;> omega

/-- **The years that are read** are those of four digits, and one more at each
    end that only an offset leads to. -/
theorem year_of_parse (h : parse s = .ok t) : -1 ≤ t.date.year ∧ t.date.year ≤ 10000 := by
  obtain ⟨date, hour, minute, second, nanos, offset, hn, ⟨hvalid, hyear⟩, hclock, hoffset, rfl⟩ :=
    exists_ofParts_of_parseBytes h
  have hdays := days_ofParts date hn hclock hoffset
  dsimp only at hdays
  generalize ofParts date hour minute second nanos offset hn = t at *
  have htoDays : t.date.toDays = t.days := Date.toDays_ofDays t.days
  have hvalid' : t.date.IsValid := Date.isValid_ofDays t.days
  constructor
  · by_contra hlt
    have hsub := Date.lt_toDays_sub hvalid' hvalid (by omega)
    omega
  · by_contra hlt
    have hsub := Date.lt_toDays_sub hvalid hvalid' (by omega)
    omega

end Timestamp

/-! ## Leaves -/

namespace Leaf

theorem decode_datetime (s : String) : (decode .datetime (.str s)).result =
    (Timestamp.parse s).mapError fun e => .bare (.datetime e) := rfl

/-- Points in time are read from texts only. -/
theorem exists_parse_of_decode {w : Json} {t : Timestamp}
    (h : (decode .datetime w).result = .ok t) : ∃ s, w = .str s ∧ Timestamp.parse s = .ok t := by
  obtain ⟨s, hs, h⟩ := Except.bind_eq_ok.1 (h : decodeDatetime w = .ok t)
  exact ⟨s, Json.asText?_eq_some.1 (readAs_eq_ok.1 hs), Except.mapError_eq_ok.1 h⟩

/-- **A timestamp returns from its text iff its year has four digits**, and is
    refused if not.  One that was read in the first place returns unless an
    offset took it to the year before them or the year after. -/
theorem datetime_returns_iff (t : Timestamp) : ∃ w, encode .datetime t = .ok w ∧
    ((decode .datetime w).result = .ok t ↔ 0 ≤ t.date.year ∧ t.date.year ≤ 9999) ∧
    ((decode .datetime w).result = .error (.bare (.datetime .invalid)) ↔
      ¬ (0 ≤ t.date.year ∧ t.date.year ≤ 9999)) ∧
    ∀ w₀, (decode .datetime w₀).result = .ok t → (decode .datetime w).result = .ok t ∨
      (t.date.year = -1 ∨ t.date.year = 10000) ∧
        (decode .datetime w).result = .error (.bare (.datetime .invalid)) := by
  refine ⟨.str t.render, rfl, ?_⟩
  by_cases hyear : 0 ≤ t.date.year ∧ t.date.year ≤ 9999
  · have hok : (decode .datetime (.str t.render)).result = .ok t := by
      rw [decode_datetime, Timestamp.parse_render hyear]
      rfl
    rw [hok]
    exact ⟨iff_of_true rfl hyear, iff_of_false (by simp) (not_not.2 hyear), fun _ _ => Or.inl rfl⟩
  · have herror : (decode .datetime (.str t.render)).result =
        .error (.bare (.datetime .invalid)) := by
      rw [decode_datetime, Timestamp.parse_render_of_year hyear]
      rfl
    rw [herror]
    refine ⟨iff_of_false (by simp) hyear, iff_of_true rfl hyear, fun w₀ hw₀ => Or.inr ⟨?_, rfl⟩⟩
    obtain ⟨s, -, hs⟩ := exists_parse_of_decode hw₀
    have hbounds := Timestamp.year_of_parse hs
    omega

/-- The leap second before the year 10000 one minute behind UTC, which is in
    that year. -/
def lateLeapSecond : Timestamp := ⟨253402300859, 1000000000, by decide⟩

/-- It is read, but not from the text that it is written as. -/
theorem datetime_returns_iff_lateLeapSecond :
    (decode .datetime (.str "9999-12-31T23:59:60-00:01")).result = .ok lateLeapSecond ∧
      lateLeapSecond.date.year = 10000 ∧ ∃ w, encode .datetime lateLeapSecond = .ok w ∧
        (decode .datetime w).result = .error (.bare (.datetime .invalid)) := by
  have hparse : Timestamp.parse "9999-12-31T23:59:60-00:01" = .ok lateLeapSecond :=
    (congrArg Timestamp.parseBytes (toList_toUTF8_ofList
      ['9', '9', '9', '9', '-', '1', '2', '-', '3', '1', 'T', '2', '3', ':', '5', '9', ':', '6',
        '0', '-', '0', '0', ':', '0', '1'])).trans (by decide)
  have hyear : lateLeapSecond.date.year = 10000 := by decide
  have hread : (decode .datetime (.str "9999-12-31T23:59:60-00:01")).result =
      .ok lateLeapSecond := by
    rw [decode_datetime, hparse]
    rfl
  obtain ⟨w, hw, -, herror, -⟩ := datetime_returns_iff lateLeapSecond
  exact ⟨hread, hyear, w, hw, herror.2 (by rw [hyear]; decide)⟩

end Leaf

end WireForm
