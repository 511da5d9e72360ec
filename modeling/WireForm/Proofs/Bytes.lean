/-
  WireForm — texts as bytes.

  Texts with a grammar of their own are read as bytes.  A character of ASCII is
  one byte, so that what is written in ASCII is read byte by byte.

  * `bytes`: the bytes of characters, and `toList_toUTF8_ofList`: those of a text;
  * `Timestamp.Numeral`: a number in a fixed number of decimal digits;
  * `Timestamp.numeral_padded`: numbers are written as numerals, and
    `Timestamp.twoDigits_of_numeral` and the like: they are read again.
-/
import Mathlib.Data.List.Basic
import Mathlib.Tactic.IntervalCases
import WireForm.Timestamp.Parser
import WireForm.Timestamp.Printer

namespace WireForm

/-! ## Texts -/

/-- The bytes of characters, in order. -/
def bytes (cs : List Char) : List UInt8 := cs.flatMap String.utf8EncodeChar

theorem bytes_append (cs cs' : List Char) : bytes (cs ++ cs') = bytes cs ++ bytes cs' :=
  List.flatMap_append

theorem bytes_cons (c : Char) (cs : List Char) :
    bytes (c :: cs) = String.utf8EncodeChar c ++ bytes cs :=
  List.flatMap_cons

/-- Each character has at least one byte. -/
theorem length_le_length_bytes (cs : List Char) : cs.length ≤ (bytes cs).length := by
  induction cs with
  | nil => exact Nat.le_refl 0
  | cons c cs ih =>
    have hc := c.utf8Size_pos
    rw [bytes_cons, List.length_append, String.length_utf8EncodeChar, List.length_cons]
    omega

theorem toList_loop (b : ByteArray) (i : Nat) (acc : List UInt8) :
    ByteArray.toList.loop b i acc = acc.reverse ++ b.data.toList.drop i := by
  generalize hn : b.size - i = n
  induction n generalizing i acc with
  | zero =>
    have hi : ¬ i < b.size := by omega
    have hdrop : b.data.toList.length ≤ i := by
      rw [Array.length_toList]
      exact Nat.le_of_not_lt hi
    rw [ByteArray.toList.loop, if_neg hi, List.drop_eq_nil_of_le hdrop, List.append_nil]
  | succ n ih =>
    have hi : i < b.size := by omega
    have hlen : i < b.data.toList.length := by
      rw [Array.length_toList]
      exact hi
    have hget : b.get! i = b.data.toList[i] := by
      rw [Array.getElem_toList]
      exact getElem!_pos b.data i hi
    rw [ByteArray.toList.loop, if_pos hi, ih (i + 1) _ (by omega), hget,
      List.drop_eq_getElem_cons hlen, List.reverse_cons, List.append_assoc,
      List.singleton_append]

/-- Texts of the same bytes are the same. -/
theorem toList_toUTF8_inj {s t : String} : s.toUTF8.toList = t.toUTF8.toList ↔ s = t := by
  refine ⟨fun h => ?_, fun h => h ▸ rfl⟩
  simp only [ByteArray.toList, toList_loop, List.reverse_nil, List.nil_append, List.drop_zero] at h
  exact String.toByteArray_inj.1 (ByteArray.ext (Array.toList_inj.1 h))

/-- The bytes of a text are those of its characters. -/
theorem toList_toUTF8_ofList (cs : List Char) : (String.ofList cs).toUTF8.toList = bytes cs := by
  rw [ByteArray.toList, toList_loop]
  exact List.toList_data_toByteArray

/-! ## Numerals -/

namespace Timestamp

/-- A number in decimal, in as many digits as the width says. -/
structure Numeral (width n : Nat) (ds : List UInt8) : Prop where
  length : ds.length = width
  digits : ∀ d ∈ ds, isDigit d = true
  value : ofDigits ds = n

variable {w n m : Nat} {ds : List UInt8}

theorem ofDigits_append (ds : List UInt8) (d : UInt8) :
    ofDigits (ds ++ [d]) = 10 * ofDigits ds + (d.toNat - 48) := by
  rw [ofDigits, List.foldl_append]
  rfl

/-- The byte of a decimal digit. -/
theorem exists_digit (hn : n < 10) : ∃ d : UInt8, String.utf8EncodeChar n.digitChar = [d] ∧
    isDigit d = true ∧ d.toNat - 48 = n := by
  interval_cases n <;> exact ⟨_, rfl, rfl, rfl⟩

/-- A number with one digit more. -/
theorem Numeral.snoc (h : Numeral w m ds) (hn : n < 10) :
    Numeral (w + 1) (10 * m + n) (ds ++ String.utf8EncodeChar n.digitChar) := by
  obtain ⟨d, hd, hdigit, hval⟩ := exists_digit hn
  rw [hd]
  refine ⟨by rw [List.length_append, h.length]; rfl, ?_, ?_⟩
  · intro d' hd'
    rcases List.mem_append.1 hd' with hd' | hd'
    · exact h.digits d' hd'
    · rwa [List.mem_singleton.1 hd']
  · rw [ofDigits_append, h.value, hval]

/-- The last digit is written last. -/
theorem padded_succ (hw : 0 < w) (n : Nat) :
    padded (w + 1) n = padded w (n / 10) ++ [(n % 10).digitChar] := by
  unfold padded
  by_cases hn : n < 10
  · obtain ⟨w, rfl⟩ := Nat.exists_eq_add_of_lt hw
    rw [Nat.toDigits_of_lt_base hn, Nat.div_eq_of_lt hn, Nat.mod_eq_of_lt hn, Nat.toDigits_zero]
    simp only [List.length_singleton, Nat.zero_add, Nat.add_sub_cancel, List.replicate_succ']
  · have hlen : w + 1 - (Nat.toDigits 10 (n / 10) ++ [(n % 10).digitChar]).length =
        w - (Nat.toDigits 10 (n / 10)).length := by
      rw [List.length_append, List.length_singleton, Nat.add_sub_add_right]
    rw [Nat.toDigits_of_base_le (by decide) (Nat.le_of_not_lt hn)]
    simp only [hlen, List.append_assoc]

theorem length_le_length_padded (w n : Nat) : w ≤ (padded w n).length := by
  simp only [padded, List.length_append, List.length_replicate]
  omega

/-- **A number is written as a numeral** if it has no more digits than the width. -/
theorem numeral_padded (hw : 0 < w) (hn : n < 10 ^ w) : Numeral w n (bytes (padded w n)) := by
  induction w, hw using Nat.le_induction generalizing n with
  | base =>
    have hn : n < 10 := hn
    have hnil : Numeral 0 0 [] := ⟨rfl, List.forall_mem_nil _, rfl⟩
    have hone := hnil.snoc hn
    rw [padded, Nat.toDigits_of_lt_base hn, List.length_singleton, Nat.sub_self,
      List.replicate_zero, List.nil_append, bytes_cons]
    simpa [bytes] using hone
  | succ w hw ih =>
    have hdiv : n / 10 < 10 ^ w := Nat.div_lt_of_lt_mul (Nat.pow_succ' ▸ hn)
    have hlast := (ih hdiv).snoc (Nat.mod_lt n (by decide))
    rw [Nat.div_add_mod] at hlast
    rw [padded_succ hw, bytes_append, bytes_cons]
    simpa [bytes] using hlast

/-- Numbers of two digits are two bytes. -/
theorem exists_twoDigits (hn : n < 100) :
    ∃ a b, bytes (padded 2 n) = [a, b] ∧ Numeral 2 n [a, b] := by
  have h := numeral_padded (w := 2) (by decide) hn
  obtain ⟨a, b, hab⟩ := List.length_eq_two.1 h.length
  exact ⟨a, b, hab, hab ▸ h⟩

theorem exists_fourDigits (hn : n < 10000) :
    ∃ a b c d, bytes (padded 4 n) = [a, b, c, d] ∧ Numeral 4 n [a, b, c, d] := by
  have h := numeral_padded (w := 4) (by decide) hn
  obtain ⟨a, l, hl⟩ := List.exists_cons_of_length_eq_add_one h.length
  have hlen := h.length
  rw [hl, List.length_cons, Nat.add_right_cancel_iff, List.length_eq_three] at hlen
  obtain ⟨b, c, d, rfl⟩ := hlen
  exact ⟨a, b, c, d, hl, hl ▸ h⟩

/-! ## Numerals, read -/

variable {a b c d : UInt8}

theorem digit_of_isDigit (h : isDigit a = true) : digit a = .ok (a.toNat - 48) := if_pos h

theorem twoDigits_of_numeral (h : Numeral 2 n [a, b]) : twoDigits a b = .ok n := by
  obtain ⟨-, hd, hv⟩ := h
  rw [twoDigits, digit_of_isDigit (hd a (by simp)), digit_of_isDigit (hd b (by simp)), ← hv]
  show Except.ok _ = Except.ok _
  congr 1
  simp only [ofDigits, List.foldl_cons, List.foldl_nil]
  omega

/-- Four digits are those of the century and those of its year. -/
theorem Numeral.halves (h : Numeral 4 n [a, b, c, d]) :
    Numeral 2 (n / 100) [a, b] ∧ Numeral 2 (n % 100) [c, d] := by
  obtain ⟨-, hd, rfl⟩ := h
  simp only [List.forall_mem_cons] at hd
  obtain ⟨ha, hb, hc, hd, -⟩ := hd
  have hc' := hc
  have hd' := hd
  simp only [isDigit, Bool.and_eq_true, decide_eq_true_eq] at hc' hd'
  refine ⟨⟨rfl, by simp [ha, hb], ?_⟩, ⟨rfl, by simp [hc, hd], ?_⟩⟩
  · simp only [ofDigits, List.foldl_cons, List.foldl_nil]
    omega
  · simp only [ofDigits, List.foldl_cons, List.foldl_nil]
    omega

/-- The digits of a numeral end where something else begins. -/
theorem Numeral.takeWhile_append {rest : List UInt8} (h : Numeral w n ds)
    (hc : isDigit c = false) : (ds ++ c :: rest).takeWhile isDigit = ds := by
  rw [List.takeWhile_append_of_pos h.digits, List.takeWhile_cons_of_neg (by simp [hc]),
    List.append_nil]

theorem Numeral.dropWhile_append {rest : List UInt8} (h : Numeral w n ds)
    (hc : isDigit c = false) : (ds ++ c :: rest).dropWhile isDigit = c :: rest := by
  rw [List.dropWhile_append_of_pos h.digits, List.dropWhile_cons_of_neg (by simp [hc])]

end Timestamp

end WireForm
