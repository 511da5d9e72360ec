/-
  WireForm — members of an enumeration, looked up and told apart.

  A member is found by its document, its ordinal or its name, by three scans of
  the same list that stop at the first hit.  A scan finds a member iff no member
  before it looks the same, so members that share an ordinal or a name hide each
  other.

  * `Enumeration.lookups_agree`: the scan for a document and the scan for an
    ordinal find the same member, or fail alike;
  * `IsFirstPair`: the first pair of places of which a relation holds;
  * `Enumeration.Identified`, `Enumeration.Clash`: the scans lead back to a
    member; two members hide each other;
  * `Enumeration.verify_decides_identity`: the check passes iff every member is
    identified, and it reports the first pair that clashes.
-/
import Mathlib.Order.Fin.Basic
import WireForm.Catalogue.Enumerations
import WireForm.Proofs.Leaf

namespace WireForm

/-! ## Look-ups -/

namespace Ordinal

theorem toWire_of_integer {k : OrdinalKind} (hk : k = .integer) (o : Ordinal k) :
    ∃ n : IntKind.i64.Word, o.toWire = .int n.1 n.2.range := by
  cases o with
  | int n => exact ⟨n, rfl⟩
  | text s => cases hk

end Ordinal

namespace Enumeration

variable {e : Enumeration} {w : Json} {i : e.Index}

theorem decode_eq_ok_iff_first :
    (e.decode w).result = .ok i ↔ e.encode i = w ∧ ∀ j < i, e.encode j ≠ w := by
  rw [decode_eq_ok, List.findFinIdx?_eq_some_iff]
  simp only [Ordinal.isWire_iff, eq_comm (a := w)]
  rfl

theorem decode_of_ne_encode (hw : ∀ i, e.encode i ≠ w) :
    (e.decode w).result = .error (.unknownOrdinal e.name w) := by
  unfold decode
  split
  · next i hi =>
    have hi : (e.decode w).result = .ok i := decode_eq_ok.2 hi
    exact absurd (encode_of_decode hi) (hw i)
  · rfl

/-- Ordinals are equal iff their documents are, so both scans test the same. -/
theorem ofOrdinal?_eq_scan (o : Ordinal e.kind) :
    e.ofOrdinal? o = e.members.findFinIdx? fun m => m.ordinal.isWire o.toWire := by
  unfold ofOrdinal?
  congr 1
  funext m
  rw [Bool.eq_iff_iff, decide_eq_true_eq, Ordinal.isWire_iff]
  exact ⟨fun h => by rw [h], fun h => (Ordinal.toWire_inj h).symm⟩

theorem result_decodeOrdinal (o : Ordinal e.kind) :
    (e.decodeOrdinal o).result = (e.decode o.toWire).result := by
  unfold decodeOrdinal decode
  rw [ofOrdinal?_eq_scan]
  cases e.members.findFinIdx? fun m => m.ordinal.isWire o.toWire <;> rfl

/-- Integer ordinals are found by integer documents of 64 bits only. -/
theorem decode_of_not_word (he : e.kind = .integer)
    (hw : ∀ n : IntKind.i64.Word, w ≠ .int n.1 n.2.range) :
    (e.decode w).result = .error (.unknownOrdinal e.name w) := by
  refine decode_of_ne_encode fun i hi => ?_
  obtain ⟨n, hn⟩ := Ordinal.toWire_of_integer he (e.members.get i).ordinal
  exact hw n (hi.symm.trans hn)

/-- **A document is looked up as an ordinal is.**  The first member with the
    document is found, even if others share it; if there is none, the error has
    the document.  An ordinal leads to the member, or the error, that its
    document leads to.  Of the numbers and texts, only integers of 64 bits can
    be integer ordinals. -/
theorem lookups_agree (e : Enumeration) :
    (∀ w i, (e.decode w).result = .ok i ↔ e.encode i = w ∧ ∀ j < i, e.encode j ≠ w) ∧
    (∀ w, (∀ i, e.encode i ≠ w) → (e.decode w).result = .error (.unknownOrdinal e.name w)) ∧
    (∀ o, (e.decodeOrdinal o).result = (e.decode o.toWire).result) ∧
    (e.kind = .integer → ∀ w,
      ((∃ x finite, w = .num (.float x finite)) ∨ (∃ s, w = .str s) ∨
        ∃ n range, w = .int n range ∧ ¬ IntKind.i64.Contains n) →
      (e.decode w).result = .error (.unknownOrdinal e.name w)) := by
  refine ⟨fun w i => decode_eq_ok_iff_first, fun w => decode_of_ne_encode,
    result_decodeOrdinal, fun he w hw => decode_of_not_word he fun n hn => ?_⟩
  subst hn
  rcases hw with ⟨x, finite, h⟩ | ⟨s, h⟩ | ⟨n', range, h, hn'⟩
  · cases h
  · cases h
  · cases h
    exact hn' n.2

end Enumeration

namespace Catalogue

/-- The first member of `clashing`. -/
def former : clashing.Index := ⟨0, by decide⟩

/-- The second member of `clashing`, with the ordinal of the first. -/
def latter : clashing.Index := ⟨1, by decide⟩

/-- The integer past the integer ordinals. -/
def pastOrdinals : Json := .int (2 ^ 63) (by decide)

/-- The first of two members with an ordinal is found, by document and by
    ordinal; no member is found by a text of digits or a greater integer. -/
theorem lookups_agree_clashing :
    (clashing.decode (clashing.encode latter)).result = .ok former ∧
      (clashing.decodeOrdinal (.int (word .i64 7))).result = .ok former ∧
      (clashing.decode (.str "7")).result = .error (.unknownOrdinal "Clashing" (.str "7")) ∧
      (clashing.decode pastOrdinals).result =
        .error (.unknownOrdinal "Clashing" pastOrdinals) := by
  obtain ⟨hfirst, -, hord, hno⟩ := Enumeration.lookups_agree clashing
  have hformer : (clashing.decode (clashing.encode latter)).result = .ok former :=
    (hfirst _ former).2 ⟨rfl, fun j hj => absurd hj (Nat.not_lt_zero j)⟩
  exact ⟨hformer, (hord _).trans hformer, hno rfl _ (.inr (.inl ⟨_, rfl⟩)),
    hno rfl _ (.inr (.inr ⟨_, _, rfl, by decide⟩))⟩

end Catalogue

/-! ## First pairs -/

/-- The first pair of places of which a relation holds.  The former place comes
    first in a pair; pairs are ordered by their former, then by their latter. -/
structure IsFirstPair {n : Nat} (R : Fin n → Fin n → Prop) (i j : Fin n) : Prop where
  lt : i < j
  holds : R i j
  first : ∀ i' j', i' < j' → R i' j' → i < i' ∨ i = i' ∧ j ≤ j'

namespace IsFirstPair

variable {n : Nat}

theorem unique {R : Fin n → Fin n → Prop} {i j i' j' : Fin n} (h : IsFirstPair R i j)
    (h' : IsFirstPair R i' j') : i = i' ∧ j = j' := by
  rcases h.first i' j' h'.lt h'.holds with hlt | ⟨rfl, hle⟩
  · rcases h'.first i j h.lt h.holds with hlt' | ⟨rfl, -⟩
    · exact absurd hlt (lt_asymm hlt')
    · exact absurd hlt (lt_irrefl _)
  · rcases h'.first i j h.lt h.holds with hlt' | ⟨-, hle'⟩
    · exact absurd hlt' (lt_irrefl _)
    · exact ⟨rfl, le_antisymm hle hle'⟩

variable {R : Fin (n + 1) → Fin (n + 1) → Prop} {i j : Fin n}

/-- The first place is in a pair: the first pair is the first of its pairs. -/
theorem head (h : R 0 j.succ) (hj : ∀ j' < j, ¬ R 0 j'.succ) : IsFirstPair R 0 j.succ := by
  refine ⟨Fin.succ_pos j, h, fun i' j' hlt h' => ?_⟩
  cases i' using Fin.cases with
  | succ i' => exact Or.inl (Fin.succ_pos i')
  | zero =>
    cases j' using Fin.cases with
    | zero => exact absurd hlt (lt_irrefl _)
    | succ j' =>
      have hle : j ≤ j' := not_lt.1 fun hlt => hj j' hlt h'
      exact Or.inr ⟨rfl, Fin.succ_le_succ_iff.2 hle⟩

/-- The first place is in no pair: the first pair is that of the rest. -/
theorem tail (hno : ∀ j, ¬ R 0 (Fin.succ j))
    (h : IsFirstPair (fun i j => R i.succ j.succ) i j) : IsFirstPair R i.succ j.succ := by
  refine ⟨Fin.succ_lt_succ_iff.2 h.lt, h.holds, fun i' j' hlt h' => ?_⟩
  cases j' using Fin.cases with
  | zero => exact absurd hlt (Fin.not_lt_zero i')
  | succ j' =>
    cases i' using Fin.cases with
    | zero => exact absurd h' (hno j')
    | succ i' =>
      rcases h.first i' j' (Fin.succ_lt_succ_iff.1 hlt) h' with hlt | ⟨rfl, hle⟩
      · exact Or.inl (Fin.succ_lt_succ_iff.2 hlt)
      · exact Or.inr ⟨rfl, Fin.succ_le_succ_iff.2 hle⟩

end IsFirstPair

/-- The first hit of a search has a place, and nothing before it is a hit. -/
theorem exists_get_of_findSome? {α β : Type} {f : α → Option β} {xs : List α} {b : β}
    (h : xs.findSome? f = some b) :
    ∃ j : Fin xs.length, f (xs.get j) = some b ∧ ∀ j' < j, f (xs.get j') = none := by
  induction xs with
  | nil => cases h
  | cons x xs ih =>
    rw [List.findSome?_cons] at h
    cases hx : f x with
    | some b' =>
      rw [hx] at h
      exact ⟨0, hx.trans h, fun j' hj' => absurd hj' (Fin.not_lt_zero j')⟩
    | none =>
      rw [hx] at h
      obtain ⟨j, hj, hbefore⟩ := ih h
      refine ⟨j.succ, hj, fun j' hj' => ?_⟩
      cases j' using Fin.cases with
      | zero => exact hx
      | succ j' => exact hbefore j' (Fin.succ_lt_succ_iff.1 hj')

/-! ## Members that clash -/

namespace Enumeration

/-- The three look-ups lead back to a member. -/
structure Identified (e : Enumeration) (i : e.Index) : Prop where
  decode : (e.decode (e.encode i)).result = .ok i
  ofOrdinal : e.ofOrdinal? (e.members.get i).ordinal = some i
  byName : e.byName? (e.members.get i).name = some i

/-- Two members share their ordinal or their name. -/
def Clash (e : Enumeration) (i j : e.Index) : Prop :=
  (e.members.get i).ordinal = (e.members.get j).ordinal ∨
    (e.members.get i).name = (e.members.get j).name

instance (e : Enumeration) (i j : e.Index) : Decidable (e.Clash i j) :=
  inferInstanceAs (Decidable (_ ∨ _))

/-- What the check reports of two members that clash: the ordinal, if they share
    it, and the name, if they share that only. -/
inductive Reports (e : Enumeration) (i j : e.Index) : CodecError → Prop
  | ordinal : (e.members.get i).ordinal = (e.members.get j).ordinal →
      Reports e i j (.malformed e.name (.sharedOrdinal (e.members.get i).name
        (e.members.get j).name (e.members.get i).ordinal.shown))
  | name : (e.members.get i).ordinal ≠ (e.members.get j).ordinal →
      (e.members.get i).name = (e.members.get j).name →
      Reports e i j (.malformed e.name (.repeatedName (e.members.get i).name))

variable {e : Enumeration} {k : OrdinalKind}

/-! ### The check passes -/

theorem verify_eq_ok_iff_not_clash : e.verify = .ok () ↔ ∀ i j, i < j → ¬ e.Clash i j := by
  rw [verify_eq_ok, List.pairwise_iff_getElem]
  constructor
  · intro h i j hlt hclash
    obtain ⟨ho, hn⟩ := h i j i.isLt j.isLt hlt
    exact hclash.elim ho hn
  · intro h i j hi hj hlt
    exact not_or.1 (h ⟨i, hi⟩ ⟨j, hj⟩ hlt)

theorem ofOrdinal?_ordinal {i : e.Index} : e.ofOrdinal? (e.members.get i).ordinal = some i ↔
    ∀ j < i, (e.members.get j).ordinal ≠ (e.members.get i).ordinal := by
  rw [ofOrdinal?, List.findFinIdx?_eq_some_iff]
  simp

theorem byName?_name {i : e.Index} : e.byName? (e.members.get i).name = some i ↔
    ∀ j < i, (e.members.get j).name ≠ (e.members.get i).name := by
  rw [byName?, List.findFinIdx?_eq_some_iff]
  simp

theorem verify_eq_ok_iff_identified : e.verify = .ok () ↔ ∀ i, e.Identified i := by
  constructor
  · intro h i
    have hno := verify_eq_ok_iff_not_clash.1 h
    exact ⟨decode_encode h i, ofOrdinal?_ordinal.2 fun j hj ho => hno j i hj (.inl ho),
      byName?_name.2 fun j hj hn => hno j i hj (.inr hn)⟩
  · intro h
    refine verify_eq_ok_iff_not_clash.2 fun i j hlt hclash => ?_
    rcases hclash with ho | hn
    · exact ofOrdinal?_ordinal.1 (h j).ofOrdinal i hlt ho
    · exact byName?_name.1 (h j).byName i hlt hn

/-! ### The check fails -/

theorem exists_firstPair_of_firstClash {ms : List (Member k)} {reason : Reason}
    (h : firstClash ms = some reason) :
    ∃ i j, IsFirstPair (fun i j => clash (ms.get i) (ms.get j) ≠ none) i j ∧
      clash (ms.get i) (ms.get j) = some reason := by
  induction ms with
  | nil => cases h
  | cons m ms ih =>
    rw [firstClash, Option.or_eq_some_iff] at h
    rcases h with h | ⟨hno, h⟩
    · obtain ⟨j, hj, hbefore⟩ := exists_get_of_findSome? h
      have hne : clash m (ms.get j) ≠ none := by rw [hj]; exact Option.some_ne_none _
      exact ⟨0, j.succ, .head hne fun j' hj' h' => h' (hbefore j' hj'), hj⟩
    · obtain ⟨i, j, hij, hclash⟩ := ih h
      have hno : ∀ j, clash m (ms.get j) = none := fun j =>
        List.findSome?_eq_none_iff.1 hno _ (List.get_mem ms j)
      exact ⟨i.succ, j.succ, .tail (fun j h' => h' (hno j)) hij, hclash⟩

theorem clash_ne_none {i j : e.Index} :
    clash (e.members.get i) (e.members.get j) ≠ none ↔ e.Clash i j := by
  rw [Ne, clash_eq_none, ← not_or, not_not]
  rfl

/-- What two members have in common is what is reported of them. -/
theorem reports_iff {i j : e.Index} {err : CodecError} : e.Reports i j err ↔
    ∃ reason, clash (e.members.get i) (e.members.get j) = some reason ∧
      err = .malformed e.name reason := by
  constructor
  · intro h
    cases h with
    | ordinal ho => exact ⟨_, if_pos ho, rfl⟩
    | name ho hn => exact ⟨_, (if_neg ho).trans (if_pos hn), rfl⟩
  · rintro ⟨reason, h, rfl⟩
    unfold clash at h
    split_ifs at h with ho hn
    · cases h
      exact .ordinal ho
    · cases h
      exact .name ho hn

theorem verify_eq_error {err : CodecError} : e.verify = .error err ↔
    ∃ reason, firstClash e.members = some reason ∧ err = .malformed e.name reason := by
  unfold verify
  cases firstClash e.members <;> simp [eq_comm]

theorem verify_eq_error_iff_reports {err : CodecError} :
    e.verify = .error err ↔ ∃ i j, IsFirstPair e.Clash i j ∧ e.Reports i j err := by
  have hrel : (fun i j => clash (e.members.get i) (e.members.get j) ≠ none) = e.Clash := by
    funext i j
    exact propext clash_ne_none
  simp only [verify_eq_error, reports_iff]
  constructor
  · rintro ⟨reason, h, rfl⟩
    obtain ⟨i, j, hij, hclash⟩ := exists_firstPair_of_firstClash h
    exact ⟨i, j, hrel ▸ hij, reason, hclash, rfl⟩
  · rintro ⟨i, j, hij, reason, hclash, rfl⟩
    -- some clash is reported, and only one pair is the first
    cases h : firstClash e.members with
    | none =>
      have hno := verify_eq_ok_iff_not_clash.1 (verify_eq_ok.2 (firstClash_eq_none.1 h))
      exact absurd hij.holds (hno i j hij.lt)
    | some reason' =>
      obtain ⟨i', j', hij', hclash'⟩ := exists_firstPair_of_firstClash h
      obtain ⟨rfl, rfl⟩ := hij.unique (hrel ▸ hij')
      exact ⟨reason, by rw [← hclash', hclash], rfl⟩

/-- **The check decides whether members can be told apart.**  It passes iff every
    member is the one that its document, its ordinal and its name lead to.
    Otherwise it reports the first two members that share an ordinal or a name,
    and of these the ordinal before the name. -/
theorem verify_decides_identity (e : Enumeration) :
    (e.verify = .ok () ↔ ∀ i, e.Identified i) ∧
      ∀ err, e.verify = .error err ↔
        ∃ i j, IsFirstPair e.Clash i j ∧ e.Reports i j err :=
  ⟨verify_eq_ok_iff_identified, fun _ => verify_eq_error_iff_reports⟩

end Enumeration

namespace Catalogue

/-- Of `mixed`, the name of the first and third member is reported, before the
    ordinal of the second and fourth; of `same`, the ordinal and not the name. -/
theorem verify_decides_identity_mixed :
    mixed.verify = .error (.malformed "Mixed" (.repeatedName "A")) ∧
      same.verify = .error (.malformed "Same" (.sharedOrdinal "S" "S" "4")) := by
  constructor
  · refine ((Enumeration.verify_decides_identity mixed).2 _).2
      ⟨⟨0, by decide⟩, ⟨2, by decide⟩, ⟨by decide, by decide, by decide⟩, ?_⟩
    exact .name (by decide) rfl
  · refine ((Enumeration.verify_decides_identity same).2 _).2
      ⟨⟨0, by decide⟩, ⟨1, by decide⟩, ⟨by decide, by decide, by decide⟩, ?_⟩
    exact .ordinal rfl

end Catalogue

end WireForm
