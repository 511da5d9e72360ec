/-
  WireForm — leaves: what is accepted, and what comes back.

  * `Ordinal.isWire_iff`: one document per ordinal;
  * `Enumeration.verify_eq_ok`: a verified enumeration tells its members apart;
  * `Leaf.Accepts`, `Leaf.exists_decode_iff`: the documents of a leaf, said
    without its decoder where the schema knows what they are, and
    `Leaf.Documents`, the same for sound leaves;
  * `Leaf.Opaque`, `Leaf.returns_of_sound`: values of a sound leaf come back,
    unless the leaf is opaque.
-/
import Mathlib.Tactic.SplitIfs
import WireForm.Proofs.Outcome
import WireForm.Proofs.Sound

namespace WireForm

/-! ## Integers -/

namespace IntKind

variable {k : IntKind} {n : Int}

theorem Contains.lt_of_signed (h : k.Contains n) (hs : k.signed = true) : n < 2 ^ 63 := by
  obtain ⟨-, h⟩ := h
  cases k <;> simp only [signed, Bool.false_eq_true, max] at hs h <;> omega

theorem Contains.nonneg_of_unsigned (h : k.Contains n) (hs : ¬ k.signed = true) : 0 ≤ n := by
  obtain ⟨h, -⟩ := h
  cases k <;> simp only [signed, not_true_eq_false, min] at hs h <;> omega

end IntKind

/-! ## Ordinals -/

theorem Json.asInt?_eq_some {w : Json} {n : Int} :
    w.asInt? = some n ↔ n < 2 ^ 63 ∧ ∃ range, w = .int n range := by
  constructor
  · intro h
    unfold asInt? at h
    split at h
    · split_ifs at h with hn
      cases h
      exact ⟨hn, _, rfl⟩
    · cases h
  · rintro ⟨hn, range, rfl⟩
    exact if_pos hn

theorem Json.asNat?_eq_some {w : Json} {n : Int} :
    w.asNat? = some n ↔ 0 ≤ n ∧ ∃ range, w = .int n range := by
  constructor
  · intro h
    unfold asNat? at h
    split at h
    · split_ifs at h with hn
      cases h
      exact ⟨hn, _, rfl⟩
    · cases h
  · rintro ⟨hn, range, rfl⟩
    exact if_pos hn

theorem Json.asText?_eq_some {w : Json} {s : String} : w.asText? = some s ↔ w = .str s := by
  cases w <;> simp [asText?]

namespace Ordinal

variable {k : OrdinalKind}

/-- A document is an ordinal iff it is the ordinal's document. -/
theorem isWire_iff {o : Ordinal k} {w : Json} : o.isWire w = true ↔ w = o.toWire := by
  cases o with
  | int n =>
    obtain ⟨n, hn⟩ := n
    rw [isWire, decide_eq_true_eq, Json.asInt?_eq_some]
    constructor
    · rintro ⟨-, range, rfl⟩
      rfl
    · rintro rfl
      exact ⟨Int.lt_of_le_sub_one hn.2, hn.range, rfl⟩
  | text s => rw [isWire, decide_eq_true_eq, Json.asText?_eq_some, toWire]

theorem toWire_inj {o o' : Ordinal k} (h : o.toWire = o'.toWire) : o = o' := by
  cases o with
  | int n =>
    obtain ⟨n, hn⟩ := n
    cases o' with
    | int n' =>
      obtain ⟨n', hn'⟩ := n'
      cases h; rfl
  | text s =>
    cases o' with
    | text s' => cases h; rfl

end Ordinal

/-! ## Enumerations -/

namespace Enumeration

variable {e : Enumeration} {k : OrdinalKind}

theorem clash_eq_none {m m' : Member k} :
    clash m m' = none ↔ m.ordinal ≠ m'.ordinal ∧ m.name ≠ m'.name := by
  unfold clash
  split_ifs with h h'
  · simp [h]
  · simp [h']
  · simp [h, h']

theorem firstClash_eq_none {ms : List (Member k)} :
    firstClash ms = none ↔
      ms.Pairwise fun m m' => m.ordinal ≠ m'.ordinal ∧ m.name ≠ m'.name := by
  induction ms with
  | nil => simp [firstClash]
  | cons m ms ih =>
    rw [firstClash, Option.or_eq_none_iff, List.findSome?_eq_none_iff, List.pairwise_cons, ih]
    simp only [clash_eq_none]

/-- A verified enumeration has no two members of one ordinal or name. -/
theorem verify_eq_ok : e.verify = .ok () ↔
    e.members.Pairwise fun m m' => m.ordinal ≠ m'.ordinal ∧ m.name ≠ m'.name := by
  rw [← firstClash_eq_none, verify]
  cases firstClash e.members <;> simp

theorem decode_eq_ok {w : Json} {i : e.Index} :
    (e.decode w).result = .ok i ↔ (e.members.findFinIdx? fun m => m.ordinal.isWire w) = some i := by
  unfold decode
  split
  · next h =>
    rw [h, Option.some.injEq]
    exact ⟨fun h => (by cases h; rfl), fun h => by rw [h]; rfl⟩
  · next h =>
    rw [h]
    exact ⟨fun h => (by cases h), fun h => (by cases h)⟩

/-- A document that is read as a member is the document of the member. -/
theorem encode_of_decode {w : Json} {i : e.Index} (h : (e.decode w).result = .ok i) :
    e.encode i = w :=
  (Ordinal.isWire_iff.1 (List.findFinIdx?_eq_some_iff.1 (decode_eq_ok.1 h)).1).symm

theorem decode_encode (h : e.verify = .ok ()) (i : e.Index) :
    (e.decode (e.encode i)).result = .ok i := by
  rw [decode_eq_ok, List.findFinIdx?_eq_some_iff]
  refine ⟨Ordinal.isWire_iff.2 rfl, fun j hj hw => ?_⟩
  have hne := List.pairwise_iff_getElem.1 (verify_eq_ok.1 h) j i (by simp) (by simp) hj
  exact hne.1 (Ordinal.toWire_inj (Ordinal.isWire_iff.1 hw)).symm

end Enumeration

/-! ## Discriminants -/

namespace Discriminants

variable {e : Discriminants}

theorem decode_eq_ok {w : Json} {i : e.Index} :
    (e.decode w).result = .ok i ↔ e.find? w = some i := by
  unfold decode
  split
  · next h =>
    rw [h, Option.some.injEq]
    exact ⟨fun h => (by cases h; rfl), fun h => by rw [h]; rfl⟩
  · next h =>
    rw [h]
    exact ⟨fun h => (by cases h), fun h => (by cases h)⟩

theorem find?_eq_some {w : Json} {i : e.Index} : e.find? w = some i ↔
    ∃ n : e.kind.Word, w.asInt? = some n.1 ∧ e.ofDiscriminant? n = some i := by
  unfold find?
  cases hw : w.asInt? with
  | none => simp
  | some n =>
    simp only [Option.bind_eq_bind, Option.bind_some, Option.some.injEq]
    split
    · next h =>
      exact ⟨fun hi => ⟨⟨n, h⟩, rfl, hi⟩, fun ⟨n', hn, hi⟩ => by subst hn; exact hi⟩
    · next h =>
      exact ⟨fun hi => (by cases hi), fun ⟨n', hn, _⟩ => by subst hn; exact absurd n'.2 h⟩

/-- A document that is read as a member is the document of the member. -/
theorem encode_of_decode {w : Json} {i : e.Index} (h : (e.decode w).result = .ok i) :
    e.encode i = w := by
  obtain ⟨n, hw, hi⟩ := find?_eq_some.1 (decode_eq_ok.1 h)
  obtain ⟨-, range, rfl⟩ := Json.asInt?_eq_some.1 hw
  have hn := (List.findFinIdx?_eq_some_iff.1 hi).1
  rw [decide_eq_true_eq] at hn
  subst hn
  rfl

theorem decode_encode (hd : (e.constants.map (·.2)).Nodup) {i : e.Index}
    (hfit : (e.constants.get i).2.1 < 2 ^ 63) : (e.decode (e.encode i)).result = .ok i := by
  rw [decode_eq_ok, find?_eq_some]
  refine ⟨e.constants[i].2, Json.asInt?_eq_some.2 ⟨hfit, _, rfl⟩, ?_⟩
  rw [ofDiscriminant?, List.findFinIdx?_eq_some_iff]
  refine ⟨by simp, fun j hj hw => ?_⟩
  have hne := List.pairwise_iff_getElem.1 hd j i (by simp) (by simp) hj
  simp only [List.getElem_map] at hne
  exact hne (by simpa using hw)

/-- A constant past the signed integers of 64 bits is never found. -/
theorem exists_find?_iff {w : Json} : (∃ i, e.find? w = some i) ↔
    ∃ c ∈ e.constants, c.2.1 < 2 ^ 63 ∧ w = .int c.2.1 c.2.2.range := by
  simp only [find?_eq_some, ofDiscriminant?]
  constructor
  · rintro ⟨i, n, hw, hi⟩
    obtain ⟨hlt, range, rfl⟩ := Json.asInt?_eq_some.1 hw
    have hn := (List.findFinIdx?_eq_some_iff.1 hi).1
    rw [decide_eq_true_eq] at hn
    subst hn
    exact ⟨_, List.getElem_mem i.isLt, hlt, rfl⟩
  · rintro ⟨c, hc, hlt, rfl⟩
    cases h : e.constants.findFinIdx? fun c' => c'.2 = c.2 with
    | some i => exact ⟨i, c.2, Json.asInt?_eq_some.2 ⟨hlt, _, rfl⟩, h⟩
    | none =>
      rw [List.findFinIdx?_eq_none_iff] at h
      exact absurd (h c hc) (by simp)

end Discriminants

namespace Leaf

/-! ## Documents -/

/-- The documents of a leaf.  Of some leaves the schema knows no more than
    their decoders do. -/
def Accepts : Leaf → Json → Prop
  | bool, w => ∃ b, w = .bool b
  | string, w => ∃ s, w = .str s
  | int k, w => ∃ n range, w = .int n range ∧ k.Contains n
  | float64, w => ∃ n, w = .num n
  | any, _ => True
  | enumeration e, w => ∃ m ∈ e.members, w = m.ordinal.toWire
  | discriminants e, w =>
    ∃ c ∈ e.constants, c.2.1 < 2 ^ 63 ∧ w = .int c.2.1 c.2.2.range
  | float32, w => ∃ x, (decode float32 w).result = .ok x
  | bytes, w => ∃ x, (decode bytes w).result = .ok x
  | datetime, w => ∃ x, (decode datetime w).result = .ok x
  | foreign s, w => ∃ x, (decode (foreign s) w).result = .ok x

/-- The documents of a sound leaf: those of all its members, with no regard to
    which discriminants are read. -/
def Documents : Leaf → Json → Prop
  | discriminants e, w => ∃ i : e.Index, w = e.encode i
  | l, w => l.Accepts w

/-- A sound leaf has no member whose document is not read. -/
theorem accepts_iff_documents {l : Leaf} {w : Json} (hl : l.Sound) :
    l.Accepts w ↔ l.Documents w := by
  cases l with
  | discriminants e =>
    constructor
    · rintro ⟨c, hc, -, rfl⟩
      obtain ⟨i, rfl⟩ := List.get_of_mem hc
      exact ⟨i, rfl⟩
    · rintro ⟨i, rfl⟩
      have hi := List.get_mem e.constants i
      exact ⟨_, hi, hl.2 _ hi, rfl⟩
  | bool | string | int | float64 | float32 | any | bytes | datetime | foreign | enumeration =>
    exact Iff.rfl

theorem readAs_eq_ok {α : Type} {expected : String} {read : Json → Option α} {w : Json} {a : α} :
    readAs expected read w = .ok a ↔ read w = some a := by
  unfold readAs
  cases read w <;> simp

/-- An integer is read by the kind it belongs to, whatever the sign of the kind. -/
theorem decodeInt_eq_ok {k : IntKind} {w : Json} {n : k.Word} :
    decodeInt k w = .ok n ↔ ∃ range, w = .int n.1 range := by
  unfold decodeInt
  constructor
  · intro h
    obtain ⟨m, ⟨range, rfl⟩, hm⟩ : ∃ m, (∃ range, w = .int m range) ∧
        (if h : k.Contains m then .ok ⟨m, h⟩ else
          .error (.bare (.outOfRange (toString m) k.name)) : Except CodecError k.Word) = .ok n := by
      split_ifs at h
      · obtain ⟨m, hm, h⟩ := Except.bind_eq_ok.1 h
        exact ⟨m, (Json.asInt?_eq_some.1 (readAs_eq_ok.1 hm)).2, h⟩
      · obtain ⟨m, hm, h⟩ := Except.bind_eq_ok.1 h
        exact ⟨m, (Json.asNat?_eq_some.1 (readAs_eq_ok.1 hm)).2, h⟩
    split_ifs at hm
    cases hm
    exact ⟨range, rfl⟩
  · rintro ⟨range, rfl⟩
    split_ifs with hs
    · have hlt : n.1 < 2 ^ 63 := n.2.lt_of_signed hs
      rw [readAs_eq_ok.2 (Json.asInt?_eq_some.2 ⟨hlt, range, rfl⟩)]
      exact dif_pos n.2
    · have hle : 0 ≤ n.1 := n.2.nonneg_of_unsigned hs
      rw [readAs_eq_ok.2 (Json.asNat?_eq_some.2 ⟨hle, range, rfl⟩)]
      exact dif_pos n.2

theorem exists_decode_iff {l : Leaf} {w : Json} :
    (∃ x, (l.decode w).result = .ok x) ↔ l.Accepts w := by
  cases l with
  | bool =>
    show (∃ b, readAs "boolean" Json.asBool? w = .ok b) ↔ ∃ b, w = .bool b
    simp only [readAs_eq_ok]
    cases w <;> simp [Json.asBool?]
  | string =>
    show (∃ s, readAs "string" Json.asText? w = .ok s) ↔ ∃ s, w = .str s
    simp only [readAs_eq_ok, Json.asText?_eq_some]
  | int k =>
    show (∃ n, decodeInt k w = .ok n) ↔ ∃ n range, w = .int n range ∧ k.Contains n
    simp only [decodeInt_eq_ok]
    constructor
    · rintro ⟨n, range, rfl⟩
      exact ⟨n.1, range, rfl, n.2⟩
    · rintro ⟨n, range, rfl, hn⟩
      exact ⟨⟨n, hn⟩, range, rfl⟩
  | float64 =>
    show (∃ x, readAs "number" Json.asFloat? w = .ok x) ↔ ∃ n, w = .num n
    simp only [readAs_eq_ok]
    cases w <;> simp [Json.asFloat?]
  | any => exact ⟨fun _ => trivial, fun _ => ⟨w, rfl⟩⟩
  | enumeration e =>
    show (∃ i, (e.decode w).result = .ok i) ↔ ∃ m ∈ e.members, w = m.ordinal.toWire
    simp only [Enumeration.decode_eq_ok, ← Ordinal.isWire_iff]
    rw [← Option.isSome_iff_exists, List.isSome_findFinIdx?, List.any_eq_true]
  | discriminants e =>
    show (∃ i, (e.decode w).result = .ok i) ↔ _
    simp only [Discriminants.decode_eq_ok]
    exact Discriminants.exists_find?_iff
  | float32 | bytes | datetime | foreign => rfl

/-! ## Values that come back -/

/-- Leaves whose text or foreign form the schema does not look into. -/
def Opaque : Leaf → Prop
  | float32 | bytes | datetime | foreign _ => True
  | bool | string | int _ | float64 | any | enumeration _ | discriminants _ => False

/-- A value is read back from its document, if it has one. -/
def Returns (l : Leaf) (x : l.Carrier) : Prop :=
  ∀ w, l.encode x = .ok w → (l.decode w).result = .ok x

/-- All values of a sound leaf come back, unless the leaf is opaque. -/
theorem returns_of_sound {l : Leaf} (hl : l.Sound) (hop : ¬ l.Opaque) (x : l.Carrier) :
    l.Returns x := by
  intro w hw
  cases l with
  | bool | string | any => cases hw; rfl
  | int k => cases hw; exact decodeInt_eq_ok.2 ⟨_, rfl⟩
  | float64 =>
    change encodeFloat x = .ok w at hw
    unfold encodeFloat at hw
    split at hw
    · cases hw; rfl
    · cases hw
  | enumeration e => cases hw; exact Enumeration.decode_encode hl x
  | discriminants e =>
    cases hw; exact Discriminants.decode_encode hl.1 (hl.2 _ (List.get_mem _ x))
  | float32 | bytes | datetime | foreign => exact absurd trivial hop

end Leaf

end WireForm
