/-
  WireForm — floats that cannot be written.

  A document has no place for what is not a number and for the infinities.
  Where declarations write what they declare, nothing else keeps a value from
  being written: the floats of a value, listed in the order in which they are
  written, decide whether it is written, and the first one that is not finite
  is the failure.

  * `Floats`, `Floats.first?`: floats at positions, and the first non-finite one;
  * `Value.floats`: the floats of a value, in the order of encoding;
  * `Value.located_floats`: encoding fails at the first non-finite float;
  * `Value.encode_error_iff_nonFinite`: whether, and with which error.
-/
import WireForm.Proofs.Finite
import WireForm.Proofs.Location
import WireForm.Proofs.RoundTrip

namespace WireForm

/-! ## Floats at positions -/

/-- Floats of either width, each with its position. -/
abbrev Floats : Type := List (Path × Σ f : Format, Binary f)

namespace Floats

/-- The floats of a part, with their positions in the whole. -/
def within (s : Step) (l : Floats) : Floats := l.map fun q => (s :: q.1, q.2)

/-- The first float that is not finite. -/
def first? (l : Floats) : Option (Path × Σ f : Format, Binary f) :=
  l.find? fun q => !q.2.2.isFinite

/-- The fault of the first float that is not finite. -/
def Faulty (l : Floats) (p : Path) (f : Fault) : Prop :=
  ∃ x, l.first? = some (p, x) ∧ f = .malformed (.nonFinite x.2.nonFiniteName)

variable {l : Floats} {s : Step} {q : Path} {f : Fault}

theorem first?_within (s : Step) (l : Floats) :
    (within s l).first? = l.first?.map fun q => (s :: q.1, q.2) := by
  rw [first?, within, List.find?_map]
  rfl

theorem faulty_within : (within s l).Faulty q f ↔ ∃ p, q = s :: p ∧ l.Faulty p f := by
  simp only [Faulty, first?_within, Option.map_eq_some_iff, Prod.mk.injEq]
  constructor
  · rintro ⟨x, ⟨⟨p, y⟩, hy, rfl, rfl⟩, hf⟩
    exact ⟨p, rfl, y, hy, hf⟩
  · rintro ⟨p, rfl, x, hx, hf⟩
    exact ⟨x, ⟨(p, x), hx, rfl, rfl⟩, hf⟩

theorem first?_eq_none : l.first? = none ↔ ∀ p f, ¬ l.Faulty p f := by
  constructor
  · rintro h p f ⟨x, hx, -⟩
    rw [h] at hx
    cases hx
  · intro h
    cases hx : l.first? with
    | none => rfl
    | some q => exact absurd ⟨q.2, hx, rfl⟩ (h q.1 _)

theorem exists_nonFinite_iff :
    (∃ q ∈ l, q.2.2.isFinite = false) ↔ ∃ q, q ∈ l.first? := by
  simp only [Option.mem_def, ← Option.isSome_iff_exists, first?, List.find?_isSome]
  simp

/-- Of several lists in a row, the first that is faulty has the fault. -/
theorem faulty_flatten {n : Nat} {L : Fin n → Floats} : Faulty (List.ofFn L).flatten q f ↔
    ∃ k, (∀ j < k, (L j).first? = none) ∧ (L k).Faulty q f := by
  induction n with
  | zero => exact ⟨fun ⟨_, h, _⟩ => (by cases h), fun ⟨k, _⟩ => k.elim0⟩
  | succ n ih =>
    have happend : Faulty (L 0 ++ (List.ofFn fun k : Fin n => L k.succ).flatten) q f ↔
        (L 0).Faulty q f ∨
          (L 0).first? = none ∧ Faulty (List.ofFn fun k : Fin n => L k.succ).flatten q f := by
      simp only [Faulty, first?, List.find?_append]
      cases (L 0).find? fun q => !q.2.2.isFinite <;> simp
    rw [List.ofFn_succ, List.flatten_cons, happend, ih, Fin.exists_fin_succ]
    refine or_congr ⟨fun h => ⟨fun j hj => absurd hj (Fin.not_lt_zero j), h⟩, fun h => h.2⟩ ?_
    rw [← exists_and_left]
    refine exists_congr fun k => ?_
    rw [← and_assoc, Fin.forall_fin_succ]
    simp only [Fin.succ_pos, true_imp_iff, Fin.succ_lt_succ_iff]

end Floats

/-! ## Failing for floats -/

namespace Located

variable {α : Type} {r : Except CodecError α} {l : Floats}

/-- A result that fails for a float succeeds if all are finite. -/
theorem exists_ok_iff (h : Located r l.Faulty) : (∃ a, r = .ok a) ↔ l.first? = none := by
  rw [Floats.first?_eq_none]
  constructor
  · rintro ⟨a, rfl⟩ p f hf
    have he := (h _).2 ⟨p, f, hf, rfl⟩
    cases he
  · intro hl
    cases hr : r with
    | ok a => exact ⟨a, rfl⟩
    | error e =>
      obtain ⟨p, f, hf, -⟩ := (h e).1 hr
      exact absurd hf (hl p f)

theorem within (h : Located r l.Faulty) {s : Step} (hs : s.location? = none) :
    Located r (l.within s).Faulty :=
  (h.step hs).congr fun _ _ => Floats.faulty_within

variable {n : Nat} {β : Fin n → Type} {x : ∀ k, Except CodecError (β k)} {L : Fin n → Floats}
  {s : Fin n → Step}

/-- The first faulty member of a family is the one with the first float that
    is not finite. -/
theorem faulty_family (h : ∀ k, Located (x k) (L k).Faulty) {q : Path} {f : Fault} :
    Floats.Faulty (List.ofFn fun k => (L k).within (s k)).flatten q f ↔
      ∃ k p, q = s k :: p ∧ (∀ j < k, ∃ y, x j = .ok y) ∧ (L k).Faulty p f := by
  rw [Floats.faulty_flatten]
  refine exists_congr fun k => ?_
  have hnone : ∀ j, ((L j).within (s j)).first? = none ↔ ∃ y, x j = .ok y := fun j => by
    rw [Floats.first?_within, Option.map_eq_none_iff, (h j).exists_ok_iff]
  simp only [hnone, Floats.faulty_within]
  exact ⟨fun ⟨hlt, p, hq, hf⟩ => ⟨p, hq, hlt, hf⟩, fun ⟨p, hq, hlt, hf⟩ => ⟨hlt, p, hq, hf⟩⟩

theorem traverse_within (h : ∀ k, Located (x k) (L k).Faulty) (hs : ∀ k, (s k).location? = none) :
    Located (Family.traverse x) (Floats.Faulty (List.ofFn fun k => (L k).within (s k)).flatten) :=
  (traverse h hs).congr fun _ _ => faulty_family h

theorem traverse_locate_within {loc : Fin n → String} (h : ∀ k, Located (x k) (L k).Faulty)
    (hs : ∀ k, (s k).location? = some (loc k)) :
    Located (Family.traverse fun k => (x k).mapError (CodecError.locate (loc k)))
      (Floats.Faulty (List.ofFn fun k => (L k).within (s k)).flatten) :=
  (traverse_locate h hs).congr fun _ _ => faulty_family h

end Located

/-! ## The floats of a value -/

/-- The float that a leaf is. -/
def Leaf.floats : (l : Leaf) → l.Carrier → Floats
  | float64, (x : Binary64) => [([], ⟨_, x⟩)]
  | float32, (x : Binary32) => [([], ⟨_, x⟩)]
  | bool, _ | string, _ | int _, _ | any, _ | bytes, _ | datetime, _ | foreign _, _
  | enumeration _, _ | discriminants _, _ => []

variable {N : Names} {S : Schema N} {t : Ty N}

/-- The floats of a value in the order of encoding: elements and items in
    sequence, entries by their keys, fields in their order of writing. -/
def Value.floats : {t : Ty N} → Value S t → Floats
  | _, leaf x => Leaf.floats _ x
  | _, none => []
  | _, some v => v.floats.within .content
  | _, box v => v.floats.within .content
  | _, list _ xs => (List.ofFn fun k => (xs k).floats.within (.item k)).flatten
  | _, map keys _ xs => (List.ofFn fun k => (xs k).floats.within (.entry (keys.get k))).flatten
  | _, tuple i xs =>
    (List.ofFn fun k => (xs k).floats.within (.element (S.tuple i).name k)).flatten
  | _, record i xs =>
    (List.ofFn fun k => (xs ((S.record i).writes.get k)).floats.within
      (.field (S.record i).name ((S.record i).written k).key)).flatten
  | _, variant i v xs =>
    (List.ofFn fun k =>
      (xs ((S.record ((S.interface i).variants.get v).record).writes.get k)).floats.within
        (.field (S.record ((S.interface i).variants.get v).record).name
          ((S.record ((S.interface i).variants.get v).record).written k).key)).flatten

/-! ## Encoding -/

theorem Floats.faulty_singleton {g : Format} {y : Binary g} {p : Path} {f : Fault} :
    Faulty [([], ⟨g, y⟩)] p f ↔
      y.isFinite = false ∧ p = [] ∧ f = .malformed (.nonFinite y.nonFiniteName) := by
  rw [Faulty, first?, List.find?_singleton]
  cases y.isFinite with
  | true => simp
  | false =>
    simp only [Bool.not_false, if_true, Option.some.injEq, Prod.mk.injEq, true_and]
    exact ⟨fun ⟨_, ⟨hp, rfl⟩, hf⟩ => ⟨hp.symm, hf⟩, fun ⟨hp, hf⟩ => ⟨_, ⟨hp.symm, rfl⟩, hf⟩⟩

/-- A float is written as the float `x` of 64 bits, which must be finite. -/
theorem Leaf.located_encodeFloat {g : Format} {x : Binary64} {y : Binary g}
    (hfin : x.isFinite = y.isFinite)
    (hname : y.isFinite = false → x.nonFiniteName = y.nonFiniteName) :
    Located (encodeFloat x) (Floats.Faulty [([], ⟨g, y⟩)]) := by
  unfold encodeFloat
  cases hy : y.isFinite with
  | true =>
    rw [dif_pos (hfin.trans hy)]
    exact (Located.ok _).congr fun p f => by simp [Floats.faulty_singleton, hy]
  | false =>
    rw [dif_neg (by simp [hfin, hy]), hname hy]
    exact (Located.error [] (.malformed (.nonFinite y.nonFiniteName))).congr fun p f => by
      simp [Floats.faulty_singleton, hy]

/-- A leaf that is not foreign is written unless it is a float that is not
    finite. -/
theorem Leaf.located_floats {l : Leaf} (hl : ∀ s, l ≠ .foreign s) (x : l.Carrier) :
    Located (l.encode x) (l.floats x).Faulty := by
  cases l with
  | float64 => exact located_encodeFloat rfl fun _ => rfl
  | float32 => exact located_encodeFloat (Binary.isFinite_widen x) Binary.nonFiniteName_widen
  | foreign s => exact absurd rfl (hl s)
  | bool | string | int | any | bytes | datetime | enumeration | discriminants =>
    exact (Located.ok _).congr fun p f => iff_false_intro fun ⟨_, h, _⟩ => by cases h

namespace Value

/-- Encoding fails at the first float that is not finite, and nowhere else. -/
theorem located_floats (ht : S.Everywhere S.Closed t) (hf : S.ForeignFree t) (v : Value S t) :
    Located v.encode v.floats.Faulty := by
  induction v with
  | @leaf l x => exact Leaf.located_floats (fun s hs => hf.here s (congrArg Ty.leaf hs)) x
  | none => exact (Located.ok _).congr fun p f => iff_false_intro fun ⟨_, h, _⟩ => by cases h
  | @some t v ih => exact (ih (ht.part (.option t)) (hf.part (.option t))).within rfl
  | @box t v ih => exact (ih (ht.part (.box t)) (hf.part (.box t))).within rfl
  | @list t n xs ih =>
    rw [encode_list]
    exact (Located.traverse_within (fun k => ih k (ht.part (.list t)) (hf.part (.list t)))
      fun _ => rfl).map _
  | @map t keys sorted xs ih =>
    rw [encode_map]
    exact (Located.traverse_within (fun k => ih k (ht.part (.map t)) (hf.part (.map t)))
      fun _ => rfl).map _
  | tuple i xs ih =>
    rw [encode_tuple_of_closed ht.here]
    exact (Located.traverse_locate_within
      (fun k => ih k (ht.part (.element_get k)) (hf.part (.element_get k))) fun _ => rfl).map _
  | record i xs ih =>
    rw [encode_record_of_closed ht.here]
    exact (Located.traverse_locate_within (fun k => ih ((S.record i).writes.get k)
      (ht.part (.field_get _)) (hf.part (.field_get _))) fun _ => rfl).map _
  | variant i v xs ih =>
    have hr := ht.part (.variant_get v)
    have hfr := hf.part (.variant_get v)
    rw [encode_variant_of_closed hr.here (ht.here _ (List.get_mem _ v))]
    exact (Located.traverse_locate_within (fun k => ih ((S.record _).writes.get k)
      (hr.part (.field_get _)) (hfr.part (.field_get _))) fun _ => rfl).map _

/-- **A value is written unless one of its floats is not finite**, and then
    encoding fails for the first such float, with the location of its position. -/
theorem encode_error_iff_nonFinite (ht : S.Everywhere S.Closed t) (hf : S.ForeignFree t)
    (v : Value S t) :
    ((∃ e, v.encode = .error e) ↔ ∃ q ∈ v.floats, q.2.2.isFinite = false) ∧
      ∀ e, v.encode = .error e ↔ ∃ q ∈ v.floats.first?,
        e = .malformed q.1.location (.nonFinite q.2.2.nonFiniteName) := by
  have herror : ∀ e, v.encode = .error e ↔ ∃ q ∈ v.floats.first?,
      e = .malformed q.1.location (.nonFinite q.2.2.nonFiniteName) := by
    intro e
    rw [located_floats ht hf v e]
    constructor
    · rintro ⟨p, _, ⟨x, hx, rfl⟩, rfl⟩
      exact ⟨(p, x), hx, rfl⟩
    · rintro ⟨q, hq, rfl⟩
      exact ⟨q.1, _, ⟨q.2, hq, rfl⟩, rfl⟩
  refine ⟨?_, herror⟩
  simp only [herror, Floats.exists_nonFinite_iff]
  exact ⟨fun ⟨_, q, hq, _⟩ => ⟨q, hq⟩, fun ⟨q, hq⟩ => ⟨_, q, hq, rfl⟩⟩

end Value

namespace Catalogue

/-- A circle around a point. -/
def circle (radius x y : Binary64) : Value schema (.interface .shape) :=
  .variant (S := schema) InterfaceName.shape ⟨0, by decide⟩ fun
    | ⟨0, _⟩ => .leaf (l := .float64) radius
    | ⟨1, _⟩ => .tuple (S := schema) TupleName.point fun
      | ⟨0, _⟩ => .leaf (l := .float64) x
      | ⟨1, _⟩ => .leaf (l := .float64) y

/-- A circle around an infinite point, and then one without a radius. -/
def farCircles : Value schema (.interface .shape) :=
  group "far" .none 2 fun
    | 0 => circle (.ofIndex false 0) (.ofIndex false 0)
        (.ofIndex true Format.double.infinityIndex)
    | 1 => circle (.nan false) (.ofIndex false 0) (.ofIndex false 0)

theorem encode_error_iff_nonFinite_farCircles :
    schema.Everywhere schema.Closed (.interface .shape) ∧
      schema.ForeignFree (.interface .shape) ∧
      farCircles.encode = .error (.malformed "Point[1]" (.nonFinite "-inf")) := by
  have hs := shape_sound.mono fun _ h => Schema.Writable.closed (Schema.Sound.writable h)
  have h := Value.encode_error_iff_nonFinite hs shape_foreignFree farCircles
  refine ⟨hs, shape_foreignFree, (h.2 _).2 ⟨([.field "Shape_Group" "members", .item 0,
    .field "Shape_Circle" "center", .element "Point" 1],
      ⟨.double, Binary.ofIndex true Format.double.infinityIndex⟩), ?_, ?_⟩⟩
  · with_unfolding_all rfl
  · rfl

end Catalogue

end WireForm
