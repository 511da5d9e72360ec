/-
  WireForm — variants that hide each other.

  The variant of a discriminant is the first one that carries it, so of two
  variants with one discriminant the latter is never reached.  The check of an
  interface looks, place by place, for a discriminant that occurs again behind it.

  * `Variant.Recurs`, `Variant.IsFirstRepeated`: the discriminants that do, and
    the first of them;
  * `Variant.firstRepeated_eq_some`: the check finds the first;
  * `InterfaceDecl.verify_decides_reach`: the check passes iff every variant is
    reached by its discriminant, and it reports the first that hides another.
-/
import Mathlib.Data.List.Pairwise
import Mathlib.Order.Fin.Basic
import WireForm.Proofs.Dispatch

namespace WireForm

namespace Variant

variable {interface tag : String} {tags : List String}

/-! ## Discriminants that occur again -/

/-- The discriminant at a place occurs again at a later one. -/
def Recurs (tags : List String) (i : Fin tags.length) : Prop :=
  ∃ j, i < j ∧ tags.get j = tags.get i

instance (tags : List String) (i : Fin tags.length) : Decidable (Recurs tags i) :=
  inferInstanceAs (Decidable (∃ j, i < j ∧ tags.get j = tags.get i))

/-- The first place whose discriminant occurs again later. -/
structure IsFirstRepeated (tags : List String) (i : Fin tags.length) : Prop where
  recurs : Recurs tags i
  first : ∀ j < i, ¬ Recurs tags j

theorem recurs_zero : Recurs (tag :: tags) 0 ↔ tag ∈ tags := by
  rw [List.mem_iff_get]
  constructor
  · rintro ⟨j, hj, h⟩
    cases j using Fin.cases with
    | zero => exact absurd hj (lt_irrefl _)
    | succ j => exact ⟨j, h⟩
  · rintro ⟨j, h⟩
    exact ⟨j.succ, Fin.succ_pos j, h⟩

theorem recurs_succ {i : Fin tags.length} : Recurs (tag :: tags) i.succ ↔ Recurs tags i := by
  constructor
  · rintro ⟨j, hj, h⟩
    cases j using Fin.cases with
    | zero => exact absurd hj (Fin.not_lt_zero _)
    | succ j => exact ⟨j, Fin.succ_lt_succ_iff.1 hj, h⟩
  · rintro ⟨j, hj, h⟩
    exact ⟨j.succ, Fin.succ_lt_succ_iff.2 hj, h⟩

section
variable {i : Fin (tag :: tags).length}

theorem isFirstRepeated_of_mem (h : tag ∈ tags) : IsFirstRepeated (tag :: tags) i ↔ i = 0 := by
  have hzero := recurs_zero.2 h
  constructor
  · intro hi
    cases i using Fin.cases with
    | zero => rfl
    | succ i => exact absurd hzero (hi.first 0 (Fin.succ_pos i))
  · rintro rfl
    exact ⟨hzero, fun j hj => absurd hj (Fin.not_lt_zero j)⟩

theorem isFirstRepeated_of_notMem (h : tag ∉ tags) :
    IsFirstRepeated (tag :: tags) i ↔ ∃ j, IsFirstRepeated tags j ∧ i = j.succ := by
  have hzero := mt recurs_zero.1 h
  constructor
  · intro hi
    cases i using Fin.cases with
    | zero => exact absurd hi.recurs hzero
    | succ i =>
      refine ⟨i, ⟨recurs_succ.1 hi.recurs, fun j hj => ?_⟩, rfl⟩
      exact mt recurs_succ.2 (hi.first j.succ (Fin.succ_lt_succ_iff.2 hj))
  · rintro ⟨i, hi, rfl⟩
    refine ⟨recurs_succ.2 hi.recurs, fun j hj => ?_⟩
    cases j using Fin.cases with
    | zero => exact hzero
    | succ j => exact mt recurs_succ.1 (hi.first j (Fin.succ_lt_succ_iff.1 hj))

end

/-! ## The check -/

/-- **The search finds the first** discriminant that occurs again later. -/
theorem firstRepeated_eq_some :
    firstRepeated tags = some tag ↔ ∃ i, IsFirstRepeated tags i ∧ tags.get i = tag := by
  induction tags with
  | nil => exact iff_of_false nofun fun ⟨i, _⟩ => i.elim0
  | cons head tags ih =>
    rw [firstRepeated]
    by_cases hhead : head ∈ tags
    · rw [if_pos (List.contains_iff_mem.2 hhead), Option.some.injEq]
      simp only [isFirstRepeated_of_mem hhead, exists_eq_left]
      rfl
    · rw [if_neg (mt List.contains_iff_mem.1 hhead), ih]
      simp only [isFirstRepeated_of_notMem hhead]
      constructor
      · rintro ⟨i, hi, rfl⟩
        exact ⟨i.succ, ⟨i, hi, rfl⟩, rfl⟩
      · rintro ⟨_, ⟨i, hi, rfl⟩, rfl⟩
        exact ⟨i, hi, rfl⟩

theorem verifyTags_eq_error {err : CodecError} : verifyTags interface tags = .error err ↔
    ∃ i, IsFirstRepeated tags i ∧ err = .malformed interface (.repeatedTag (tags.get i)) := by
  have hfound : verifyTags interface tags = .error err ↔
      ∃ tag, firstRepeated tags = some tag ∧ err = .malformed interface (.repeatedTag tag) := by
    unfold verifyTags
    cases firstRepeated tags <;> simp [eq_comm]
  rw [hfound]
  constructor
  · rintro ⟨tag, htag, rfl⟩
    obtain ⟨i, hi, rfl⟩ := firstRepeated_eq_some.1 htag
    exact ⟨i, hi, rfl⟩
  · rintro ⟨i, hi, rfl⟩
    exact ⟨tags.get i, firstRepeated_eq_some.2 ⟨i, hi, rfl⟩, rfl⟩

theorem nodup_iff_idxOf_get :
    tags.Nodup ↔ ∀ i : Fin tags.length, tags.idxOf (tags.get i) = i := by
  constructor
  · intro h i
    exact h.idxOf_getElem i i.isLt
  · intro h
    refine List.nodup_iff_injective_get.2 fun i j hij => Fin.ext ?_
    rw [← h i, hij, h j]

end Variant

variable {N : Names}

/-! ## Interfaces -/

namespace InterfaceDecl

variable {d : InterfaceDecl N}

/-- A variant is reached iff no variant before it has its discriminant. -/
theorem find?_tag {v : Fin d.variants.length} : d.find? (d.variants.get v).tag = some v ↔
    ∀ u < v, (d.variants.get u).tag ≠ (d.variants.get v).tag := by
  rw [find?, List.findFinIdx?_eq_some_iff]
  simp

theorem nodup_iff_find? : (d.variants.map (·.tag)).Nodup ↔
    ∀ v : Fin d.variants.length, d.find? (d.variants.get v).tag = some v := by
  rw [List.Nodup, List.pairwise_map, List.pairwise_iff_get]
  simp only [find?_tag]
  exact ⟨fun h v u huv => h u v huv, fun h u v huv => h v u huv⟩

/-- **The check decides whether every variant is reached.**  It passes iff each
    discriminant is found first at its own place, so that dispatch on the
    discriminant of a variant comes to this variant.  Otherwise it reports the
    interface and the first discriminant that occurs again later. -/
theorem verify_decides_reach (d : InterfaceDecl N) :
    (Variant.verifyTags d.name d.tags = .ok () ↔
      ∀ i : Fin d.tags.length, d.tags.idxOf (d.tags.get i) = i) ∧
    (d.tags = d.variants.map (·.tag) → (Variant.verifyTags d.name d.tags = .ok () ↔
      ∀ v : Fin d.variants.length, d.find? (d.variants.get v).tag = some v)) ∧
    ∀ err, Variant.verifyTags d.name d.tags = .error err ↔
      ∃ i, Variant.IsFirstRepeated d.tags i ∧
        err = .malformed d.name (.repeatedTag (d.tags.get i)) := by
  rw [Variant.verifyTags_eq_ok]
  exact ⟨Variant.nodup_iff_idxOf_get, fun htags => by rw [htags, nodup_iff_find?],
    fun _ => Variant.verifyTags_eq_error⟩

end InterfaceDecl

namespace Catalogue

/-- Of the discriminants declared twice, the first is reported; the variants of
    the shapes are all reached. -/
theorem verify_decides_reach_doubled :
    Variant.verifyTags "Doubled" (schema.interface .doubled).tags =
        .error (.malformed "Doubled" (.repeatedTag "b\"\n")) ∧
      (schema.interface .shape).tags = (schema.interface .shape).variants.map (·.tag) ∧
      ∀ v, (schema.interface .shape).find? ((schema.interface .shape).variants.get v).tag =
        some v := by
  refine ⟨?_, rfl, ?_⟩
  · exact ((InterfaceDecl.verify_decides_reach (schema.interface .doubled)).2.2 _).2
      ⟨⟨1, by decide⟩, ⟨by decide, by decide⟩, rfl⟩
  · exact ((InterfaceDecl.verify_decides_reach (schema.interface .shape)).2.1 rfl).1 rfl

end Catalogue

end WireForm
