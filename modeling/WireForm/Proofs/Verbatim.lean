/-
  WireForm — documents that are written back to the letter.

  A value of most types has one document only: it is written as the document
  that it was read from, with numbers of the same kind.  Floats may be spelled
  as integers, texts may stand for the same bytes or the same point in time, and
  an object may have entries in any order or that no one declares; types with
  none of these are verbatim.

  * `Leaf.Verbatim`, `Schema.Verbatim`: the types in question;
  * `Schema.writesBack_list`, `Schema.writesBack_tuple`, …: the parts of a
    document go back to their places;
  * `Schema.decode_verbatim`: what is read is written back, and no two
    documents are read as one value.
-/
import WireForm.Proofs.Decoding
import WireForm.Proofs.Leaf
import WireForm.Proofs.Writing

namespace WireForm

/-! ## Leaves -/

namespace Leaf

/-- Each value of the leaf has one document. -/
def Verbatim : Leaf → Prop
  | bool | string | int _ | any | enumeration _ | discriminants _ => True
  | float64 | float32 | bytes | datetime | foreign _ => False

/-- A leaf is written as the document that it was read from.  Members may share
    an ordinal: they then share the document. -/
theorem encode_of_decode_verbatim {l : Leaf} {w : Json} {x : l.Carrier} (hl : l.Verbatim)
    (h : (l.decode w).result = .ok x) : l.encode x = .ok w := by
  cases l with
  | bool =>
    have hw : w.asBool? = some x := readAs_eq_ok.1 h
    cases w with
    | bool b => cases hw; rfl
    | null | num | str | arr | obj => cases hw
  | string =>
    obtain rfl := Json.asText?_eq_some.1 (readAs_eq_ok.1 h)
    rfl
  | int k =>
    obtain ⟨range, rfl⟩ := decodeInt_eq_ok.1 h
    rfl
  | any => cases h; rfl
  | enumeration e => exact congrArg _ (Enumeration.encode_of_decode h)
  | discriminants e => exact congrArg _ (Discriminants.encode_of_decode h)
  | float64 | float32 | bytes | datetime | foreign => exact hl.elim

end Leaf

variable {N : Names} {S : Schema N} {t : Ty N} {w : Json}

namespace Schema

/-- Nothing at the type itself has two spellings.  Tuples must handle what they
    declare. -/
def Verbatim (S : Schema N) : Ty N → Prop
  | .leaf l => l.Verbatim
  | .tuple i => (S.tuple i).Sound
  | .option _ | .list _ | .box _ => True
  | .map _ | .record _ | .interface _ => False

/-! ## One type at a time -/

/-- What is read from the document is written as the document. -/
def WritesBack (S : Schema N) (t : Ty N) (w : Json) : Prop :=
  ∀ v, (S.decode t w).result = .ok v → v.encode = .ok w

theorem writesBack_of_fail {e : CodecError} (h : S.decode t w = .fail e) : S.WritesBack t w := by
  intro v hv
  rw [h] at hv
  cases hv

theorem writesBack_leaf {l : Leaf} (hl : l.Verbatim) (w : Json) : S.WritesBack (.leaf l) w := by
  intro v h
  rw [decode_leaf, Traced.result_map, Except.map_eq_ok] at h
  obtain ⟨x, hx, rfl⟩ := h
  exact Leaf.encode_of_decode_verbatim hl hx

/-- Only `null` is read as an absent option, at the outermost level. -/
theorem writesBack_option (h : S.WritesBack t w) : S.WritesBack (.option t) w := by
  intro v hv
  by_cases hw : w = .null
  · subst hw
    rw [decode_option_null] at hv
    cases hv; rfl
  · rw [decode_option hw, Traced.result_map, Except.map_eq_ok] at hv
    obtain ⟨v, hv, rfl⟩ := hv
    exact h v hv

theorem writesBack_box (h : S.WritesBack t w) : S.WritesBack (.box t) w := by
  intro v hv
  rw [decode_box, Traced.result_map, Except.map_eq_ok] at hv
  obtain ⟨v, hv, rfl⟩ := hv
  exact h v hv

theorem writesBack_list (h : ∀ x ∈ w.children, S.WritesBack t x) : S.WritesBack (.list t) w := by
  by_cases hw : w.kind = .sequence
  · obtain ⟨xs, rfl⟩ := Json.kind_eq_sequence.1 hw
    intro v hv
    rw [decode_list, Traced.ok_map_traverse] at hv
    obtain ⟨ys, hys, rfl⟩ := hv
    have hws : ∀ k, (ys k).encode = .ok (xs.get k) := fun k => h _ (List.get_mem _ k) _ (hys k)
    rw [Value.encode_list, Family.traverse_eq_ok.2 hws]
    show Except.ok (Json.arr (List.ofFn xs.get)) = _
    rw [List.ofFn_get]
  · exact writesBack_of_fail (decode_list_of_kind t hw)

theorem writesBack_tuple {i : N.Tuple} (hi : (S.tuple i).Sound)
    (h : ∀ x ∈ w.children, ∀ t ∈ (S.tuple i).elements, S.WritesBack t x) :
    S.WritesBack (.tuple i) w := by
  by_cases hw : w.kind = .sequence
  · obtain ⟨xs, rfl⟩ := Json.kind_eq_sequence.1 hw
    by_cases hn : xs.length = (S.tuple i).arity
    · have hn' : (S.tuple i).elements.length = xs.length := by rw [hn, hi.arity]
      intro v hv
      rw [decode_tuple hi hn', Traced.ok_map_traverse] at hv
      obtain ⟨ys, hys, rfl⟩ := hv
      have hws : ∀ k, (ys k).encode = .ok (xs.get (k.cast hn')) := by
        intro k
        have hk := hys k
        rw [Traced.result_locate, Except.mapError_eq_ok] at hk
        exact h _ (List.get_mem _ _) _ (List.get_mem _ k) _ hk
      rw [Value.encode_tuple hi,
        Family.traverse_eq_ok.2 fun k => Except.mapError_eq_ok.2 (hws k)]
      have hxs : (List.ofFn fun k => xs.get (k.cast hn')) = xs :=
        (List.ofFn_congr hn' _).trans (List.ofFn_get xs)
      exact congrArg (Except.ok ∘ Json.arr) hxs
    · exact writesBack_of_fail (decode_tuple_of_length hn)
  · exact writesBack_of_fail (decode_tuple_of_kind i hw)

/-! ## All types -/

/-- Verbatim types have verbatim documents. -/
theorem writesBack (ht : S.Everywhere S.Verbatim t) (w : Json) : S.WritesBack t w := by
  induction t, w using Schema.induction with
  | leaf l w => exact writesBack_leaf ht.here w
  | option t w ih => exact writesBack_option (ih (ht.part (.option t)))
  | box t w ih => exact writesBack_box (ih (ht.part (.box t)))
  | list t w ih => exact writesBack_list fun x hx => ih x hx (ht.part (.list t))
  | tuple i w ih =>
    exact writesBack_tuple ht.here fun x hx t ht' => ih x hx t (ht.part (.element i ht'))
  | map | record | interface => exact ht.here.elim

/-- **What is read is written back to the letter**, so that no two documents are
    read as one value. -/
theorem decode_verbatim (ht : S.Everywhere S.Verbatim t) :
    (∀ w v, (S.decode t w).result = .ok v → v.encode = .ok w) ∧
      ∀ w w' v, (S.decode t w).result = .ok v → (S.decode t w').result = .ok v → w = w' := by
  refine ⟨writesBack ht, fun w w' v h h' => ?_⟩
  have hw := writesBack ht w v h
  rw [writesBack ht w' v h'] at hw
  exact (Except.ok.inj hw).symm

end Schema

namespace Catalogue

/-- A tuple of one optional text. -/
def singleton (v : Value schema (.option string)) : Value schema (.tuple .single) :=
  .tuple (S := schema) TupleName.single fun
    | ⟨0, _⟩ => v

/-- Optional tuples of an optional text each. -/
abbrev singles : Ty names := .list (.option (.tuple .single))

/-- A `null` in place of a tuple, and one inside a tuple. -/
def sparse : Json := .arr [.null, .arr [.null]]

/-- The value that is read from `sparse`. -/
def sparseSingles : Value schema singles :=
  .list 2 fun
    | ⟨0, _⟩ => .none
    | ⟨1, _⟩ => .some (singleton .none)

theorem singles_verbatim : schema.Everywhere schema.Verbatim singles := by
  refine .of_list (l := [singles, .option (.tuple .single), .tuple .single, .option string, string])
    ?_ ?_ List.mem_cons_self
  · simp only [List.forall_mem_cons]
    exact ⟨trivial, trivial, ⟨rfl, rfl⟩, trivial, trivial, List.forall_mem_nil _⟩
  · simp [Schema.parts, schema, tupleDecl, TupleDecl.plain, string]

theorem decode_single : (schema.decode (.tuple .single) (.arr [.null])).result =
    .ok (singleton .none) := by
  rw [Schema.decode_tuple (S := schema) (i := TupleName.single) ⟨rfl, rfl⟩ rfl, Traced.ok_map_traverse]
  refine ⟨_, Fin.forall_fin_one.2 ?_, rfl⟩
  show ((schema.decode (.option string) .null).locate _).result = _
  rw [Schema.decode_option_null]
  rfl

theorem decode_sparse : (schema.decode singles sparse).result = .ok sparseSingles := by
  rw [sparse, Schema.decode_list, Traced.ok_map_traverse]
  refine ⟨_, Fin.forall_fin_two.2 ⟨?_, ?_⟩, rfl⟩
  · show (schema.decode (.option _) .null).result = _
    rw [Schema.decode_option_null]
    rfl
  · show (schema.decode (.option _) (.arr [.null])).result = _
    rw [Schema.decode_option Json.noConfusion, Traced.result_map, decode_single]
    rfl

theorem decode_verbatim_sparse :
    schema.Everywhere schema.Verbatim singles ∧
      (schema.decode singles sparse).result = .ok sparseSingles ∧
      sparseSingles.encode = .ok sparse :=
  ⟨singles_verbatim, decode_sparse, (Schema.decode_verbatim singles_verbatim).1 _ _ decode_sparse⟩

end Catalogue

end WireForm
