/-
  WireForm — the documents of a type.

  Which documents belong to a type is said by a grammar that knows nothing of
  decoding: it names no order, and speaks of the keys of a record one by one.
  What it says of leaves is left open.

  * `Schema.Conforms`: a document belongs to a type;
  * `Schema.decides`: decoding decides a grammar if it does at leaves;
  * `Schema.decode_ok_iff_conforms`: decoding accepts the documents of the grammar
    and no others, and `Schema.succeeds_iff_conforms_documents`: where leaves are
    sound, these are the documents of all members.
-/
import WireForm.Proofs.Decoding
import WireForm.Proofs.Leaf

namespace WireForm

variable {N : Names}

namespace Schema

/-- A document conforms to a type, where `A` says which documents conform to a
    leaf.  The values of an optional field are options, so that `null` conforms;
    keys that are not declared do not matter. -/
inductive Conforms (S : Schema N) (A : Leaf → Json → Prop) : Ty N → Json → Prop
  | leaf {l : Leaf} {w : Json} : A l w → Conforms S A (.leaf l) w
  | null {t : Ty N} : Conforms S A (.option t) .null
  | some {t : Ty N} {w : Json} : Conforms S A t w → Conforms S A (.option t) w
  | box {t : Ty N} {w : Json} : Conforms S A t w → Conforms S A (.box t) w
  | list {t : Ty N} {xs : List Json} :
      (∀ x ∈ xs, Conforms S A t x) → Conforms S A (.list t) (.arr xs)
  | map {t : Ty N} {m : Mapping} : (∀ e ∈ m, Conforms S A t e.2) → Conforms S A (.map t) (.obj m)
  | tuple {i : N.Tuple} {xs : List Json} : xs.length = (S.tuple i).arity →
      (∀ (k : Fin (S.tuple i).elements.length) (x : Json), xs[k.val]? = some x →
        Conforms S A ((S.tuple i).elements.get k) x) →
      Conforms S A (.tuple i) (.arr xs)
  | record {i : N.Record} {m : Mapping} :
      (∀ f ∈ (S.record i).fields, f.presence = .required → m.get? f.key ≠ none) →
      (∀ f ∈ (S.record i).fields, ∀ x, m.get? f.key = some x → Conforms S A f.valueType x) →
      Conforms S A (.record i) (.obj m)
  | interface {i : N.Interface} {v : VariantDecl N} {m : Mapping} :
      v ∈ (S.interface i).variants → m.get? typeKey = some (.str v.tag) →
      Conforms S A (.record v.record) (.obj m) → Conforms S A (.interface i) (.obj m)

variable {S : Schema N} {A : Leaf → Json → Prop} {w : Json}

/-! ## One type at a time -/

theorem conforms_leaf {l : Leaf} : S.Conforms A (.leaf l) w ↔ A l w :=
  ⟨fun h => by cases h with | leaf h => exact h, .leaf⟩

theorem conforms_option {t : Ty N} :
    S.Conforms A (.option t) w ↔ w = .null ∨ S.Conforms A t w := by
  constructor
  · intro h
    cases h with
    | null => exact Or.inl rfl
    | some h => exact Or.inr h
  · rintro (rfl | h)
    · exact .null
    · exact .some h

theorem conforms_box {t : Ty N} : S.Conforms A (.box t) w ↔ S.Conforms A t w :=
  ⟨fun h => by cases h with | box h => exact h, .box⟩

theorem conforms_list {t : Ty N} {xs : List Json} :
    S.Conforms A (.list t) (.arr xs) ↔ ∀ i : Fin xs.length, S.Conforms A t (xs.get i) := by
  constructor
  · intro h i
    cases h with | list h => exact h _ (List.get_mem _ i)
  · intro h
    refine .list fun x hx => ?_
    obtain ⟨i, rfl⟩ := List.get_of_mem hx
    exact h i

theorem conforms_map {t : Ty N} {m : Mapping} :
    S.Conforms A (.map t) (.obj m) ↔ ∀ i : Fin m.length, S.Conforms A t (m.get i).2 := by
  constructor
  · intro h i
    cases h with | map h => exact h _ (List.get_mem _ i)
  · intro h
    refine .map fun e he => ?_
    obtain ⟨i, rfl⟩ := List.get_of_mem he
    exact h i

/-- The elements of a tuple conform place by place. -/
theorem conforms_tuple {i : N.Tuple} {xs : List Json} (hi : (S.tuple i).Sound)
    (hn : (S.tuple i).elements.length = xs.length) :
    S.Conforms A (.tuple i) (.arr xs) ↔
      ∀ k : Fin (S.tuple i).elements.length,
        S.Conforms A ((S.tuple i).elements.get k) (xs.get (k.cast hn)) := by
  constructor
  · intro h k
    cases h with | tuple _ h => exact h k _ (by simp)
  · intro h
    refine .tuple (by rw [hi.arity, hn]) fun k x hx => ?_
    obtain ⟨hk, rfl⟩ := List.getElem?_eq_some_iff.1 hx
    exact h k

theorem conforms_record {i : N.Record} {m : Mapping} :
    S.Conforms A (.record i) (.obj m) ↔ ∀ k : Fin (S.record i).fields.length,
      (((S.record i).fields.get k).presence = .required →
        m.get? ((S.record i).fields.get k).key ≠ none) ∧
        ∀ x, m.get? ((S.record i).fields.get k).key = some x →
          S.Conforms A ((S.record i).fields.get k).valueType x := by
  constructor
  · intro h k
    have hk := List.get_mem _ k
    cases h with | record h₁ h₂ => exact ⟨h₁ _ hk, h₂ _ hk⟩
  · intro h
    refine .record (fun f hf => ?_) fun f hf => ?_
    · obtain ⟨k, rfl⟩ := List.get_of_mem hf
      exact (h k).1
    · obtain ⟨k, rfl⟩ := List.get_of_mem hf
      exact (h k).2

/-! ## Decoding decides -/

/-- Decoding accepts a document iff it conforms. -/
def Decides (S : Schema N) (A : Leaf → Json → Prop) (t : Ty N) (w : Json) : Prop :=
  (S.decode t w).Succeeds ↔ S.Conforms A t w

variable {t : Ty N}

theorem decides_of_fail {e : CodecError} (hd : S.decode t w = .fail e)
    (hc : ¬ S.Conforms A t w) : S.Decides A t w := by
  rw [Decides, hd]
  exact iff_of_false (Traced.not_succeeds_fail e) hc

theorem decides_option (h : S.Decides A t w) : S.Decides A (.option t) w := by
  unfold Decides at h ⊢
  rw [conforms_option, ← h]
  by_cases hw : w = .null
  · simp [hw, decode_option_null]
  · simp [hw, decode_option hw]

theorem decides_list (h : ∀ x ∈ w.children, S.Decides A t x) : S.Decides A (.list t) w := by
  by_cases hw : w.kind = .sequence
  · obtain ⟨xs, rfl⟩ := Json.kind_eq_sequence.1 hw
    rw [Decides, decode_list, Traced.succeeds_map, Traced.succeeds_traverse, conforms_list]
    exact forall_congr' fun i => h _ (List.get_mem _ i)
  · refine decides_of_fail (decode_list_of_kind t hw) fun hc => ?_
    cases hc; exact hw rfl

theorem decides_map (h : ∀ x ∈ w.children, S.Decides A t x) : S.Decides A (.map t) w := by
  by_cases hw : w.kind = .mapping
  · obtain ⟨m, rfl⟩ := Json.kind_eq_mapping.1 hw
    rw [Decides, decode_map, Traced.succeeds_map, Traced.succeeds_traverse, conforms_map]
    exact forall_congr' fun i => h _ (Mapping.mem_children (List.get_mem _ i))
  · refine decides_of_fail (decode_map_of_kind t hw) fun hc => ?_
    cases hc; exact hw rfl

theorem decides_tuple {i : N.Tuple} (hi : (S.tuple i).Sound)
    (h : ∀ x ∈ w.children, ∀ t ∈ (S.tuple i).elements, S.Decides A t x) :
    S.Decides A (.tuple i) w := by
  by_cases hw : w.kind = .sequence
  · obtain ⟨xs, rfl⟩ := Json.kind_eq_sequence.1 hw
    by_cases hn : xs.length = (S.tuple i).arity
    · have hn' : (S.tuple i).elements.length = xs.length := by rw [hn, hi.arity]
      rw [Decides, decode_tuple hi hn', Traced.succeeds_map, Traced.succeeds_traverse,
        conforms_tuple hi hn']
      refine forall_congr' fun k => ?_
      rw [Traced.succeeds_locate]
      exact h _ (List.get_mem _ _) _ (List.get_mem _ k)
    · refine decides_of_fail (decode_tuple_of_length hn) fun hc => ?_
      cases hc with | tuple hn' _ => exact hn hn'
  · refine decides_of_fail (decode_tuple_of_kind i hw) fun hc => ?_
    cases hc; exact hw rfl

theorem decides_record {i : N.Record}
    (h : ∀ x ∈ w.children, ∀ f ∈ (S.record i).fields, S.Decides A f.valueType x) :
    S.Decides A (.record i) w := by
  by_cases hw : w.kind = .mapping
  · obtain ⟨m, rfl⟩ := Json.kind_eq_mapping.1 hw
    rw [Decides, decode_record, Traced.succeeds_map, decodeFields_eq, Traced.succeeds_traverse,
      conforms_record]
    refine forall_congr' fun k => ?_
    rw [succeeds_decodeField]
    refine and_congr_right fun _ => forall_congr' fun x => imp_congr_right fun hx => ?_
    exact h x (Mapping.mem_children (Mapping.mem_of_get? hx)) _ (List.get_mem _ k)
  · refine decides_of_fail (decode_record_of_kind i hw) fun hc => ?_
    cases hc; exact hw rfl

/-- A document is dispatched to the variant it conforms to. -/
theorem decides_interface {i : N.Interface} (hi : (S.interface i).Sound)
    (h : ∀ v ∈ (S.interface i).variants, S.Decides A (.record v.record) w) :
    S.Decides A (.interface i) w := by
  by_cases hw : w.kind = .mapping
  · obtain ⟨m, rfl⟩ := Json.kind_eq_mapping.1 hw
    rcases InterfaceDecl.tag_cases (S.interface i) m with hm | ⟨x, hm, hx⟩ | ⟨tag, hm, hv⟩ | ⟨v, hm⟩
    · refine decides_of_fail (decode_interface_of_missing hm) fun hc => ?_
      cases hc with | interface _ hg _ => rw [hm] at hg; cases hg
    · refine decides_of_fail (decode_interface_of_untagged hm hx) fun hc => ?_
      cases hc with | interface _ hg _ => rw [hm] at hg; cases hg; exact hx rfl
    · rw [Decides, decode_interface_of_none hm (InterfaceDecl.find?_eq_none.2 hv),
        Traced.succeeds_log, Variant.unknownTag, Traced.succeeds_log]
      refine iff_of_false (Traced.not_succeeds_fail _) fun hc => ?_
      cases hc with | interface hv' hg _ => rw [hm] at hg; cases hg; exact hv _ hv' rfl
    · have hmem := List.get_mem _ v
      have hrec := h ((S.interface i).variants.get v) hmem
      rw [Decides, decode_record, Traced.succeeds_map] at hrec
      rw [Decides, decode_interface_of_some hm (hi.find?_eq_some.2 rfl), Traced.succeeds_log,
        Traced.succeeds_map, hrec]
      refine ⟨.interface hmem hm, fun hc => ?_⟩
      cases hc with
      | interface hv' hg hc =>
        rw [hm] at hg
        injection hg with hg; injection hg with hg
        rwa [← hi.eq_of_tag hmem hv' hg] at hc
  · refine decides_of_fail (decode_interface_of_kind i hw) fun hc => ?_
    cases hc; exact hw rfl

/-- Decoding decides a grammar if it does at all leaves. -/
theorem decides (ht : S.Everywhere S.Readable t)
    (hA : S.Everywhere (fun u => ∀ l, u = .leaf l → ∀ w, (l.decode w).Succeeds ↔ A l w) t)
    (w : Json) : S.Decides A t w := by
  induction t, w using Schema.induction with
  | leaf l w =>
    rw [Decides, decode_leaf, Traced.succeeds_map, conforms_leaf]
    exact hA.here l rfl w
  | option t w ih => exact decides_option (ih (ht.part (.option t)) (hA.part (.option t)))
  | box t w ih =>
    rw [Decides, decode_box, Traced.succeeds_map, conforms_box]
    exact ih (ht.part (.box t)) (hA.part (.box t))
  | list t w ih =>
    exact decides_list fun x hx => ih x hx (ht.part (.list t)) (hA.part (.list t))
  | map t w ih => exact decides_map fun x hx => ih x hx (ht.part (.map t)) (hA.part (.map t))
  | tuple i w ih =>
    exact decides_tuple ht.here fun x hx t ht' =>
      ih x hx t (ht.part (.element i ht')) (hA.part (.element i ht'))
  | record i w ih =>
    exact decides_record fun x hx f hf => ih x hx _ (ht.part (.field i hf)) (hA.part (.field i hf))
  | interface i w ih =>
    exact decides_interface ht.here fun v hv =>
      ih v.record (ht.part (.variant i hv)) (hA.part (.variant i hv))

/-- **Decoding accepts the conforming documents and no others.** -/
theorem decode_ok_iff_conforms (ht : S.Everywhere S.Readable t) :
    (∃ v, (S.decode t w).result = .ok v) ↔ S.Conforms Leaf.Accepts t w :=
  decides ht (fun _ _ _ _ _ => Leaf.exists_decode_iff) w

/-- Where leaves are sound, the documents of a leaf are those of all its members:
    no discriminant is out of reach. -/
theorem succeeds_iff_conforms_documents (ht : S.Everywhere S.Readable t)
    (hl : S.Everywhere (fun u => ∀ l, u = .leaf l → l.Sound) t) :
    (S.decode t w).Succeeds ↔ S.Conforms Leaf.Documents t w := by
  refine decides ht (fun u hu l h w => ?_) w
  exact Leaf.exists_decode_iff.trans (Leaf.accepts_iff_documents (hl u hu l h))

end Schema

namespace Catalogue

/-- A square with its discriminant last and an entry that no one declares. -/
def blueSquare : Json :=
  .obj [("color", .str "blue"), ("side", .int 3 (by decide)), ("note", .null),
    ("type", .str "square")]

theorem decode_ok_of_blueSquare :
    schema.Everywhere schema.Readable (.interface .shape) ∧
      ∃ v, (schema.decode (.interface .shape) blueSquare).result = .ok v := by
  have hs := shape_sound.mono fun _ => Schema.Sound.readable
  refine ⟨hs, (Schema.decode_ok_iff_conforms hs).2 ?_⟩
  refine .interface (List.mem_cons_of_mem _ List.mem_cons_self) rfl (Schema.conforms_record.2 ?_)
  refine Fin.forall_fin_two.2 ⟨⟨fun _ => Option.some_ne_none _, ?_⟩,
    ⟨fun _ => Option.some_ne_none _, ?_⟩⟩
  · rintro x ⟨⟩
    exact .leaf ⟨_, rfl⟩
  · rintro x ⟨⟩
    exact .leaf ⟨⟨"Blue", .text "blue"⟩, List.mem_of_getElem? (i := 2) rfl, rfl⟩

end Catalogue

end WireForm
