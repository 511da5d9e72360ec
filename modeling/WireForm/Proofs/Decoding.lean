/-
  WireForm — decoding, type by type.

  * `Schema.induction`: induction along decoding, which goes from a type to a
    part of it with the same document, or on to a document inside;
  * `Schema.decode_leaf`, `Schema.decode_option`, …: what decoding does at each
    type, as a traversal where there are many parts;
  * `Schema.decodeField`: a field, read as a value of its own type, and
    `Field.document?`, the document that it is read from;
  * `InterfaceDecl.Sound.find?_eq_some`: the variant of a discriminant.
-/
import Mathlib.Data.List.Nodup
import WireForm.Proofs.Reading
import WireForm.Proofs.Sound
import WireForm.Schema.Decode

namespace WireForm

/-! ## Documents inside a document -/

/-- The documents directly inside a document. -/
def Json.children : Json → List Json
  | .arr xs => xs
  | .obj m => m.map (·.2)
  | .null | .bool _ | .num _ | .str _ => []

theorem Json.sizeOf_lt_of_mem_children {w x : Json} (h : x ∈ w.children) :
    sizeOf x < sizeOf w := by
  cases w with
  | arr xs => exact Json.sizeOf_lt_arr h
  | obj m =>
    obtain ⟨e, he, rfl⟩ := List.mem_map.1 h
    exact Json.sizeOf_lt_obj_of_mem he
  | null | bool | num | str => cases h

theorem Mapping.mem_children {m : Mapping} {e : String × Json} (h : e ∈ m) :
    e.2 ∈ (Json.obj m).children :=
  List.mem_map.2 ⟨e, h, rfl⟩

theorem Json.kind_eq_sequence {w : Json} : w.kind = .sequence ↔ ∃ xs, w = .arr xs := by
  cases w <;> simp [kind]

theorem Json.kind_eq_string {w : Json} : w.kind = .string ↔ ∃ s, w = .str s := by
  cases w <;> simp [kind]

theorem Json.kind_eq_mapping {w : Json} : w.kind = .mapping ↔ ∃ m : Mapping, w = .obj m := by
  cases w <;> simp [kind]

variable {N : Names} {S : Schema N}

/-- Induction along decoding.  A variant is reduced to its record with the same
    document. -/
@[elab_as_elim]
theorem Schema.induction {motive : Ty N → Json → Prop}
    (leaf : ∀ l w, motive (.leaf l) w)
    (option : ∀ t w, motive t w → motive (.option t) w)
    (box : ∀ t w, motive t w → motive (.box t) w)
    (list : ∀ t w, (∀ x ∈ w.children, motive t x) → motive (.list t) w)
    (map : ∀ t w, (∀ x ∈ w.children, motive t x) → motive (.map t) w)
    (tuple : ∀ i w, (∀ x ∈ w.children, ∀ t, motive t x) → motive (.tuple i) w)
    (record : ∀ i w, (∀ x ∈ w.children, ∀ t, motive t x) → motive (.record i) w)
    (interface : ∀ i w, (∀ r, motive (.record r) w) → motive (.interface i) w)
    (t : Ty N) (w : Json) : motive t w := by
  have ih : ∀ x ∈ w.children, ∀ u, motive u x := fun x _ u =>
    Schema.induction leaf option box list map tuple record interface u x
  induction t with
  | leaf l => exact leaf l w
  | option t ht => exact option t w ht
  | box t ht => exact box t w ht
  | list t => exact list t w fun x hx => ih x hx t
  | map t => exact map t w fun x hx => ih x hx t
  | tuple i => exact tuple i w ih
  | record i => exact record i w ih
  | interface i => exact interface i w fun r => record r w ih
termination_by sizeOf w
decreasing_by exact Json.sizeOf_lt_of_mem_children ‹_›

/-! ## Discriminants -/

theorem Variant.firstRepeated_eq_none {tags : List String} :
    Variant.firstRepeated tags = none ↔ tags.Nodup := by
  induction tags with
  | nil => simp [firstRepeated]
  | cons tag tags ih =>
    rw [firstRepeated, List.nodup_cons, ← ih]
    by_cases h : tag ∈ tags <;> simp [h]

theorem Variant.verifyTags_eq_ok {interface : String} {tags : List String} :
    Variant.verifyTags interface tags = .ok () ↔ tags.Nodup := by
  rw [← firstRepeated_eq_none, verifyTags]
  cases firstRepeated tags <;> simp

theorem InterfaceDecl.Sound.nodup {d : InterfaceDecl N} (hd : d.Sound) :
    (d.variants.map (·.tag)).Nodup := by
  rw [← hd.tags]
  exact Variant.verifyTags_eq_ok.1 hd.verified

/-- A discriminant belongs to one variant. -/
theorem InterfaceDecl.Sound.eq_of_tag {d : InterfaceDecl N} (hd : d.Sound) {v v' : VariantDecl N}
    (hv : v ∈ d.variants) (hv' : v' ∈ d.variants) (h : v.tag = v'.tag) : v = v' :=
  List.inj_on_of_nodup_map hd.nodup hv hv' h

/-- The variant that is found is the one with the discriminant. -/
theorem InterfaceDecl.Sound.find?_eq_some {d : InterfaceDecl N} (hd : d.Sound) {tag : String}
    {v : Fin d.variants.length} : d.find? tag = some v ↔ (d.variants.get v).tag = tag := by
  rw [find?, List.findFinIdx?_eq_some_iff]
  simp only [decide_eq_true_eq]
  refine ⟨fun h => h.1, fun h => ⟨h, fun j hj hj' => ?_⟩⟩
  have hget := List.pairwise_iff_getElem.1 hd.nodup j v (by simp) (by simp) hj
  simp only [List.getElem_map] at hget
  exact hget (hj'.trans h.symm)

theorem InterfaceDecl.find?_eq_none {d : InterfaceDecl N} {tag : String} :
    d.find? tag = none ↔ ∀ v ∈ d.variants, v.tag ≠ tag := by
  simp [find?]

/-- What an interface finds under the key of the discriminant. -/
theorem InterfaceDecl.tag_cases (d : InterfaceDecl N) (m : Mapping) :
    m.get? typeKey = none ∨ (∃ x, m.get? typeKey = some x ∧ x.kind ≠ .string) ∨
      (∃ tag, m.get? typeKey = some (.str tag) ∧ ∀ v ∈ d.variants, v.tag ≠ tag) ∨
      ∃ v : Fin d.variants.length, m.get? typeKey = some (.str (d.variants.get v).tag) := by
  rcases h : m.get? typeKey with _ | x
  · exact Or.inl rfl
  by_cases hx : x.kind = .string
  · obtain ⟨tag, rfl⟩ := Json.kind_eq_string.1 hx
    by_cases hv : ∃ v ∈ d.variants, v.tag = tag
    · obtain ⟨_, hv, rfl⟩ := hv
      obtain ⟨k, rfl⟩ := List.get_of_mem hv
      exact Or.inr (Or.inr (Or.inr ⟨k, rfl⟩))
    · exact Or.inr (Or.inr (Or.inl ⟨tag, rfl, fun v hv' he => hv ⟨v, hv', he⟩⟩))
  · exact Or.inr (Or.inl ⟨x, rfl, hx⟩)

/-! ## Documents of fields -/

namespace Field

/-- The document of a field: the entry with its key, or `null` for an optional
    field that is absent. -/
def document? (f : Field N) (m : Mapping) : Option Json :=
  match m.get? f.key, f.presence with
  | some w, _ => some w
  | none, .optional => some .null
  | none, .required => none

variable {f : Field N} {m : Mapping} {w : Json}

theorem document?_cases (h : f.document? m = some w) :
    m.get? f.key = some w ∨ m.get? f.key = none ∧ f.presence = .optional ∧ w = .null := by
  unfold document? at h
  cases hm : m.get? f.key with
  | some x => exact Or.inl (by simpa only [hm] using h)
  | none =>
    cases hp : f.presence with
    | required => simp only [hm, hp, reduceCtorEq] at h
    | optional =>
      simp only [hm, hp, Option.some.injEq] at h
      exact Or.inr ⟨rfl, rfl, h.symm⟩

theorem document?_eq_none :
    f.document? m = none ↔ m.get? f.key = none ∧ f.presence = .required := by
  unfold document?
  cases m.get? f.key with
  | some x => simp
  | none => cases f.presence <;> simp

end Field

/-! ## Types -/

namespace Schema

variable {t : Ty N} {w : Json} {m : Mapping}

theorem decode_leaf (l : Leaf) (w : Json) : S.decode (.leaf l) w = .leaf <$> l.decode w := by
  rw [decode]

theorem decode_box (t : Ty N) (w : Json) : S.decode (.box t) w = .box <$> S.decode t w := by
  rw [decode]

theorem decode_option_null (t : Ty N) : S.decode (.option t) .null = pure .none := by
  rw [decode]

theorem decode_option (hw : w ≠ .null) (t : Ty N) :
    S.decode (.option t) w = .some <$> S.decode t w := by
  rw [decode]
  exact hw

theorem decode_list (t : Ty N) (xs : List Json) :
    S.decode (.list t) (.arr xs) =
      .list xs.length <$> Family.traverse fun i => S.decode t (xs.get i) := by
  rw [decode, Family.collect_eq_traverse]

theorem decode_list_of_length (t : Ty N) {n : Nat} {xs : List Json} (hn : n = xs.length) :
    S.decode (.list t) (.arr xs) =
      .list n <$> Family.traverse fun k => S.decode t (xs.get (k.cast hn)) := by
  subst hn
  exact decode_list t xs

theorem decode_list_of_kind (t : Ty N) (hw : w.kind ≠ .sequence) :
    S.decode (.list t) w = .fail (.kindMismatch placeholder "sequence" w) := by
  rw [decode]
  exact fun xs h => hw (Json.kind_eq_sequence.2 ⟨xs, h⟩)

theorem decode_map (t : Ty N) (m : Mapping) :
    S.decode (.map t) (.obj m) =
      (fun xs => .ofEntries (List.ofFn fun i => ((m.get i).1, xs i))) <$>
        Family.traverse fun i : Fin m.length => S.decode t (m.get i).2 := by
  rw [decode, Family.collect_eq_traverse]
  rfl

theorem decode_map_of_length (t : Ty N) {n : Nat} {m : Mapping} (hn : n = m.length) :
    S.decode (.map t) (.obj m) =
      (fun xs => .ofEntries (List.ofFn fun k => ((m.get (k.cast hn)).1, xs k))) <$>
        Family.traverse fun k : Fin n => S.decode t (m.get (k.cast hn)).2 := by
  subst hn
  exact decode_map t m

theorem decode_map_of_kind (t : Ty N) (hw : w.kind ≠ .mapping) :
    S.decode (.map t) w = .fail (.kindMismatch placeholder "mapping" w) := by
  rw [decode]
  exact fun m h => hw (Json.kind_eq_mapping.2 ⟨m, h⟩)

theorem decode_tuple {i : N.Tuple} (hi : (S.tuple i).Sound) {xs : List Json}
    (hn : (S.tuple i).elements.length = xs.length) :
    S.decode (.tuple i) (.arr xs) = .tuple i <$> Family.traverse fun k =>
      (S.decode ((S.tuple i).elements.get k) (xs.get (k.cast hn))).locate
        (indexPath (S.tuple i).name k) := by
  rw [decode, ← Tuple.decode_each _ hn fun k => S.decode ((S.tuple i).elements.get k), hi.arity]
  congr 1; funext xs' _; congr 1; funext values
  exact ReadScript.each_of_eq_zero (by rw [hi.plain]; rfl) _ _

theorem decode_tuple_of_length {i : N.Tuple} {xs : List Json}
    (hn : xs.length ≠ (S.tuple i).arity) :
    S.decode (.tuple i) (.arr xs) =
      .fail (.arity (S.tuple i).name (S.tuple i).arity xs.length) := by
  rw [decode]
  exact if_neg hn

theorem decode_tuple_of_kind (i : N.Tuple) (hw : w.kind ≠ .sequence) :
    S.decode (.tuple i) w = .fail (.shapeMismatch (S.tuple i).name "sequence" w) := by
  rw [decode]
  cases w with
  | arr xs => exact absurd rfl hw
  | null | bool | num | str | obj => rfl

theorem decode_record (i : N.Record) (m : Mapping) :
    S.decode (.record i) (.obj m) = .record i <$> S.decodeFields i m := by
  rw [decode]; rfl

theorem decode_record_of_kind (i : N.Record) (hw : w.kind ≠ .mapping) :
    S.decode (.record i) w = .fail (.shapeMismatch (S.record i).name "mapping" w) := by
  rw [decode]
  exact Record.decode_of_kind hw

theorem decode_interface_of_kind (i : N.Interface) (hw : w.kind ≠ .mapping) :
    S.decode (.interface i) w = .fail (.shapeMismatch (S.interface i).name "mapping" w) := by
  rw [decode]
  exact Record.decode_of_kind hw

theorem decode_interface_eq (i : N.Interface) (m : Mapping) :
    S.decode (.interface i) (.obj m) =
      (Traced.ofExcept (Variant.readTag (S.interface i).name m) >>= fun tag =>
        Traced.log (.dispatch (S.interface i).name tag) >>= fun _ => S.dispatch i tag m) := by
  rw [decode]; rfl

theorem decode_interface_of_missing {i : N.Interface} (h : m.get? typeKey = none) :
    S.decode (.interface i) (.obj m) = .fail (.missingField (S.interface i).name typeKey) := by
  rw [decode_interface_eq, Variant.readTag, h]; rfl

theorem decode_interface_of_untagged {i : N.Interface} {x : Json}
    (h : m.get? typeKey = some x) (hx : x.kind ≠ .string) :
    S.decode (.interface i) (.obj m) =
      .fail (.kindMismatch (fieldPath (S.interface i).name typeKey) "string" x) := by
  rw [decode_interface_eq, Variant.readTag, h]
  cases x with
  | str s => exact absurd rfl hx
  | null | bool | num | arr | obj => rfl

theorem decode_interface_of_tag {i : N.Interface} {tag : String}
    (h : m.get? typeKey = some (.str tag)) :
    S.decode (.interface i) (.obj m) =
      (Traced.log (.dispatch (S.interface i).name tag) >>= fun _ => S.dispatch i tag m) := by
  rw [decode_interface_eq, Variant.readTag, h]; rfl

/-- A variant is dispatched to and decoded as its record. -/
theorem decode_interface_of_some {i : N.Interface} {tag : String}
    {v : Fin (S.interface i).variants.length} (h : m.get? typeKey = some (.str tag))
    (hv : (S.interface i).find? tag = some v) :
    S.decode (.interface i) (.obj m) =
      (Traced.log (.dispatch (S.interface i).name tag) >>= fun _ =>
        .variant i v <$> S.decodeFields ((S.interface i).variants.get v).record m) := by
  rw [decode_interface_of_tag h, dispatch]
  split
  · next h' =>
    rw [hv] at h'
    cases h'; rfl
  · next h' =>
    rw [hv] at h'
    cases h'

theorem decode_interface_of_none {i : N.Interface} {tag : String}
    (h : m.get? typeKey = some (.str tag)) (hv : (S.interface i).find? tag = none) :
    S.decode (.interface i) (.obj m) =
      (Traced.log (.dispatch (S.interface i).name tag) >>= fun _ =>
        Variant.unknownTag (S.interface i).name tag) := by
  rw [decode_interface_of_tag h, dispatch]
  split
  · next h' =>
    rw [hv] at h'
    cases h'
  · rfl

/-! ## Fields -/

/-- A field of a record, as decoding reads it. -/
def decodeField (S : Schema N) (owner : String) (f : Field N) (m : Mapping) :
    Traced (Value S f.valueType) :=
  readField f ⟨owner, m⟩ fun w _ => S.decode f.type w

theorem decodeFields_eq (i : N.Record) (m : Mapping) :
    S.decodeFields i m = Family.traverse fun k =>
      S.decodeField (S.record i).name ((S.record i).fields.get k) m := by
  rw [decodeFields]; rfl

variable {owner : String} {f : Field N}

/-- A field that is present is decoded by the type of its values, in which a
    `null` is an absent option. -/
theorem decodeField_of_get? (h : m.get? f.key = some w) :
    S.decodeField owner f m = (S.decode f.valueType w).locate (fieldPath owner f.key) := by
  obtain ⟨key, presence, type⟩ := f
  cases presence with
  | required => exact FieldReader.required_of_some (S.decode type) h
  | optional =>
    show Value.ofOption <$> FieldReader.optional _ _ _ = (S.decode (.option type) w).locate _
    by_cases hw : w = .null
    · subst hw
      rw [FieldReader.optional_of_null (S.decode type) h, decode_option_null]
      rfl
    · rw [FieldReader.optional_of_some (S.decode type) h hw, decode_option hw,
        ← Traced.map_locate, ← comp_map]
      rfl

theorem decodeField_of_required (hp : f.presence = .required) (h : m.get? f.key = none) :
    S.decodeField owner f m = .fail (.missingField owner f.key) := by
  obtain ⟨key, presence, type⟩ := f
  cases hp
  exact FieldReader.required_of_none (S.decode type) h

/-- An optional field that is absent is read as `null`. -/
theorem decodeField_of_optional (hp : f.presence = .optional) (h : m.get? f.key = none) :
    S.decodeField owner f m = S.decode f.valueType .null := by
  obtain ⟨key, presence, type⟩ := f
  cases hp
  show Value.ofOption <$> FieldReader.optional _ _ _ = S.decode (.option type) .null
  rw [FieldReader.optional_of_none (S.decode type) h, decode_option_null]
  rfl

theorem valueType_of_optional (hp : f.presence = .optional) : f.valueType = .option f.type := by
  rw [Field.valueType, hp]

/-- What is read for a field is its document, with the location of the field. -/
theorem decodeField_of_document (h : f.document? m = some w) :
    S.decodeField owner f m = (S.decode f.valueType w).locate (fieldPath owner f.key) := by
  rcases Field.document?_cases h with hm | ⟨hm, hp, rfl⟩
  · exact decodeField_of_get? hm
  · rw [decodeField_of_optional hp hm, valueType_of_optional hp, decode_option_null]
    rfl

theorem decodeField_of_document_none (h : f.document? m = none) :
    S.decodeField owner f m = .fail (.missingField owner f.key) := by
  obtain ⟨hm, hp⟩ := Field.document?_eq_none.1 h
  exact decodeField_of_required hp hm

/-- What a record asks of the entry with the key of a field. -/
theorem succeeds_decodeField :
    (S.decodeField owner f m).Succeeds ↔
      (f.presence = .required → m.get? f.key ≠ none) ∧
        ∀ x, m.get? f.key = some x → (S.decode f.valueType x).Succeeds := by
  cases h : m.get? f.key with
  | some x => simp [decodeField_of_get? h]
  | none =>
    cases hp : f.presence with
    | required => simp [decodeField_of_required hp h]
    | optional =>
      rw [decodeField_of_optional hp h, valueType_of_optional hp, decode_option_null]
      simp

end Schema

end WireForm
