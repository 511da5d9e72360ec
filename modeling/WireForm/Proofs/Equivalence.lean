/-
  WireForm — documents that decoding cannot tell apart.

  Decoding sees a document through its type alone: entries that a declaration
  does not name, the order of entries, and the difference between `null` and
  nothing under the key of an optional field are invisible.

  * `Schema.Equivalent`: two documents differ in nothing that a type looks at;
  * `Agree`: results that agree in their values, and where asked in their errors;
  * `Schema.decode_equivalent`: equivalent documents decode alike.
-/
import Mathlib.Tactic.Choose
import WireForm.Proofs.Decoding
import WireForm.Proofs.Entries

namespace WireForm

/-! ## Results that agree -/

/-- Two results have the same value, if any, and on a condition they are the
    same. -/
structure Agree {ε α : Type} (E : Prop) (r r' : Except ε α) : Prop where
  ok : ∀ a, r = .ok a ↔ r' = .ok a
  eq : E → r = r'

namespace Agree

variable {ε ε' α β : Type} {E E' : Prop} {r r' : Except ε α}

theorem of_eq (h : r = r') : Agree E r r' := ⟨fun a => by rw [h], fun _ => h⟩

theorem imp (h : Agree E r r') (hE : E' → E) : Agree E' r r' := ⟨h.ok, fun he => h.eq (hE he)⟩

theorem map (h : Agree E r r') (g : α → β) : Agree E (r.map g) (r'.map g) := by
  refine ⟨fun b => ?_, fun he => by rw [h.eq he]⟩
  simp only [Except.map_eq_ok, h.ok]

theorem of_map {g : α → β} (hg : Function.Injective g) (h : Agree E (r.map g) (r'.map g)) :
    Agree E r r' := by
  have hmap : ∀ (r : Except ε α) a, r.map g = .ok (g a) ↔ r = .ok a := by
    intro r a
    rw [Except.map_eq_ok]
    exact ⟨fun ⟨a', h, ha⟩ => hg ha ▸ h, fun h => ⟨a, h, rfl⟩⟩
  refine ⟨fun a => by rw [← hmap r, ← hmap r', h.ok], fun he => ?_⟩
  have heq := h.eq he
  cases r <;> cases r' <;> simp_all [Except.map]
  exact hg heq

theorem mapError (h : Agree E r r') (g : ε → ε') : Agree E (r.mapError g) (r'.mapError g) := by
  refine ⟨fun a => ?_, fun he => by rw [h.eq he]⟩
  simp only [Except.mapError_eq_ok, h.ok]

theorem traverse {n : Nat} {β : Fin n → Type} {x y : ∀ k, Except ε (β k)}
    (h : ∀ k, Agree E (x k) (y k)) : Agree E (Family.traverse x) (Family.traverse y) := by
  refine ⟨fun a => ?_, fun he => by rw [funext fun k => (h k).eq he]⟩
  simp only [Family.traverse_eq_ok, (h _).ok]

end Agree

/-! ## Equivalent documents -/

variable {N : Names}

namespace Schema

/-- Two documents are equivalent for a type. -/
inductive Equivalent (S : Schema N) : Ty N → Json → Json → Prop
  | refl (t : Ty N) (w : Json) : Equivalent S t w w
  | option {t : Ty N} {w w' : Json} : Equivalent S t w w' → Equivalent S (.option t) w w'
  | box {t : Ty N} {w w' : Json} : Equivalent S t w w' → Equivalent S (.box t) w w'
  | list {t : Ty N} {xs xs' : List Json} (hn : xs.length = xs'.length) :
      (∀ k : Fin xs.length, Equivalent S t (xs.get k) (xs'.get (k.cast hn))) →
      Equivalent S (.list t) (.arr xs) (.arr xs')
  | map {t : Ty N} {m m' : Mapping} : m.keys.Nodup → m'.keys.Nodup → m.keys.Perm m'.keys →
      (∀ key x x', m.get? key = some x → m'.get? key = some x' → Equivalent S t x x') →
      Equivalent S (.map t) (.obj m) (.obj m')
  | tuple {i : N.Tuple} {xs xs' : List Json} (hn : xs.length = (S.tuple i).arity)
      (hn' : xs'.length = (S.tuple i).arity) :
      (∀ (k : Fin (S.tuple i).elements.length) x x', xs[k.val]? = some x → xs'[k.val]? = some x' →
        Equivalent S ((S.tuple i).elements.get k) x x') →
      Equivalent S (.tuple i) (.arr xs) (.arr xs')
  | record {i : N.Record} {m m' : Mapping} :
      (∀ f ∈ (S.record i).fields, ∀ x x', m.get? f.key = some x → m'.get? f.key = some x' →
        Equivalent S f.valueType x x') →
      (∀ f ∈ (S.record i).fields, m.get? f.key = none →
        m'.get? f.key = none ∨ f.presence = .optional ∧ m'.get? f.key = some .null) →
      (∀ f ∈ (S.record i).fields, m'.get? f.key = none →
        m.get? f.key = none ∨ f.presence = .optional ∧ m.get? f.key = some .null) →
      Equivalent S (.record i) (.obj m) (.obj m')
  | interface {i : N.Interface} {m m' : Mapping} : m.get? typeKey = m'.get? typeKey →
      (∀ tag v, m.get? typeKey = some (.str tag) → (S.interface i).find? tag = some v →
        Equivalent S (.record ((S.interface i).variants.get v).record) (.obj m) (.obj m')) →
      Equivalent S (.interface i) (.obj m) (.obj m')

variable {S : Schema N} {t : Ty N} {w w' : Json}

/-- Only `null` is equivalent to `null`. -/
theorem Equivalent.null_iff (h : S.Equivalent t w w') : w = .null ↔ w' = .null := by
  induction h with
  | refl => rfl
  | option _ ih | box _ ih => exact ih
  | list | map | tuple | record | interface => exact ⟨nofun, nofun⟩

/-- No map is reached from the type. -/
def MapFree (S : Schema N) (t : Ty N) : Prop := S.Everywhere (fun u => ∀ t', u ≠ .map t') t

/-- Decoding comes to the same for two documents, and even to the same error if
    there are no maps. -/
def Alike (S : Schema N) (t : Ty N) (w w' : Json) : Prop :=
  Agree (S.MapFree t) (S.decode t w).result (S.decode t w').result

theorem alike_option (hnull : w = .null ↔ w' = .null) (h : S.Alike t w w') :
    S.Alike (.option t) w w' := by
  by_cases hw : w = .null
  · rw [hw, hnull.1 hw]
    exact .of_eq rfl
  · rw [Alike, decode_option hw, decode_option fun h => hw (hnull.2 h), Traced.result_map,
      Traced.result_map]
    exact (h.imp fun hf => hf.part (.option t)).map _

theorem alike_box (h : S.Alike t w w') : S.Alike (.box t) w w' := by
  rw [Alike, decode_box, decode_box, Traced.result_map, Traced.result_map]
  exact (h.imp fun hf => hf.part (.box t)).map _

theorem alike_list {xs xs' : List Json} (hn : xs.length = xs'.length)
    (h : ∀ k : Fin xs.length, S.Alike t (xs.get k) (xs'.get (k.cast hn))) :
    S.Alike (.list t) (.arr xs) (.arr xs') := by
  rw [Alike, decode_list, decode_list_of_length t hn, Traced.result_map, Traced.result_map,
    Family.result_traverse, Family.result_traverse]
  exact (Agree.traverse fun k => (h k).imp fun hf => hf.part (.list t)).map _

/-- A map is decoded from other entries with the same keys and contents, in
    whatever order. -/
theorem decode_map_ok {m m' : Mapping} (hm : m.keys.Nodup) (hm' : m'.keys.Nodup)
    (hk : m.keys.Perm m'.keys)
    (h : ∀ key x x' a, (key, x) ∈ m → (key, x') ∈ m' → (S.decode t x).result = .ok a →
      (S.decode t x').result = .ok a) {v : Value S (.map t)}
    (hv : (S.decode (.map t) (.obj m)).result = .ok v) :
    (S.decode (.map t) (.obj m')).result = .ok v := by
  rw [decode_map, Traced.ok_map_traverse] at hv ⊢
  obtain ⟨ys, hys, rfl⟩ := hv
  have hplace := fun k' => Mapping.exists_get (hk.mem_iff.2 (Mapping.get_mem_keys m' k'))
  choose place hplace using hplace
  refine ⟨fun k' => ys (place k'), fun k' => ?_, ?_⟩
  · refine h (m'.get k').1 (m.get (place k')).2 _ _ ?_ (List.get_mem _ k') (hys (place k'))
    rw [← hplace k']
    exact List.get_mem _ (place k')
  · have hnodup := Mapping.keys_ofFn m ys ▸ hm
    have hnodup' := Mapping.keys_ofFn m' (fun k' => ys (place k')) ▸ hm'
    refine Value.ofEntries_perm hnodup'
      ((List.perm_ext_iff_of_nodup hnodup'.of_map hnodup.of_map).2 fun e => ?_)
    simp only [List.mem_ofFn]
    constructor
    · rintro ⟨k', rfl⟩
      exact ⟨place k', by rw [hplace k']⟩
    · rintro ⟨k, rfl⟩
      obtain ⟨k', hk'⟩ := Mapping.exists_get (hk.mem_iff.1 (Mapping.get_mem_keys m k))
      have hkk : place k' = k := Mapping.key_injective hm ((hplace k').trans hk')
      exact ⟨k', by rw [hkk, hk']⟩

theorem alike_map {m m' : Mapping} (hm : m.keys.Nodup) (hm' : m'.keys.Nodup)
    (hk : m.keys.Perm m'.keys)
    (h : ∀ key x x', m.get? key = some x → m'.get? key = some x' → S.Alike t x x') :
    S.Alike (.map t) (.obj m) (.obj m') := by
  refine ⟨fun v => ⟨decode_map_ok hm hm' hk fun key x x' a hx hx' => ?_,
    decode_map_ok hm' hm hk.symm fun key x' x a hx' hx => ?_⟩, fun hf => absurd rfl (hf.here t)⟩
  · exact ((h key x x' ((Mapping.get?_eq_some hm).2 hx) ((Mapping.get?_eq_some hm').2 hx')).ok a).1
  · exact ((h key x x' ((Mapping.get?_eq_some hm).2 hx) ((Mapping.get?_eq_some hm').2 hx')).ok a).2

theorem alike_tuple {i : N.Tuple} (hi : (S.tuple i).Sound) {xs xs' : List Json}
    (hn : xs.length = (S.tuple i).arity) (hn' : xs'.length = (S.tuple i).arity)
    (h : ∀ (k : Fin (S.tuple i).elements.length) x x', xs[k.val]? = some x →
      xs'[k.val]? = some x' → S.Alike ((S.tuple i).elements.get k) x x') :
    S.Alike (.tuple i) (.arr xs) (.arr xs') := by
  have hx : (S.tuple i).elements.length = xs.length := by rw [hn, hi.arity]
  have hx' : (S.tuple i).elements.length = xs'.length := by rw [hn', hi.arity]
  rw [Alike, decode_tuple hi hx, decode_tuple hi hx', Traced.result_map, Traced.result_map,
    Family.result_traverse, Family.result_traverse]
  refine (Agree.traverse fun k => ?_).map _
  have hk : S.Alike ((S.tuple i).elements.get k) (xs.get (k.cast hx)) (xs'.get (k.cast hx')) :=
    h k _ _ (by simp) (by simp)
  exact (hk.imp fun hf => hf.part (.element_get k)).mapError _

/-- A field is read alike from entries that are alike, and an optional one also
    from `null` and nothing. -/
theorem agree_decodeField {E : Prop} {owner : String} {f : Field N} {m m' : Mapping}
    (h : ∀ x x', m.get? f.key = some x → m'.get? f.key = some x' →
      Agree E (S.decode f.valueType x).result (S.decode f.valueType x').result)
    (hnone : m.get? f.key = none →
      m'.get? f.key = none ∨ f.presence = .optional ∧ m'.get? f.key = some .null)
    (hnone' : m'.get? f.key = none →
      m.get? f.key = none ∨ f.presence = .optional ∧ m.get? f.key = some .null) :
    Agree E (S.decodeField owner f m).result (S.decodeField owner f m').result := by
  -- `null` and nothing under the key of an optional field are both none
  have hnull : ∀ {m : Mapping}, f.presence = .optional →
      m.get? f.key = none ∨ m.get? f.key = some .null →
      (S.decodeField owner f m).result = (S.decode f.valueType .null).result := by
    rintro m hp (hm | hm)
    · rw [decodeField_of_optional hp hm]
    · rw [decodeField_of_get? hm, valueType_of_optional hp, decode_option_null]
      rfl
  cases hm : m.get? f.key with
  | some x =>
    cases hm' : m'.get? f.key with
    | some x' =>
      rw [decodeField_of_get? hm, decodeField_of_get? hm']
      exact (h x x' hm hm').mapError _
    | none =>
      rcases hnone' hm' with h' | ⟨hp, h'⟩
      · rw [hm] at h'; cases h'
      · exact .of_eq (by rw [hnull hp (Or.inr h'), hnull hp (Or.inl hm')])
  | none =>
    rcases hnone hm with hm' | ⟨hp, hm'⟩
    · cases hp : f.presence with
      | required =>
        exact .of_eq (by rw [decodeField_of_required hp hm, decodeField_of_required hp hm'])
      | optional => exact .of_eq (by rw [hnull hp (Or.inl hm), hnull hp (Or.inl hm')])
    · exact .of_eq (by rw [hnull hp (Or.inl hm), hnull hp (Or.inr hm')])

theorem alike_record {i : N.Record} {m m' : Mapping}
    (h : ∀ f ∈ (S.record i).fields, ∀ x x', m.get? f.key = some x → m'.get? f.key = some x' →
      S.Alike f.valueType x x')
    (hnone : ∀ f ∈ (S.record i).fields, m.get? f.key = none →
      m'.get? f.key = none ∨ f.presence = .optional ∧ m'.get? f.key = some .null)
    (hnone' : ∀ f ∈ (S.record i).fields, m'.get? f.key = none →
      m.get? f.key = none ∨ f.presence = .optional ∧ m.get? f.key = some .null) :
    S.Alike (.record i) (.obj m) (.obj m') := by
  rw [Alike, decode_record, decode_record, Traced.result_map, Traced.result_map, decodeFields_eq,
    decodeFields_eq, Family.result_traverse, Family.result_traverse]
  refine (Agree.traverse fun k => ?_).map _
  have hmem := List.get_mem _ k
  refine agree_decodeField (fun x x' hx hx' => ?_) (hnone _ hmem) (hnone' _ hmem)
  exact (h _ hmem x x' hx hx').imp fun hf => hf.part (.field i hmem)

theorem alike_interface {i : N.Interface} {m m' : Mapping}
    (htype : m.get? typeKey = m'.get? typeKey)
    (h : ∀ tag v, m.get? typeKey = some (.str tag) → (S.interface i).find? tag = some v →
      S.Alike (.record ((S.interface i).variants.get v).record) (.obj m) (.obj m')) :
    S.Alike (.interface i) (.obj m) (.obj m') := by
  cases hm : m.get? typeKey with
  | none =>
    refine .of_eq ?_
    rw [decode_interface_of_missing hm, decode_interface_of_missing (htype ▸ hm)]
  | some x =>
    by_cases hx : x.kind = .string
    · obtain ⟨tag, rfl⟩ := Json.kind_eq_string.1 hx
      cases hv : (S.interface i).find? tag with
      | none =>
        refine .of_eq ?_
        rw [decode_interface_of_none hm hv, decode_interface_of_none (htype ▸ hm) hv]
      | some v =>
        have hrec := h tag v hm hv
        rw [Alike, decode_record, decode_record, Traced.result_map, Traced.result_map] at hrec
        have hfields := hrec.of_map fun xs ys hxy => by cases hxy; rfl
        rw [Alike, decode_interface_of_some hm hv, decode_interface_of_some (htype ▸ hm) hv,
          Traced.result_log_bind, Traced.result_log_bind, Traced.result_map, Traced.result_map]
        exact (hfields.imp fun hf => hf.part (.variant_get v)).map _
    · refine .of_eq ?_
      rw [decode_interface_of_untagged hm hx, decode_interface_of_untagged (htype ▸ hm) hx]

/-- **Decoding sees a document through its type alone.** -/
theorem decode_equivalent (ht : S.Everywhere S.Exact t) (h : S.Equivalent t w w') :
    (∀ v, (S.decode t w).result = .ok v ↔ (S.decode t w').result = .ok v) ∧
    (S.MapFree t →
      ∀ e, (S.decode t w).result = .error e ↔ (S.decode t w').result = .error e) := by
  suffices halike : S.Alike t w w' from ⟨halike.ok, fun hf e => by rw [halike.eq hf]⟩
  induction h with
  | refl t w => exact .of_eq rfl
  | @option t _ _ h ih => exact alike_option h.null_iff (ih (ht.part (.option t)))
  | @box t _ _ _ ih => exact alike_box (ih (ht.part (.box t)))
  | @list t _ _ hn _ ih => exact alike_list hn fun k => ih k (ht.part (.list t))
  | @map t _ _ hm hm' hk _ ih =>
    exact alike_map hm hm' hk fun key x x' hx hx' => ih key x x' hx hx' (ht.part (.map t))
  | @tuple i _ _ hn hn' _ ih =>
    exact alike_tuple ht.here hn hn' fun k x x' hx hx' =>
      ih k x x' hx hx' (ht.part (.element_get k))
  | @record i _ _ _ hnone hnone' ih =>
    exact alike_record (fun f hf x x' hx hx' => ih f hf x x' hx hx' (ht.part (.field i hf)))
      hnone hnone'
  | @interface i _ _ htype _ ih =>
    exact alike_interface htype fun tag v hm hv =>
      ih tag v hm hv (ht.part (.variant_get v))

end Schema

namespace Catalogue

theorem shape_mapFree : schema.MapFree (.interface .shape) :=
  everywhere_shape (by simp [shapeTypes, float64, string, enum])

/-- A group whose label is `null`. -/
def nullGroup : Json :=
  .obj [("type", .str "group"), ("name", .str "empty"), ("label", .null), ("members", .arr [])]

/-- The group without a label, in another order and with a note. -/
def notedGroup : Json :=
  .obj [("members", .arr []), ("note", .bool true), ("name", .str "empty"), ("type", .str "group")]

theorem equivalent_notedGroup :
    schema.Equivalent (.interface .shape) nullGroup notedGroup := by
  refine .interface rfl ?_
  rintro tag v ⟨⟩ hv
  obtain rfl : ⟨2, by decide⟩ = v := Option.some.inj hv
  refine .record ?_ ?_ ?_
  · refine List.forall_mem_cons.2 ⟨?_, List.forall_mem_cons.2 ⟨?_, List.forall_mem_singleton.2 ?_⟩⟩
    · rintro _ _ ⟨⟩ ⟨⟩
      exact .refl _ _
    · rintro _ _ ⟨⟩ ⟨⟩
    · rintro _ _ ⟨⟩ ⟨⟩
      exact .refl _ _
  · exact List.forall_mem_cons.2 ⟨nofun, List.forall_mem_cons.2 ⟨nofun,
      List.forall_mem_singleton.2 nofun⟩⟩
  · exact List.forall_mem_cons.2 ⟨nofun, List.forall_mem_cons.2 ⟨fun _ => Or.inr ⟨rfl, rfl⟩,
      List.forall_mem_singleton.2 nofun⟩⟩

theorem decode_equivalent_notedGroup :
    schema.Everywhere schema.Exact (.interface .shape) ∧
      schema.Equivalent (.interface .shape) nullGroup notedGroup ∧
      (∀ v, (schema.decode (.interface .shape) nullGroup).result = .ok v ↔
        (schema.decode (.interface .shape) notedGroup).result = .ok v) ∧
      ∀ e, (schema.decode (.interface .shape) nullGroup).result = .error e ↔
        (schema.decode (.interface .shape) notedGroup).result = .error e := by
  have hs := shape_sound.mono fun _ h => (Schema.Sound.readable h).exact
  have h := Schema.decode_equivalent hs equivalent_notedGroup
  exact ⟨hs, equivalent_notedGroup, h.1, h.2 shape_mapFree⟩

end Catalogue

end WireForm
