/-
  WireForm — what is read is written, and read again.

  A document may say more than its value: it may have entries that no one
  declares, in any order, absent options spelled out, integers for floats.  All
  this is gone once the value is written: what is written then is read as the
  same value, and stays as it is.

  * `Value.Settled`: values whose leaves are written and come back, and with no
    present option that is written as `null`;
  * `Schema.settles`: decoding comes to settled values;
  * `Value.Settled.stable`: these are written and read back;
  * `Schema.encode_decode_stable`: both together.
-/
import WireForm.Proofs.Dispatch
import WireForm.Proofs.Finite
import WireForm.Proofs.RoundTrip

namespace WireForm

/-! ## Leaves -/

/-- The numbers of a document are finite as floats. -/
theorem Number.isFinite_toFloat (n : Number) : n.toFloat.isFinite = true := by
  cases n with
  | int n range => exact Binary.isFinite_ofInt range
  | float x finite => exact finite

namespace Leaf

variable {l : Leaf} {w : Json} {x : l.Carrier}

theorem encodeFloat_of_isFinite {x : Binary64} (h : x.isFinite = true) :
    encodeFloat x = .ok (.num (.float x h)) :=
  dif_pos h

theorem isFinite_of_decodeFloat32 {x : Binary32} (h : decodeFloat32 w = .ok x) :
    x.isFinite = true := by
  obtain ⟨y, -, h⟩ := Except.bind_eq_ok.1 h
  dsimp only at h
  split at h
  · next hy => cases h; exact hy
  · cases h

theorem isFinite_of_decodeFloat64 {x : Binary64} (h : readAs "number" Json.asFloat? w = .ok x) :
    x.isFinite = true := by
  rw [readAs_eq_ok] at h
  cases w with
  | num n => cases h; exact n.isFinite_toFloat
  | null | bool | str | arr | obj => cases h

/-- What is read is written, as `null` only if it was. -/
theorem written_of_decode (hl : ∀ s, l ≠ .foreign s) (h : (l.decode w).result = .ok x) :
    ∃ w', l.encode x = .ok w' ∧ (w' = .null → w = .null) := by
  cases l with
  | bool | string | int | bytes | datetime | discriminants => exact ⟨_, rfl, nofun⟩
  | float64 => exact ⟨_, encodeFloat_of_isFinite (isFinite_of_decodeFloat64 h), nofun⟩
  | float32 =>
    have hx := isFinite_of_decodeFloat32 h
    exact ⟨_, encodeFloat_of_isFinite ((Binary.isFinite_widen x).trans hx), nofun⟩
  | any => cases h; exact ⟨w, rfl, id⟩
  | enumeration e =>
    exact ⟨w, congrArg _ (Enumeration.encode_of_decode h), id⟩
  | foreign s => exact absurd rfl (hl s)

/-- What is read comes back, unless the leaf is opaque.  Members may share an
    ordinal: the one that is read first is read again. -/
theorem returns_of_decode (hl : ¬ l.Opaque) (h : (l.decode w).result = .ok x) : l.Returns x := by
  cases l with
  | enumeration e =>
    intro w' hw
    cases hw
    rw [Enumeration.encode_of_decode h]
    exact h
  | discriminants e =>
    intro w' hw
    cases hw
    rw [Discriminants.encode_of_decode h]
    exact h
  | bool | string | int | float64 | any | float32 | bytes | datetime | foreign =>
    refine returns_of_sound ?_ hl x
    trivial

end Leaf

variable {N : Names} {S : Schema N} {t : Ty N} {w : Json}

/-! ## Settled values -/

namespace Value

/-- The leaves of a value are written and come back, and no present option is
    written as `null`. -/
structure Settled (v : Value S t) : Prop where
  written : v.AllLeaves fun l x => ∃ w, l.encode x = .ok w
  returns : v.AllLeaves Leaf.Returns
  definite : v.Definite

/-- What is written as an array or an object is not written as `null`. -/
theorem isNull_eq_false {α : Type} {v : Value S t} {r : Except CodecError α} {g : α → Json}
    (h : v.encode = r.map g) (hg : ∀ a, g a ≠ .null) : v.isNull = false := by
  rw [Bool.eq_false_iff, ne_eq, isNull_iff, h, Except.map_eq_ok]
  rintro ⟨a, -, ha⟩
  exact hg a ha

end Value

namespace Schema

/-- What is read from the document is settled, and written as `null` only if
    the document is `null`. -/
def Settles (S : Schema N) (t : Ty N) (w : Json) : Prop :=
  ∀ v, (S.decode t w).result = .ok v → v.OpaqueReturn →
    v.Settled ∧ (w ≠ .null → v.isNull = false)

theorem settles_of_fail {e : CodecError} (h : S.decode t w = .fail e) : S.Settles t w := by
  intro v hv
  rw [h] at hv
  cases hv

theorem settles_leaf {l : Leaf} (hl : ∀ s, l ≠ .foreign s) (w : Json) : S.Settles (.leaf l) w := by
  intro v h hv
  rw [decode_leaf, Traced.result_map, Except.map_eq_ok] at h
  obtain ⟨x, h, rfl⟩ := h
  obtain ⟨w', hw', hnull⟩ := Leaf.written_of_decode hl h
  refine ⟨⟨⟨w', hw'⟩, ?_, trivial⟩, fun hw => ?_⟩
  · by_cases hop : l.Opaque
    · exact hv hop
    · exact Leaf.returns_of_decode hop h
  · rw [Bool.eq_false_iff, ne_eq, Value.isNull_iff]
    show ¬ l.encode x = _
    rw [hw']
    rintro ⟨⟩
    exact hw (hnull rfl)

theorem settles_null (t : Ty N) : S.Settles (.option t) .null := by
  intro v h _
  rw [decode_option_null] at h
  cases h
  exact ⟨⟨trivial, trivial, trivial⟩, fun hw => absurd rfl hw⟩

theorem settles_option (h : S.Settles t w) : S.Settles (.option t) w := by
  by_cases hw : w = .null
  · exact hw ▸ settles_null t
  · intro v hd hv
    rw [decode_option hw, Traced.result_map, Except.map_eq_ok] at hd
    obtain ⟨v, hd, rfl⟩ := hd
    obtain ⟨hs, hnull⟩ := h v hd hv
    exact ⟨⟨hs.written, hs.returns, hnull hw, hs.definite⟩, hnull⟩

theorem settles_box (h : S.Settles t w) : S.Settles (.box t) w := by
  intro v hd hv
  rw [decode_box, Traced.result_map, Except.map_eq_ok] at hd
  obtain ⟨v, hd, rfl⟩ := hd
  obtain ⟨hs, hnull⟩ := h v hd hv
  exact ⟨⟨hs.written, hs.returns, hs.definite⟩, hnull⟩

theorem settles_list (h : ∀ x ∈ w.children, S.Settles t x) : S.Settles (.list t) w := by
  by_cases hw : w.kind = .sequence
  · obtain ⟨xs, rfl⟩ := Json.kind_eq_sequence.1 hw
    intro v hd hv
    rw [decode_list, Traced.ok_map_traverse] at hd
    obtain ⟨ys, hys, rfl⟩ := hd
    have hs : ∀ k, (ys k).Settled := fun k => (h _ (List.get_mem _ k) _ (hys k) (hv k)).1
    exact ⟨⟨fun k => (hs k).written, fun k => (hs k).returns, fun k => (hs k).definite⟩,
      fun _ => Value.isNull_eq_false (Value.encode_list ys) nofun⟩
  · exact settles_of_fail (decode_list_of_kind t hw)

theorem settles_map (h : ∀ x ∈ w.children, S.Settles t x) : S.Settles (.map t) w := by
  by_cases hw : w.kind = .mapping
  · obtain ⟨m, rfl⟩ := Json.kind_eq_mapping.1 hw
    intro v hd hv
    rw [decode_map, Traced.ok_map_traverse] at hd
    obtain ⟨ys, hys, rfl⟩ := hd
    obtain ⟨keys, sorted, xs, hxs, hmem⟩ :=
      Value.exists_ofEntries (List.ofFn fun k => ((m.get k).1, ys k))
    rw [hxs] at hv ⊢
    have hs : ∀ i, (xs i).Settled := by
      intro i
      obtain ⟨e, he, hi⟩ := hmem i
      obtain ⟨k, rfl⟩ := List.mem_ofFn.1 he
      have hvi := hv i
      rw [hi] at hvi ⊢
      exact (h _ (Mapping.mem_children (List.get_mem _ k)) _ (hys k) hvi).1
    exact ⟨⟨fun k => (hs k).written, fun k => (hs k).returns, fun k => (hs k).definite⟩,
      fun _ => Value.isNull_eq_false (Value.encode_map sorted xs) nofun⟩
  · exact settles_of_fail (decode_map_of_kind t hw)

theorem settles_tuple {i : N.Tuple} (hi : (S.tuple i).Sound)
    (h : ∀ x ∈ w.children, ∀ t ∈ (S.tuple i).elements, S.Settles t x) :
    S.Settles (.tuple i) w := by
  by_cases hw : w.kind = .sequence
  · obtain ⟨xs, rfl⟩ := Json.kind_eq_sequence.1 hw
    by_cases hn : xs.length = (S.tuple i).arity
    · have hn' : (S.tuple i).elements.length = xs.length := by rw [hn, hi.arity]
      intro v hd hv
      rw [decode_tuple hi hn', Traced.ok_map_traverse] at hd
      obtain ⟨ys, hys, rfl⟩ := hd
      have hs : ∀ k, (ys k).Settled := by
        intro k
        have hk := hys k
        rw [Traced.result_locate, Except.mapError_eq_ok] at hk
        exact (h _ (List.get_mem _ _) _ (List.get_mem _ k) _ hk (hv k)).1
      exact ⟨⟨fun k => (hs k).written, fun k => (hs k).returns, fun k => (hs k).definite⟩,
        fun _ => Value.isNull_eq_false (Value.encode_tuple hi ys) nofun⟩
    · exact settles_of_fail (decode_tuple_of_length hn)
  · exact settles_of_fail (decode_tuple_of_kind i hw)

/-- What is read for a field is settled, also where there is nothing to read. -/
theorem settled_of_decodeField {owner : String} {f : Field N} {m : Mapping}
    (h : ∀ x, m.get? f.key = some x → S.Settles f.valueType x) {v : Value S f.valueType}
    (hd : (S.decodeField owner f m).result = .ok v) (hv : v.OpaqueReturn) : v.Settled := by
  cases hm : f.document? m with
  | none =>
    rw [decodeField_of_document_none hm] at hd
    cases hd
  | some x =>
    rw [decodeField_of_document hm, Traced.result_locate, Except.mapError_eq_ok] at hd
    rcases Field.document?_cases hm with hm | ⟨-, hp, rfl⟩
    · exact (h x hm v hd hv).1
    · have hnull : S.Settles f.valueType .null := valueType_of_optional hp ▸ settles_null f.type
      exact (hnull v hd hv).1

theorem settles_record {i : N.Record} (hi : (S.record i).Writable)
    (h : ∀ x ∈ w.children, ∀ f ∈ (S.record i).fields, S.Settles f.valueType x) :
    S.Settles (.record i) w := by
  by_cases hw : w.kind = .mapping
  · obtain ⟨m, rfl⟩ := Json.kind_eq_mapping.1 hw
    intro v hd hv
    rw [decode_record, decodeFields_eq, Traced.ok_map_traverse] at hd
    obtain ⟨ys, hys, rfl⟩ := hd
    have hs : ∀ k, (ys k).Settled := fun k => settled_of_decodeField
      (fun x hx => h x (Mapping.mem_children (Mapping.mem_of_get? hx)) _ (List.get_mem _ k))
      (hys k) (hv k)
    exact ⟨⟨fun k => (hs k).written, fun k => (hs k).returns, fun k => (hs k).definite⟩,
      fun _ => Value.isNull_eq_false (Value.encode_record hi ys) nofun⟩
  · exact settles_of_fail (decode_record_of_kind i hw)

/-- A variant is settled as its record is. -/
theorem settles_interface {i : N.Interface} (hi : (S.interface i).Sound)
    (hr : ∀ v ∈ (S.interface i).variants, (S.record v.record).Writable ∧
      typeKey ∉ (S.record v.record).keys)
    (h : ∀ v ∈ (S.interface i).variants, S.Settles (.record v.record) w) :
    S.Settles (.interface i) w := by
  intro v hd hv
  cases v with
  | variant i v ys =>
    obtain ⟨⟨m, rfl, -⟩, hd⟩ := (decode_interface_eq_ok hi).1 hd
    have hmem := List.get_mem _ v
    have hrec : (S.decode (.record _) (.obj m)).result = .ok (.record _ ys) := by
      rw [decode_record, Traced.result_map, Except.map_eq_ok]
      exact ⟨ys, hd, rfl⟩
    obtain ⟨hs, -⟩ := h _ hmem _ hrec hv
    exact ⟨⟨hs.written, hs.returns, hs.definite⟩, fun _ =>
      Value.isNull_eq_false (Value.encode_variant (hr _ hmem).1 (hr _ hmem).2 ys) nofun⟩

/-- Decoding comes to settled values. -/
theorem settles (ht : S.Everywhere S.Regular t) (hf : S.ForeignFree t) (w : Json) :
    S.Settles t w := by
  induction t, w using Schema.induction with
  | leaf l w => exact settles_leaf (fun s hs => hf.here s (congrArg Ty.leaf hs)) w
  | option t w ih => exact settles_option (ih (ht.part (.option t)) (hf.part (.option t)))
  | box t w ih => exact settles_box (ih (ht.part (.box t)) (hf.part (.box t)))
  | list t w ih =>
    exact settles_list fun x hx => ih x hx (ht.part (.list t)) (hf.part (.list t))
  | map t w ih => exact settles_map fun x hx => ih x hx (ht.part (.map t)) (hf.part (.map t))
  | tuple i w ih =>
    exact settles_tuple ht.here fun x hx t ht' =>
      ih x hx t (ht.part (.element i ht')) (hf.part (.element i ht'))
  | record i w ih =>
    exact settles_record ht.here.toWritable fun x hx f hf' =>
      ih x hx _ (ht.part (.field i hf')) (hf.part (.field i hf'))
  | interface i w ih =>
    have hr := fun v hv => (ht.part (Part.variant i (v := v) hv)).here
    exact settles_interface ht.here.1 (fun v hv => ⟨(hr v hv).toWritable, ht.here.2 v hv⟩)
      fun v hv => ih v.record (ht.part (.variant i hv)) (hf.part (.variant i hv))

end Schema

/-! ## Settled values return -/

namespace Value

/-- A value is written if its leaves are. -/
theorem exists_encode (ht : S.Everywhere S.Writable t) {v : Value S t}
    (h : v.AllLeaves fun l x => ∃ w, l.encode x = .ok w) : ∃ w, v.encode = .ok w := by
  induction v with
  | leaf x => exact h
  | none => exact ⟨_, rfl⟩
  | @some t v ih => exact ih (ht.part (.option t)) h
  | @box t v ih => exact ih (ht.part (.box t)) h
  | @list t n xs ih =>
    rw [encode_list, Except.exists_map_eq_ok, Family.exists_traverse_iff]
    exact fun k => ih k (ht.part (.list t)) (h k)
  | @map t keys sorted xs ih =>
    rw [encode_map, Except.exists_map_eq_ok, Family.exists_traverse_iff]
    exact fun k => ih k (ht.part (.map t)) (h k)
  | tuple i xs ih =>
    rw [encode_tuple ht.here, Except.exists_map_eq_ok, Family.exists_traverse_iff]
    simp only [Except.mapError_eq_ok]
    exact fun k => ih k (ht.part (.element_get k)) (h k)
  | record i xs ih =>
    rw [encode_record ht.here, Except.exists_map_eq_ok, Family.exists_traverse_iff]
    simp only [Schema.encodeField, Except.mapError_eq_ok]
    exact fun k => ih _ (ht.part (.field_get _)) (h ((S.record i).writes.get k))
  | variant i v xs ih =>
    have hr := ht.part (.variant_get v)
    rw [encode_variant hr.here (ht.here _ (List.get_mem _ v)), Except.exists_map_eq_ok,
      Family.exists_traverse_iff]
    simp only [Schema.encodeField, Except.mapError_eq_ok]
    exact fun k => ih _ (hr.part (.field_get _)) (h ((S.record _).writes.get k))

/-- A value is read back if its leaves are. -/
theorem readBack_of_leaves (ht : S.Everywhere S.Regular t) {v : Value S t}
    (h : v.AllLeaves Leaf.Returns) : v.ReadBack := by
  induction v with
  | leaf x => exact readBack_leaf h
  | none => exact readBack_none
  | @some t v ih => exact readBack_some (ih (ht.part (.option t)) h)
  | @box t v ih => exact readBack_box (ih (ht.part (.box t)) h)
  | @list t n xs ih => exact readBack_list fun k => ih k (ht.part (.list t)) (h k)
  | @map t keys sorted xs ih => exact readBack_map fun k => ih k (ht.part (.map t)) (h k)
  | tuple i xs ih => exact readBack_tuple ht.here fun k => ih k (ht.part (.element_get k)) (h k)
  | record i xs ih => exact readBack_record ht.here fun k => ih k (ht.part (.field_get k)) (h k)
  | variant i v xs ih =>
    have hr := ht.part (.variant_get v)
    exact readBack_variant ht.here.1 hr.here (ht.here.2 _ (List.get_mem _ v)) fun k =>
      ih k (hr.part (.field_get k)) (h k)

/-- A settled value is written and read back as it was. -/
theorem Settled.stable (ht : S.Everywhere S.Regular t) {v : Value S t} (hv : v.Settled) :
    ∃ w, v.encode = .ok w ∧ (S.decode t w).result = .ok v := by
  obtain ⟨w, hw⟩ := exists_encode (ht.mono fun _ => Schema.Regular.writable) hv.written
  have hread := readBack_of_leaves ht hv.returns w hw
  rw [normalise_of_definite hv.definite] at hread
  exact ⟨w, hw, hread⟩

end Value

namespace Schema

/-- **What is read is written, and then stays as it is**: it is read as the same
    value again, which is written as the same document. -/
theorem encode_decode_stable (ht : S.Everywhere S.Regular t) (hf : S.ForeignFree t)
    {v : Value S t} (h : (S.decode t w).result = .ok v) (hv : v.OpaqueReturn) :
    ∃ w', v.encode = .ok w' ∧ (S.decode t w').result = .ok v ∧
      ∀ v', (S.decode t w').result = .ok v' → v'.encode = .ok w' := by
  obtain ⟨w', hw', hread⟩ := (settles ht hf w v h hv).1.stable ht
  refine ⟨w', hw', hread, fun v' hv' => ?_⟩
  rw [hread] at hv'
  cases hv'
  exact hw'

end Schema

namespace Catalogue

/-- A group of one square.  Its label is absent and spelled out, the square's
    side is an integer, and the discriminants come last. -/
def blueGroup : Json :=
  .obj [("label", .null), ("members", .arr [blueSquare]), ("name", .str "blue"), ("size", .null),
    ("type", .str "group")]

/-- The group that is read from `blueGroup`. -/
def squareGroup : Value schema (.interface .shape) :=
  group "blue" .none 1 fun _ => .variant (S := schema) InterfaceName.shape ⟨1, by decide⟩ square

theorem decode_blueSquare : (schema.decode (.interface .shape) blueSquare).result =
    .ok (.variant (S := schema) InterfaceName.shape ⟨1, by decide⟩ square) :=
  (Schema.decode_interface_eq_ok shape_sound.here.1).2
    ⟨⟨_, rfl, rfl⟩, decodeRecord_blueSquare⟩

theorem decode_blueGroup :
    (schema.decode (.interface .shape) blueGroup).result = .ok squareGroup := by
  refine (Schema.decode_interface_eq_ok shape_sound.here.1).2 ⟨⟨_, rfl, rfl⟩, ?_⟩
  show (schema.decodeFields .group _).result = _
  rw [Schema.decodeFields_eq, Family.result_traverse]
  refine Family.traverse_eq_ok.2 ?_
  rintro ⟨_ | _ | _ | k, hk⟩
  · rw [Schema.decodeField_of_get? rfl]
    show ((schema.decode (.leaf .string) _).locate _).result = _
    rw [Schema.decode_leaf]
    rfl
  · rw [Schema.decodeField_of_get? rfl]
    show ((schema.decode (.option string) .null).locate _).result = _
    rw [Schema.decode_option_null]
    rfl
  · rw [Schema.decodeField_of_get? rfl]
    refine Except.mapError_eq_ok.2 ?_
    show (schema.decode (.list (.interface .shape)) (.arr [blueSquare])).result = .ok _
    rw [Schema.decode_list]
    refine Traced.ok_map_traverse.2 ⟨fun _ => _, Fin.forall_fin_one.2 decode_blueSquare, rfl⟩
  · change k + 3 < 3 at hk
    omega

theorem opaqueReturn_squareGroup : squareGroup.OpaqueReturn :=
  opaqueReturn_group trivial fun _ => Fin.forall_fin_two.2 ⟨fun h => h.elim, fun h => h.elim⟩

theorem encode_decode_stable_blueGroup :
    schema.Everywhere schema.Regular (.interface .shape) ∧
      schema.ForeignFree (.interface .shape) ∧
      (schema.decode (.interface .shape) blueGroup).result = .ok squareGroup ∧
      squareGroup.OpaqueReturn ∧
      ∃ w, squareGroup.encode = .ok w ∧ (schema.decode (.interface .shape) w).result =
        .ok squareGroup := by
  have hs := shape_sound.mono fun _ => Schema.Sound.regular
  obtain ⟨w, hw, hread, -⟩ := Schema.encode_decode_stable hs shape_foreignFree decode_blueGroup
    opaqueReturn_squareGroup
  exact ⟨hs, shape_foreignFree, decode_blueGroup, opaqueReturn_squareGroup, w, hw, hread⟩

end Catalogue

end WireForm
