/-
  WireForm — from a value to its document and back.

  A value that is written under sound declarations is read back, but for one
  thing: a present option whose content is written as `null` is read as absent.

  * `Value.normalise`: the value that is read back, mostly the value itself
    (`Value.normalise_of_definite`);
  * `Value.readBack_list`, `Value.readBack_record`, …: what reading back asks of
    the parts of a value;
  * `Value.decode_eq_normalise`: the round trip.
-/
import WireForm.Proofs.Decoding
import WireForm.Proofs.Leaf
import WireForm.Proofs.Writing

namespace WireForm

variable {N : Names}

namespace Value

variable {S : Schema N} {t : Ty N}

/-! ## What comes back -/

/-- The value is written as `null`. -/
def isNull (v : Value S t) : Bool :=
  match v.encode with
  | .ok .null => true
  | _ => false

/-- The value that is read back: a present option that is written as `null` is
    absent. -/
def normalise : {t : Ty N} → Value S t → Value S t
  | _, leaf x => leaf x
  | _, none => none
  | _, some v => if v.isNull then none else some v.normalise
  | _, box v => box v.normalise
  | _, list n xs => list n fun k => (xs k).normalise
  | _, map keys sorted xs => map keys sorted fun k => (xs k).normalise
  | _, tuple i xs => tuple i fun k => (xs k).normalise
  | _, record i xs => record i fun k => (xs k).normalise
  | _, variant i v xs => variant i v fun k => (xs k).normalise

/-- No present option is written as `null`. -/
def Definite : {t : Ty N} → Value S t → Prop
  | _, leaf _ => True
  | _, none => True
  | _, some v => v.isNull = false ∧ v.Definite
  | _, box v => v.Definite
  | _, list _ xs => ∀ k, (xs k).Definite
  | _, map _ _ xs => ∀ k, (xs k).Definite
  | _, tuple _ xs => ∀ k, (xs k).Definite
  | _, record _ xs => ∀ k, (xs k).Definite
  | _, variant _ _ xs => ∀ k, (xs k).Definite

/-- Such a value is read back as it was. -/
theorem normalise_of_definite {v : Value S t} (h : v.Definite) : v.normalise = v := by
  induction v with
  | leaf | none => rfl
  | some v ih => rw [normalise, if_neg (by simp [h.1]), ih h.2]
  | box v ih => rw [normalise, ih h]
  | list n xs ih => exact congrArg (list n) (funext fun k => ih k (h k))
  | map keys sorted xs ih => exact congrArg (map keys sorted) (funext fun k => ih k (h k))
  | tuple i xs ih => exact congrArg (tuple i) (funext fun k => ih k (h k))
  | record i xs ih => exact congrArg (record i) (funext fun k => ih k (h k))
  | variant i v xs ih => exact congrArg (variant i v) (funext fun k => ih k (h k))

/-- Something holds of all leaves of a value. -/
def AllLeaves (P : (l : Leaf) → l.Carrier → Prop) : {t : Ty N} → Value S t → Prop
  | _, @leaf _ _ l x => P l x
  | _, none => True
  | _, some v => v.AllLeaves P
  | _, box v => v.AllLeaves P
  | _, list _ xs => ∀ k, (xs k).AllLeaves P
  | _, map _ _ xs => ∀ k, (xs k).AllLeaves P
  | _, tuple _ xs => ∀ k, (xs k).AllLeaves P
  | _, record _ xs => ∀ k, (xs k).AllLeaves P
  | _, variant _ _ xs => ∀ k, (xs k).AllLeaves P

/-- The opaque leaves of a value come back by themselves. -/
def OpaqueReturn (v : Value S t) : Prop :=
  v.AllLeaves fun l x => l.Opaque → l.Returns x

theorem isNull_iff {v : Value S t} : v.isNull = true ↔ v.encode = .ok .null := by
  unfold isNull
  split
  · next h => exact ⟨fun _ => h, fun _ => rfl⟩
  · next h => exact ⟨fun h' => (by cases h'), fun h' => absurd h' h⟩

end Value

namespace Schema

variable {S : Schema N} {t : Ty N} {w : Json}

/-! ## Documents as they are written -/

theorem decode_list_ofFn (t : Ty N) {n : Nat} (ws : Fin n → Json) :
    S.decode (.list t) (.arr (List.ofFn ws)) =
      .list n <$> Family.traverse fun k => S.decode t (ws k) := by
  rw [decode_list_of_length t List.length_ofFn.symm]
  simp

theorem decode_map_ofFn (t : Ty N) {n : Nat} (keys : Fin n → String) (ws : Fin n → Json) :
    S.decode (.map t) (.obj (List.ofFn fun k => (keys k, ws k))) =
      (fun xs => .ofEntries (List.ofFn fun k => (keys k, xs k))) <$>
        Family.traverse fun k => S.decode t (ws k) := by
  rw [decode_map_of_length t List.length_ofFn.symm]
  simp

/-- A field is read back from the entry that was written for it, or from the
    absence of one. -/
theorem decodeField_entry {owner : String} {f : Field N} {m : Mapping}
    {x v : Value S f.valueType} (hx : x.encode = .ok w)
    (hm : m.get? f.key = (f.entry x.isNone w).map (·.2))
    (hv : (S.decode f.valueType w).result = .ok v) :
    (S.decodeField owner f m).result = .ok v := by
  rcases f.entry_cases x.isNone w with h | ⟨hp, hn, h⟩
  · rw [h] at hm
    rw [decodeField_of_get? hm, Traced.result_locate, hv]
    rfl
  · rw [h] at hm
    rw [Value.encode_of_isNone hn] at hx
    cases hx
    rw [decodeField_of_optional hp hm, hv]

/-- The fields of a record are read back from a mapping with their entries. -/
theorem decodeFields_entries {i : N.Record} {xs ys : S.Fields i} {m : Mapping}
    {ws : Fin (S.record i).writes.length → Json}
    (hws : ∀ j, (writtenValue xs j).encode = .ok (ws j))
    (hm : ∀ j, m.get? ((S.record i).written j).key =
      (((S.record i).written j).entry (writtenValue xs j).isNone (ws j)).map (·.2))
    (hys : ∀ j, (S.decode ((S.record i).written j).valueType (ws j)).result =
      .ok (writtenValue ys j)) :
    (S.decodeFields i m).result = .ok ys := by
  rw [decodeFields_eq, Family.result_traverse, Family.traverse_eq_ok]
  intro k
  -- the place at which the field was written
  obtain ⟨j, rfl⟩ := (S.record i).exists_writes_get k
  exact decodeField_entry (hws j) (hm j) (hys j)

end Schema

namespace Value

variable {S : Schema N} {t : Ty N} {w : Json}

/-! ## The round trip -/

/-- The value is read back from its document, if it has one. -/
def ReadBack (v : Value S t) : Prop :=
  ∀ w, v.encode = .ok w → (S.decode t w).result = .ok v.normalise

theorem readBack_leaf {l : Leaf} {x : l.Carrier} (h : l.Returns x) :
    (leaf x : Value S (.leaf l)).ReadBack := by
  intro w hw
  rw [Schema.decode_leaf, Traced.result_map, h w hw]
  rfl

theorem readBack_none : (none : Value S (.option t)).ReadBack := by
  intro w hw
  cases hw
  rw [Schema.decode_option_null]
  rfl

/-- A present option is read back as absent if it is written as `null`. -/
theorem readBack_some {v : Value S t} (h : v.ReadBack) : (some v).ReadBack := by
  intro w hw
  change v.encode = .ok w at hw
  rw [normalise]
  by_cases hnull : w = .null
  · subst hnull
    rw [if_pos (isNull_iff.2 hw), Schema.decode_option_null]
    rfl
  · have hv : ¬ v.isNull = true := by
      rw [isNull_iff, hw]
      intro he
      exact hnull (Except.ok.inj he)
    rw [if_neg hv, Schema.decode_option hnull, Traced.result_map, h w hw]
    rfl

theorem readBack_box {v : Value S t} (h : v.ReadBack) : (box v).ReadBack := by
  intro w hw
  rw [Schema.decode_box, Traced.result_map, h w hw]
  rfl

theorem readBack_list {n : Nat} {xs : Fin n → Value S t} (h : ∀ k, (xs k).ReadBack) :
    (list n xs).ReadBack := by
  intro w hw
  rw [encode_list, Except.map_eq_ok] at hw
  obtain ⟨ws, hws, rfl⟩ := hw
  rw [Family.traverse_eq_ok] at hws
  rw [Schema.decode_list_ofFn, Traced.ok_map_traverse]
  exact ⟨_, fun k => h k _ (hws k), rfl⟩

theorem readBack_map {keys : List String} {sorted : SortedEntries.Sorted keys}
    {xs : Fin keys.length → Value S t} (h : ∀ k, (xs k).ReadBack) :
    (map keys sorted xs).ReadBack := by
  intro w hw
  rw [encode_map, Except.map_eq_ok] at hw
  obtain ⟨ws, hws, rfl⟩ := hw
  rw [Family.traverse_eq_ok] at hws
  rw [Schema.decode_map_ofFn, Traced.ok_map_traverse]
  exact ⟨_, fun k => h k _ (hws k), ofEntries_ofFn sorted _⟩

theorem readBack_tuple {i : N.Tuple} (hi : (S.tuple i).Sound)
    {xs : (k : Fin (S.tuple i).elements.length) → Value S ((S.tuple i).elements.get k)}
    (h : ∀ k, (xs k).ReadBack) : (tuple i xs).ReadBack := by
  intro w hw
  rw [encode_tuple hi, Except.map_eq_ok] at hw
  obtain ⟨ws, hws, rfl⟩ := hw
  simp only [Family.traverse_eq_ok, Except.mapError_eq_ok] at hws
  rw [Schema.decode_tuple hi List.length_ofFn.symm, Traced.ok_map_traverse]
  refine ⟨_, fun k => ?_, rfl⟩
  rw [Traced.result_locate, Except.mapError_eq_ok, List.get_ofFn]
  exact h k _ (hws k)

theorem readBack_record {i : N.Record} (hi : (S.record i).Sound) {xs : S.Fields i}
    (h : ∀ k, (xs k).ReadBack) : (record i xs).ReadBack := by
  intro w hw
  rw [encode_record hi.toWritable, Except.map_eq_ok] at hw
  obtain ⟨ws, hws, rfl⟩ := hw
  simp only [Family.traverse_eq_ok, Schema.encodeField, Except.mapError_eq_ok] at hws
  have hfields : (S.decodeFields i _).result = .ok fun k => (xs k).normalise :=
    Schema.decodeFields_entries hws (Schema.get?_entries hi) fun j => h _ _ (hws j)
  rw [Schema.foldl_write_entries hi, Schema.decode_record, Traced.result_map, hfields]
  rfl

/-- The discriminant is written first, and found again. -/
theorem readBack_variant {i : N.Interface} (hi : (S.interface i).Sound)
    {v : Fin (S.interface i).variants.length}
    (hr : (S.record ((S.interface i).variants.get v).record).Sound)
    (hfree : typeKey ∉ (S.record ((S.interface i).variants.get v).record).keys)
    {xs : S.Fields ((S.interface i).variants.get v).record} (h : ∀ k, (xs k).ReadBack) :
    (variant i v xs).ReadBack := by
  intro w hw
  rw [encode_variant hr.toWritable hfree, Except.map_eq_ok] at hw
  obtain ⟨ws, hws, rfl⟩ := hw
  simp only [Family.traverse_eq_ok, Schema.encodeField, Except.mapError_eq_ok] at hws
  have hfields : (S.decodeFields _ _).result = .ok fun k => (xs k).normalise :=
    Schema.decodeFields_entries hws
      (Schema.get?_cons_entries hr hfree ((S.interface i).variants.get v).tag)
      fun j => h _ _ (hws j)
  rw [Schema.foldl_insert_entries hr hfree,
    Schema.decode_interface_of_some rfl (hi.find?_eq_some.2 rfl), Traced.result_log_bind,
    Traced.result_map, hfields]
  rfl

/-- **What is written is read back.** -/
theorem decode_eq_normalise (ht : S.Everywhere S.Sound t) (v : Value S t) (hv : v.OpaqueReturn)
    (h : v.encode = .ok w) : (S.decode t w).result = .ok v.normalise := by
  suffices hread : v.ReadBack from hread w h
  clear h
  induction v with
  | @leaf l x =>
    refine readBack_leaf ?_
    by_cases hl : l.Opaque
    · exact hv hl
    · exact Leaf.returns_of_sound ht.here hl x
  | none => exact readBack_none
  | @some t v ih => exact readBack_some (ih (ht.part (.option t)) hv)
  | @box t v ih => exact readBack_box (ih (ht.part (.box t)) hv)
  | @list t n xs ih => exact readBack_list fun k => ih k (ht.part (.list t)) (hv k)
  | @map t keys sorted xs ih => exact readBack_map fun k => ih k (ht.part (.map t)) (hv k)
  | tuple i xs ih =>
    exact readBack_tuple ht.here fun k =>
      ih k (ht.part (.element_get k)) (hv k)
  | record i xs ih =>
    exact readBack_record ht.here fun k =>
      ih k (ht.part (.field_get k)) (hv k)
  | variant i v xs ih =>
    have hi := ht.here
    have hr := ht.part (.variant_get v)
    exact readBack_variant hi.1 hr.here (hi.2 _ (List.get_mem _ v)) fun k =>
      ih k (hr.part (.field_get k)) (hv k)

end Value

namespace Catalogue

/-- A group, labelled or not. -/
def group (name : String) (label : Value schema (.option string)) (n : Nat)
    (members : Fin n → Value schema (.interface .shape)) : Value schema (.interface .shape) :=
  .variant (S := schema) InterfaceName.shape ⟨2, by decide⟩ fun
    | ⟨0, _⟩ => .leaf (l := .string) name
    | ⟨1, _⟩ => label
    | ⟨2, _⟩ => .list n members

theorem opaqueReturn_group {name label n members} (hl : Value.OpaqueReturn label)
    (hm : ∀ k, Value.OpaqueReturn (members k)) : (group name label n members).OpaqueReturn := by
  rintro ⟨_ | _ | _ | k, hk⟩
  · exact fun h => h.elim
  · exact hl
  · exact hm
  · change k + 3 < 3 at hk
    omega

/-- A group in a group. -/
def nested : Value schema (.interface .shape) :=
  group "outer" (.some (.leaf (l := .string) "label")) 1 fun _ =>
    group "inner" .none 0 fun k => k.elim0

theorem opaqueReturn_nested : nested.OpaqueReturn :=
  opaqueReturn_group (fun h => h.elim) fun _ => opaqueReturn_group trivial fun k => k.elim0

/-- Each group has its discriminant, and no label where there is none. -/
theorem encode_nested : nested.encode = .ok (.obj [("type", .str "group"),
    ("name", .str "outer"), ("label", .str "label"), ("members", .arr [.obj
      [("type", .str "group"), ("name", .str "inner"), ("members", .arr [])]])]) := by
  with_unfolding_all rfl

theorem decode_eq_normalise_nested :
    schema.Everywhere schema.Sound (.interface .shape) ∧ nested.OpaqueReturn ∧
      (schema.decode (.interface .shape) (.obj [("type", .str "group"),
        ("name", .str "outer"), ("label", .str "label"), ("members", .arr [.obj
          [("type", .str "group"), ("name", .str "inner"), ("members", .arr [])]])])).result =
        .ok nested.normalise :=
  ⟨shape_sound, opaqueReturn_nested,
    nested.decode_eq_normalise shape_sound opaqueReturn_nested encode_nested⟩

end Catalogue

end WireForm
