/-
  WireForm — the ways to a variant.

  A document is read as an interface, which dispatches on the discriminant; as
  one variant, which insists on it; or as the variant's record, which does not
  look at it.  With the variant's discriminant in place all three come to the
  same.

  * `Json.Tagged`: a mapping with a discriminant;
  * `Schema.decodeAs_eq_ok`, `Schema.decode_interface_eq_ok`: each way to a
    variant asks for its discriminant and for the fields of its record;
  * `Schema.variant_ways_agree`: the three ways side by side.
-/
import WireForm.Proofs.Conformance

namespace WireForm

/-- A mapping with a discriminant. -/
def Json.Tagged (w : Json) (tag : String) : Prop :=
  ∃ m : Mapping, w = .obj m ∧ m.get? typeKey = some (.str tag)

/-- A mapping has one discriminant at most. -/
theorem Json.Tagged.unique {w : Json} {tag tag' : String} (h : w.Tagged tag) (h' : w.Tagged tag') :
    tag = tag' := by
  obtain ⟨m, rfl, hm⟩ := h
  obtain ⟨_, ⟨⟩, hm'⟩ := h'
  rw [hm] at hm'
  cases hm'; rfl

theorem Variant.readTag_eq_ok {owner tag : String} {m : Mapping} :
    readTag owner m = .ok tag ↔ m.get? typeKey = some (.str tag) := by
  unfold readTag
  split
  · next h => rw [h]; simp
  · next hne h => rw [h]; exact iff_of_false nofun fun h => hne tag (Option.some.inj h)
  · next h => rw [h]; exact iff_of_false nofun nofun

variable {N : Names}

/-- The declared discriminants are those of the variants. -/
theorem InterfaceDecl.Sound.mem_tags {d : InterfaceDecl N} (hd : d.Sound) {v : VariantDecl N}
    (hv : v ∈ d.variants) : v.tag ∈ d.tags := by
  rw [hd.tags]
  exact List.mem_map_of_mem hv

/-- Places with one discriminant are one place. -/
theorem InterfaceDecl.Sound.get_inj {d : InterfaceDecl N} (hd : d.Sound)
    {v v' : Fin d.variants.length} (h : (d.variants.get v).tag = (d.variants.get v').tag) :
    v = v' := by
  have hv := hd.find?_eq_some.2 h
  rw [hd.find?_eq_some.2 rfl] at hv
  exact (Option.some.inj hv).symm

namespace Schema

variable {S : Schema N} {w : Json}

/-! ## One variant -/

section
variable {v : VariantDecl N}

theorem decodeAs_eq (v : VariantDecl N) (m : Mapping) :
    S.decodeAs v (.obj m) = (Traced.ofExcept (Variant.readTag (S.record v.record).name m) >>=
      fun tag => if tag = v.tag then S.decodeFields v.record m
        else Traced.log (.tagMismatch (S.record v.record).name tag v.tag) >>= fun _ =>
          .fail (.unknownTag (S.record v.record).name tag)) := rfl

theorem decodeAs_of_kind (hw : w.kind ≠ .mapping) :
    S.decodeAs v w = .fail (.shapeMismatch (S.record v.record).name "mapping" w) :=
  Record.decode_of_kind hw

theorem decodeAs_of_tagged (h : w.Tagged v.tag) :
    S.decodeAs v w = S.decodeRecord v.record w := by
  obtain ⟨m, rfl, hm⟩ := h
  rw [decodeAs_eq, Variant.readTag_eq_ok.2 hm]
  exact if_pos rfl

/-- Another discriminant is reported, whatever the other entries are. -/
theorem decodeAs_of_tag_ne {tag : String} (h : w.Tagged tag) (hne : tag ≠ v.tag) :
    (S.decodeAs v w).result = .error (.unknownTag (S.record v.record).name tag) := by
  obtain ⟨m, rfl, hm⟩ := h
  rw [decodeAs_eq, Variant.readTag_eq_ok.2 hm, Traced.result_bind]
  show (ite (tag = v.tag) _ _ : Traced _).result = _
  rw [if_neg hne, Traced.result_log_bind]
  rfl

theorem tagged_of_decodeAs {y : S.Fields v.record} (h : (S.decodeAs v w).result = .ok y) :
    w.Tagged v.tag := by
  by_cases hw : w.kind = .mapping
  · obtain ⟨m, rfl⟩ := Json.kind_eq_mapping.1 hw
    obtain ⟨tag, htag, -⟩ := Except.bind_eq_ok.1 ((Traced.result_bind _ _).symm.trans h)
    have hm : Json.Tagged (.obj m) tag := ⟨m, rfl, Variant.readTag_eq_ok.1 htag⟩
    by_cases ht : tag = v.tag
    · exact ht ▸ hm
    · rw [decodeAs_of_tag_ne hm ht] at h
      cases h
  · rw [decodeAs_of_kind hw] at h
    cases h

/-- What is read as a variant has its discriminant and the fields of its record. -/
theorem decodeAs_eq_ok {y : S.Fields v.record} : (S.decodeAs v w).result = .ok y ↔
    w.Tagged v.tag ∧ (S.decodeRecord v.record w).result = .ok y := by
  constructor
  · intro h
    have ht := tagged_of_decodeAs h
    exact ⟨ht, by rwa [← decodeAs_of_tagged ht]⟩
  · rintro ⟨ht, h⟩
    rwa [decodeAs_of_tagged ht]

end

/-! ## Interfaces -/

section
variable {i : N.Interface} {v : Fin (S.interface i).variants.length}

/-- The discriminant of a variant leads to its record. -/
theorem decode_interface_of_tagged (hi : (S.interface i).Sound)
    (h : w.Tagged ((S.interface i).variants.get v).tag) :
    (S.decode (.interface i) w).result =
      (S.decodeRecord ((S.interface i).variants.get v).record w).result.map (.variant i v) := by
  obtain ⟨m, rfl, hm⟩ := h
  rw [decode_interface_of_some hm (hi.find?_eq_some.2 rfl), Traced.result_log_bind,
    Traced.result_map]
  rfl

theorem decode_interface_of_unknown {tag : String} (h : w.Tagged tag)
    (htag : ∀ v ∈ (S.interface i).variants, v.tag ≠ tag) :
    (S.decode (.interface i) w).result = .error (.unknownTag (S.interface i).name tag) := by
  obtain ⟨m, rfl, hm⟩ := h
  rw [decode_interface_of_none hm (InterfaceDecl.find?_eq_none.2 htag), Traced.result_log_bind,
    Variant.unknownTag, Traced.result_log_bind]
  rfl

theorem tagged_of_decode_interface {y : S.Fields ((S.interface i).variants.get v).record}
    (hi : (S.interface i).Sound) (h : (S.decode (.interface i) w).result = .ok (.variant i v y)) :
    w.Tagged ((S.interface i).variants.get v).tag := by
  by_cases hw : w.kind = .mapping
  · obtain ⟨m, rfl⟩ := Json.kind_eq_mapping.1 hw
    rcases InterfaceDecl.tag_cases (S.interface i) m with hm | ⟨x, hm, hx⟩ | ⟨tag, hm, hv⟩ |
      ⟨v', hm⟩
    · rw [decode_interface_of_missing hm] at h; cases h
    · rw [decode_interface_of_untagged hm hx] at h; cases h
    · rw [decode_interface_of_unknown ⟨m, rfl, hm⟩ hv] at h; cases h
    · rw [decode_interface_of_tagged hi ⟨m, rfl, hm⟩, Except.map_eq_ok] at h
      obtain ⟨_, -, h⟩ := h
      cases h
      exact ⟨m, rfl, hm⟩
  · rw [decode_interface_of_kind i hw] at h
    cases h

/-- What is read as a variant of an interface has its discriminant and the
    fields of its record. -/
theorem decode_interface_eq_ok {y : S.Fields ((S.interface i).variants.get v).record}
    (hi : (S.interface i).Sound) : (S.decode (.interface i) w).result = .ok (.variant i v y) ↔
      w.Tagged ((S.interface i).variants.get v).tag ∧
        (S.decodeRecord ((S.interface i).variants.get v).record w).result = .ok y := by
  constructor
  · intro h
    have ht := tagged_of_decode_interface hi h
    rw [decode_interface_of_tagged hi ht, Except.map_eq_ok] at h
    obtain ⟨_, h, ⟨⟩⟩ := h
    exact ⟨ht, h⟩
  · rintro ⟨ht, h⟩
    rw [decode_interface_of_tagged hi ht, h]
    rfl

end

/-- **The ways to a variant agree**, in what they accept and, with the
    discriminant in place, in how they fail.  A discriminant of no variant is
    reported whatever else there is, and no document is read as two variants. -/
theorem variant_ways_agree {i : N.Interface} (hi : (S.interface i).Sound) (w : Json) :
    (∀ (v : Fin (S.interface i).variants.length)
        (y : S.Fields ((S.interface i).variants.get v).record),
      ((S.decode (.interface i) w).result = .ok (.variant i v y) ↔
        (S.decodeAs ((S.interface i).variants.get v) w).result = .ok y) ∧
      ((S.decodeAs ((S.interface i).variants.get v) w).result = .ok y ↔
        w.Tagged ((S.interface i).variants.get v).tag ∧
          (S.decodeRecord ((S.interface i).variants.get v).record w).result = .ok y)) ∧
    (∀ v : Fin (S.interface i).variants.length, w.Tagged ((S.interface i).variants.get v).tag →
      ∀ e, ((S.decodeRecord ((S.interface i).variants.get v).record w).result = .error e ↔
          (S.decode (.interface i) w).result = .error e) ∧
        ((S.decodeRecord ((S.interface i).variants.get v).record w).result = .error e ↔
          (S.decodeAs ((S.interface i).variants.get v) w).result = .error e)) ∧
    (∀ tag, w.Tagged tag → tag ∉ (S.interface i).tags →
      (S.decode (.interface i) w).result = .error (.unknownTag (S.interface i).name tag) ∧
        ∀ v ∈ (S.interface i).variants,
          (S.decodeAs v w).result = .error (.unknownTag (S.record v.record).name tag)) ∧
    ∀ v v' : Fin (S.interface i).variants.length,
      (S.decodeAs ((S.interface i).variants.get v) w).Succeeds →
      (S.decodeAs ((S.interface i).variants.get v') w).Succeeds → v = v' := by
  refine ⟨fun v y => ⟨?_, decodeAs_eq_ok⟩, fun v ht e => ⟨?_, ?_⟩, fun tag ht hno => ⟨?_, ?_⟩, ?_⟩
  · rw [decode_interface_eq_ok hi, decodeAs_eq_ok]
  · rw [decode_interface_of_tagged hi ht, Except.map_eq_error]
  · rw [decodeAs_of_tagged ht]
  · exact decode_interface_of_unknown ht fun v hv h => hno (h ▸ hi.mem_tags hv)
  · exact fun v hv => decodeAs_of_tag_ne ht fun h => hno (h ▸ hi.mem_tags hv)
  · rintro v v' ⟨y, hy⟩ ⟨y', hy'⟩
    exact hi.get_inj ((tagged_of_decodeAs hy).unique (tagged_of_decodeAs hy'))

end Schema

namespace Catalogue

/-- The square that is read from `blueSquare`. -/
def square : schema.Fields .square
  | ⟨0, _⟩ => .leaf (l := .float64) (Binary.ofInt 3)
  | ⟨1, _⟩ => .leaf (l := .enumeration color) (Fin.last 2)

theorem decodeRecord_blueSquare :
    (schema.decodeRecord .square blueSquare).result = .ok square := by
  show (schema.decodeFields .square _).result = _
  rw [Schema.decodeFields_eq, Family.result_traverse, Family.traverse_eq_ok]
  refine Fin.forall_fin_two.2 ⟨?_, ?_⟩
  · rw [Schema.decodeField_of_get? rfl]
    show ((schema.decode (.leaf .float64) _).locate _).result = _
    rw [Schema.decode_leaf]
    rfl
  · rw [Schema.decodeField_of_get? rfl]
    show ((schema.decode (.leaf (.enumeration color)) _).locate _).result = _
    rw [Schema.decode_leaf]
    rfl

/-- The square is found by dispatch and as the variant that it is. -/
theorem variant_ways_agree_blueSquare :
    (schema.interface .shape).Sound ∧
      (schema.decode (.interface .shape) blueSquare).result =
        .ok (.variant (S := schema) InterfaceName.shape ⟨1, by decide⟩ square) ∧
      (schema.decodeAs ⟨"square", .square⟩ blueSquare).result = .ok square := by
  have hs := shape_sound.here.1
  have hw := (Schema.variant_ways_agree hs blueSquare).1 ⟨1, by decide⟩ square
  have has := hw.2.2 ⟨⟨_, rfl, rfl⟩, decodeRecord_blueSquare⟩
  exact ⟨hs, hw.1.2 has, has⟩

end Catalogue

end WireForm
