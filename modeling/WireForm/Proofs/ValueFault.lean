/-
  WireForm — values at fault, and both directions together.

  * `Value.Offends`: the first position at which a value is at fault;
  * `Value.located`: encoding fails there, with the location of that position;
  * `Schema.errors_located`: both directions, and where the placeholder is left.
-/
import WireForm.Proofs.DocumentFault
import WireForm.Proofs.Writing

namespace WireForm

variable {N : Names}

/-! ## Values at fault -/

namespace Value

variable {S : Schema N}

/-- A value is at fault at a position: all that is written earlier is in order. -/
inductive Offends : {t : Ty N} → Value S t → Path → Fault → Prop
  | leaf {l : Leaf} {x : l.Carrier} {f : Fault} :
      l.encode x = .error (f.at placeholder) → Offends (.leaf x) [] f
  | some {t : Ty N} {v : Value S t} {p : Path} {f : Fault} :
      Offends v p f → Offends (.some v) (.content :: p) f
  | box {t : Ty N} {v : Value S t} {p : Path} {f : Fault} :
      Offends v p f → Offends (.box v) (.content :: p) f
  | item {t : Ty N} {n : Nat} {xs : Fin n → Value S t} (k : Fin n) {p : Path} {f : Fault} :
      (∀ j < k, ∃ w, (xs j).encode = .ok w) → Offends (xs k) p f →
      Offends (.list n xs) (.item k :: p) f
  | entry {t : Ty N} {keys : List String} {sorted : SortedEntries.Sorted keys}
      {xs : Fin keys.length → Value S t} (k : Fin keys.length) {p : Path} {f : Fault} :
      (∀ j < k, ∃ w, (xs j).encode = .ok w) → Offends (xs k) p f →
      Offends (.map keys sorted xs) (.entry (keys.get k) :: p) f
  | element {i : N.Tuple} {xs : (k : Fin (S.tuple i).elements.length) →
        Value S ((S.tuple i).elements.get k)} (k : Fin (S.tuple i).elements.length) {p : Path}
      {f : Fault} :
      (∀ j < k, ∃ w, (xs j).encode = .ok w) → Offends (xs k) p f →
      Offends (.tuple i xs) (.element (S.tuple i).name k :: p) f
  | field {i : N.Record} {xs : S.Fields i} (k : Fin (S.record i).writes.length) {p : Path}
      {f : Fault} :
      (∀ j < k, ∃ w, (Schema.writtenValue xs j).encode = .ok w) →
      Offends (Schema.writtenValue xs k) p f →
      Offends (.record i xs) (.field (S.record i).name ((S.record i).written k).key :: p) f
  | variant {i : N.Interface} {v : Fin (S.interface i).variants.length}
      {xs : S.Fields ((S.interface i).variants.get v).record}
      (k : Fin (S.record ((S.interface i).variants.get v).record).writes.length) {p : Path}
      {f : Fault} :
      (∀ j < k, ∃ w, (Schema.writtenValue xs j).encode = .ok w) →
      Offends (Schema.writtenValue xs k) p f →
      Offends (.variant i v xs) (.field (S.record ((S.interface i).variants.get v).record).name
        ((S.record ((S.interface i).variants.get v).record).written k).key :: p) f

variable {t : Ty N} {q : Path} {f : Fault}

theorem offends_leaf {l : Leaf} {x : l.Carrier} : Offends (.leaf x : Value S (.leaf l)) q f ↔
    q = [] ∧ l.encode x = .error (f.at placeholder) := by
  constructor
  · rintro ⟨h⟩
    exact ⟨rfl, h⟩
  · rintro ⟨rfl, h⟩
    exact .leaf h

theorem offends_some {v : Value S t} :
    Offends (.some v) q f ↔ ∃ p, q = .content :: p ∧ v.Offends p f := by
  constructor
  · intro h
    cases h with | some h => exact ⟨_, rfl, h⟩
  · rintro ⟨p, rfl, h⟩
    exact .some h

theorem offends_box {v : Value S t} :
    Offends (.box v) q f ↔ ∃ p, q = .content :: p ∧ v.Offends p f := by
  constructor
  · intro h
    cases h with | box h => exact ⟨_, rfl, h⟩
  · rintro ⟨p, rfl, h⟩
    exact .box h

theorem offends_list {n : Nat} {xs : Fin n → Value S t} : Offends (.list n xs) q f ↔
    ∃ k : Fin n, ∃ p, q = .item k :: p ∧ (∀ j < k, ∃ w, (xs j).encode = .ok w) ∧
      (xs k).Offends p f := by
  constructor
  · intro h
    cases h with | item k hlt h => exact ⟨k, _, rfl, hlt, h⟩
  · rintro ⟨k, p, rfl, hlt, h⟩
    exact .item k hlt h

theorem offends_map {keys : List String} {sorted : SortedEntries.Sorted keys}
    {xs : Fin keys.length → Value S t} : Offends (.map keys sorted xs) q f ↔
      ∃ k : Fin keys.length, ∃ p, q = .entry (keys.get k) :: p ∧
        (∀ j < k, ∃ w, (xs j).encode = .ok w) ∧ (xs k).Offends p f := by
  constructor
  · intro h
    cases h with | entry k hlt h => exact ⟨k, _, rfl, hlt, h⟩
  · rintro ⟨k, p, rfl, hlt, h⟩
    exact .entry k hlt h

theorem offends_tuple {i : N.Tuple} {xs : (k : Fin (S.tuple i).elements.length) →
    Value S ((S.tuple i).elements.get k)} : Offends (.tuple i xs) q f ↔
      ∃ k : Fin (S.tuple i).elements.length, ∃ p, q = .element (S.tuple i).name k :: p ∧
        (∀ j < k, ∃ w, (xs j).encode = .ok w) ∧ (xs k).Offends p f := by
  constructor
  · intro h
    cases h with | element k hlt h => exact ⟨k, _, rfl, hlt, h⟩
  · rintro ⟨k, p, rfl, hlt, h⟩
    exact .element k hlt h

theorem offends_record {i : N.Record} {xs : S.Fields i} : Offends (.record i xs) q f ↔
    ∃ k : Fin (S.record i).writes.length, ∃ p,
      q = .field (S.record i).name ((S.record i).written k).key :: p ∧
        (∀ j < k, ∃ w, (Schema.writtenValue xs j).encode = .ok w) ∧
        (Schema.writtenValue xs k).Offends p f := by
  constructor
  · intro h
    cases h with | field k hlt h => exact ⟨k, _, rfl, hlt, h⟩
  · rintro ⟨k, p, rfl, hlt, h⟩
    exact .field k hlt h

theorem offends_variant {i : N.Interface} {v : Fin (S.interface i).variants.length}
    {xs : S.Fields ((S.interface i).variants.get v).record} : Offends (.variant i v xs) q f ↔
      ∃ k : Fin (S.record ((S.interface i).variants.get v).record).writes.length, ∃ p,
        q = .field (S.record ((S.interface i).variants.get v).record).name
          ((S.record ((S.interface i).variants.get v).record).written k).key :: p ∧
        (∀ j < k, ∃ w, (Schema.writtenValue xs j).encode = .ok w) ∧
        (Schema.writtenValue xs k).Offends p f := by
  constructor
  · intro h
    cases h with | variant k hlt h => exact ⟨k, _, rfl, hlt, h⟩
  · rintro ⟨k, p, rfl, hlt, h⟩
    exact .variant k hlt h

/-- Encoding fails where a value is at fault, and nowhere else. -/
theorem located (ht : S.Everywhere S.Writable t) (v : Value S t) : Located v.encode v.Offends := by
  induction v with
  | leaf x =>
    intro e
    simp only [offends_leaf]
    constructor
    · intro h
      obtain ⟨f, rfl⟩ := Leaf.encode_error h
      exact ⟨[], f, ⟨rfl, h⟩, rfl⟩
    · rintro ⟨_, f, ⟨rfl, h⟩, rfl⟩
      exact h
  | none => exact (Located.ok _).congr fun p f => iff_false_intro nofun
  | @some t v ih => exact ((ih (ht.part (.option t))).step rfl).congr fun _ _ => offends_some
  | @box t v ih => exact ((ih (ht.part (.box t))).step rfl).congr fun _ _ => offends_box
  | @list t n xs ih =>
    rw [encode_list]
    exact ((Located.traverse (fun k => ih k (ht.part (.list t))) fun _ => rfl).map _).congr
      fun _ _ => offends_list
  | @map t keys sorted xs ih =>
    rw [encode_map]
    exact ((Located.traverse (fun k => ih k (ht.part (.map t))) fun _ => rfl).map _).congr
      fun _ _ => offends_map
  | tuple i xs ih =>
    rw [encode_tuple ht.here]
    exact ((Located.traverse_locate
      (fun k => ih k (ht.part (.element_get k))) fun _ => rfl).map _).congr
        fun _ _ => offends_tuple
  | record i xs ih =>
    rw [encode_record ht.here]
    exact ((Located.traverse_locate
      (fun k => ih ((S.record i).writes.get k) (ht.part (.field_get _))) fun _ => rfl).map _).congr
        fun _ _ => offends_record
  | variant i v xs ih =>
    have hr := ht.part (.variant_get v)
    rw [encode_variant hr.here (ht.here _ (List.get_mem _ v))]
    exact ((Located.traverse_locate
      (fun k => ih ((S.record _).writes.get k) (hr.part (.field_get _))) fun _ => rfl).map _).congr
        fun _ _ => offends_variant

end Value

/-! ## Both directions -/

/-- The kind of the documents in which the parts of a declaration are located. -/
def Ty.shape? : Ty N → Option Kind
  | .tuple _ => some .sequence
  | .record _ | .interface _ => some .mapping
  | .leaf _ | .option _ | .list _ | .map _ | .box _ => none

namespace Schema

variable {S : Schema N} {t : Ty N} {w : Json} {p : Path} {f : Fault}

theorem location_of_offends_record {i : N.Record} {m : Mapping}
    (h : S.Offends (.record i) (.obj m) p f) : p.location ≠ placeholder := by
  obtain ⟨k, -, ⟨-, -, rfl, -⟩ | ⟨x, p, -, rfl, -⟩⟩ := offends_record.1 h
  · exact Path.location_cons_ne_placeholder rfl
  · exact Path.location_cons_ne_placeholder rfl

/-- Inside a declaration, whatever is malformed has a location. -/
theorem Offends.at_ne (hw : t.shape? = some w.kind) (h : S.Offends t w p f) (reason : Reason) :
    f.at p.location ≠ .malformed placeholder reason := by
  have hloc : p.location ≠ placeholder → f.at p.location ≠ .malformed placeholder reason := by
    intro hp he
    cases f with
    | malformed => exact hp (CodecError.malformed.inj he).1
    | arity | unknownOrdinal | unknownTag => cases he
  cases h with
  | leaf | option | box | listKind | item | mapKind | entry => cases hw
  | tupleKind h | recordKind h | interfaceKind h => exact absurd (Option.some.inj hw).symm h
  | arity | unknownTag => exact nofun
  | element | missing | field | untagged | tagKind =>
    exact hloc (Path.location_cons_ne_placeholder rfl)
  | variant _ _ h => exact hloc (location_of_offends_record h)

end Schema

theorem Value.Offends.location_ne {S : Schema N} {t : Ty N} {v : Value S t} {p : Path} {f : Fault}
    (ht : t.shape? ≠ .none) (h : v.Offends p f) : p.location ≠ placeholder := by
  cases h with
  | leaf | some | box | item | entry => exact absurd rfl ht
  | element | field | variant => exact Path.location_cons_ne_placeholder rfl

namespace Schema

variable {S : Schema N} {t : Ty N}

/-- **Errors are located.**  Decoding and encoding fail just where a document or
    a value is at fault, with the location of that position; the placeholder is
    left only where no field and no element is around, and so never inside a
    record, a tuple or an interface. -/
theorem errors_located (ht : S.Everywhere S.Writable t) :
    (∀ w e, (S.decode t w).result = .error e ↔
      ∃ p f, S.Offends t w p f ∧ e = f.at p.location) ∧
    (∀ (v : Value S t) e, v.encode = .error e ↔ ∃ p f, v.Offends p f ∧ e = f.at p.location) ∧
    (∀ p : Path, p.location = placeholder ↔ ∀ s ∈ p, s.location? = none) ∧
    (∀ w reason, t.shape? = some w.kind →
      (S.decode t w).result ≠ .error (.malformed placeholder reason)) ∧
    ∀ (v : Value S t) reason, t.shape? ≠ none →
      v.encode ≠ .error (.malformed placeholder reason) := by
  have hd := located (ht.mono fun _ => Writable.exact)
  have he := Value.located ht
  refine ⟨hd, he, fun p => Path.location_eq_placeholder, fun w reason hw h => ?_,
    fun v reason hs h => ?_⟩
  · obtain ⟨p, f, hp, hf⟩ := (hd w _).1 h
    exact hp.at_ne hw reason hf.symm
  · obtain ⟨p, f, hp, hf⟩ := (he v _).1 h
    cases f with
    | malformed => exact hp.location_ne hs (CodecError.malformed.inj hf).1.symm
    | arity | unknownOrdinal | unknownTag => cases hf

/-- A group in a group without a name of the right kind. -/
theorem errors_located_group :
    Catalogue.schema.Everywhere Catalogue.schema.Writable (.interface .shape) ∧
      (Catalogue.schema.decode (.interface .shape) (.obj [("type", .str "group"),
        ("name", .str "outer"), ("members", .arr [.obj [("type", .str "group"),
          ("name", .null), ("members", .arr [])]])])).result =
        .error (.malformed "Shape_Group.name" (.kind "string" .null)) := by
  have hs := Catalogue.shape_sound.mono fun _ => Sound.writable
  refine ⟨hs, ((errors_located hs).1 _ _).2 ?_⟩
  refine ⟨[.field "Shape_Group" "members", .item 0, .field "Shape_Group" "name"],
    .malformed (.kind "string" .null), ?_, rfl⟩
  refine .variant (v := ⟨2, by decide⟩) rfl rfl (.field ⟨2, by decide⟩ ?_ rfl
    (.item ⟨0, by decide⟩ nofun (.variant (v := ⟨2, by decide⟩) rfl rfl
      (.field ⟨0, by decide⟩ nofun rfl (.leaf rfl)))))
  rintro ⟨_ | _ | k, hk⟩ hlt
  · refine ⟨fun _ => Option.some_ne_none _, ?_⟩
    rintro x ⟨⟩
    show (Catalogue.schema.decode (.leaf .string) _).Succeeds
    rw [decode_leaf, Traced.succeeds_map]
    exact ⟨_, rfl⟩
  · exact ⟨nofun, nofun⟩
  · exact absurd hlt (by simp)

end Schema

end WireForm
