/-
  WireForm — which of several failures is reported.

  Decoding an aggregate first checks the document as a whole, and then goes
  through its children: the elements of a list or tuple, the entries of a map in
  the order of the document, the fields of a record in the order of the
  declaration.  The first child that fails decides what the whole comes to; what
  follows it is not looked at.

  * `Schema.Refuses`: the checks that come before any child;
  * `Schema.Children`: what becomes of each child, in the order of the visit;
  * `FirstFailure`: the first of a family that fails;
  * `Schema.decode_fails_fast`: every aggregate fails at a check or at the first
    child that fails.
-/
import WireForm.Proofs.Dispatch

namespace WireForm

/-! ## Outcomes of children -/

/-- Whether a computation succeeds, and with what error it fails if not. -/
def Traced.outcome {α : Type} (x : Traced α) : Except CodecError Unit := x.result.map fun _ => ()

namespace Traced

variable {α β : Type} {x : Traced α} {e : CodecError}

@[simp] theorem outcome_map (f : α → β) (x : Traced α) : (f <$> x).outcome = x.outcome := by
  rw [outcome, outcome, result_map]
  cases x.result <;> rfl

theorem outcome_locate (location : String) (x : Traced α) :
    (x.locate location).outcome = x.outcome.mapError (CodecError.locate location) := by
  rw [outcome, outcome, result_locate]
  cases x.result <;> rfl

theorem outcome_eq_ok : x.outcome = .ok () ↔ ∃ a, x.result = .ok a := by
  rw [outcome, Except.map_eq_ok]
  simp

theorem outcome_eq_error : x.outcome = .error e ↔ x.result = .error e := Except.map_eq_error

end Traced

/-- The first member of a family that fails, fails with this error.  The members
    after it may be anything. -/
def FirstFailure {n : Nat} (cs : Fin n → Except CodecError Unit) (e : CodecError) : Prop :=
  ∃ k, cs k = .error e ∧ ∀ j < k, cs j = .ok ()

/-- A family of computations fails as the first of them that fails. -/
theorem Family.result_traverse_eq_error {n : Nat} {β : Fin n → Type} {f : ∀ k, Traced (β k)}
    {e : CodecError} :
    (traverse f).result = .error e ↔ FirstFailure (fun k => (f k).outcome) e := by
  rw [result_traverse, traverse_eq_error]
  simp only [FirstFailure, Traced.outcome_eq_error, Traced.outcome_eq_ok]

/-! ## Aggregates -/

variable {N : Names}

namespace Schema

/-- The types whose documents have children.  A tuple must handle what it
    declares. -/
def Aggregate (S : Schema N) : Ty N → Prop
  | .list _ | .map _ | .record _ | .interface _ => True
  | .tuple i => (S.tuple i).Sound
  | .leaf _ | .option _ | .box _ => False

/-- A document is refused as a whole, before any of its children is decoded. -/
inductive Refuses (S : Schema N) : Ty N → Json → CodecError → Prop
  | listKind {t : Ty N} {w : Json} : w.kind ≠ .sequence →
      Refuses S (.list t) w (.kindMismatch placeholder "sequence" w)
  | mapKind {t : Ty N} {w : Json} : w.kind ≠ .mapping →
      Refuses S (.map t) w (.kindMismatch placeholder "mapping" w)
  | tupleKind {i : N.Tuple} {w : Json} : w.kind ≠ .sequence →
      Refuses S (.tuple i) w (.shapeMismatch (S.tuple i).name "sequence" w)
  | arity {i : N.Tuple} {xs : List Json} : xs.length ≠ (S.tuple i).arity →
      Refuses S (.tuple i) (.arr xs) (.arity (S.tuple i).name (S.tuple i).arity xs.length)
  | recordKind {i : N.Record} {w : Json} : w.kind ≠ .mapping →
      Refuses S (.record i) w (.shapeMismatch (S.record i).name "mapping" w)
  | interfaceKind {i : N.Interface} {w : Json} : w.kind ≠ .mapping →
      Refuses S (.interface i) w (.shapeMismatch (S.interface i).name "mapping" w)
  | untagged {i : N.Interface} {m : Mapping} : m.get? typeKey = none →
      Refuses S (.interface i) (.obj m) (.missingField (S.interface i).name typeKey)
  | tagKind {i : N.Interface} {m : Mapping} {x : Json} : m.get? typeKey = some x →
      x.kind ≠ .string → Refuses S (.interface i) (.obj m)
        (.kindMismatch (fieldPath (S.interface i).name typeKey) "string" x)
  | unknownTag {i : N.Interface} {m : Mapping} {tag : String} :
      m.get? typeKey = some (.str tag) → (∀ v ∈ (S.interface i).variants, v.tag ≠ tag) →
      Refuses S (.interface i) (.obj m) (.unknownTag (S.interface i).name tag)

/-- What becomes of a field.  Only a required field fails by being absent. -/
def fieldOutcome (S : Schema N) (owner : String) (f : Field N) (m : Mapping) :
    Except CodecError Unit :=
  match m.get? f.key, f.presence with
  | none, .required => .error (.missingField owner f.key)
  | none, .optional | some .null, .optional => .ok ()
  | some w, _ =>
    (S.decode f.type w).outcome.mapError (CodecError.locate (fieldPath owner f.key))

/-- What becomes of the children of a document, in the order in which they are
    visited. -/
inductive Children (S : Schema N) :
    Ty N → Json → (n : Nat) → (Fin n → Except CodecError Unit) → Prop
  | list (t : Ty N) (xs : List Json) :
      Children S (.list t) (.arr xs) xs.length fun k => (S.decode t (xs.get k)).outcome
  | map (t : Ty N) (m : Mapping) :
      Children S (.map t) (.obj m) m.length fun k => (S.decode t (m.get k).2).outcome
  | tuple (i : N.Tuple) (xs : List Json) (hn : (S.tuple i).elements.length = xs.length) :
      Children S (.tuple i) (.arr xs) (S.tuple i).elements.length fun k =>
        (S.decode ((S.tuple i).elements.get k) (xs.get (k.cast hn))).outcome.mapError
          (CodecError.locate (indexPath (S.tuple i).name k))
  | record (i : N.Record) (m : Mapping) :
      Children S (.record i) (.obj m) (S.record i).fields.length fun k =>
        S.fieldOutcome (S.record i).name ((S.record i).fields.get k) m
  | variant {i : N.Interface} {m : Mapping} {tag : String}
      {v : Fin (S.interface i).variants.length} {n : Nat} {cs : Fin n → Except CodecError Unit} :
      m.get? typeKey = some (.str tag) → (S.interface i).find? tag = some v →
      Children S (.record ((S.interface i).variants.get v).record) (.obj m) n cs →
      Children S (.interface i) (.obj m) n cs

variable {S : Schema N} {t : Ty N} {w : Json} {e : CodecError}

/-! ### Type by type -/

theorem decode_list_eq_error {xs : List Json} : (S.decode (.list t) (.arr xs)).result = .error e ↔
    FirstFailure (fun k => (S.decode t (xs.get k)).outcome) e := by
  rw [decode_list, Traced.result_map, Except.map_eq_error]
  exact Family.result_traverse_eq_error

theorem decode_map_eq_error {m : Mapping} : (S.decode (.map t) (.obj m)).result = .error e ↔
    FirstFailure (fun k : Fin m.length => (S.decode t (m.get k).2).outcome) e := by
  rw [decode_map, Traced.result_map, Except.map_eq_error]
  exact Family.result_traverse_eq_error

theorem decode_tuple_eq_error {i : N.Tuple} {xs : List Json} (hi : (S.tuple i).Sound)
    (hn : (S.tuple i).elements.length = xs.length) :
    (S.decode (.tuple i) (.arr xs)).result = .error e ↔ FirstFailure (fun k =>
      (S.decode ((S.tuple i).elements.get k) (xs.get (k.cast hn))).outcome.mapError
        (CodecError.locate (indexPath (S.tuple i).name k))) e := by
  rw [decode_tuple hi hn, Traced.result_map, Except.map_eq_error, Family.result_traverse_eq_error]
  simp only [Traced.outcome_locate]

/-- A field comes to what its declaration and the entry with its key say. -/
theorem outcome_decodeField (owner : String) (f : Field N) (m : Mapping) :
    (S.decodeField owner f m).outcome = S.fieldOutcome owner f m := by
  obtain ⟨key, presence, type⟩ := f
  unfold fieldOutcome
  cases hm : m.get? key with
  | none =>
    cases presence with
    | required => rw [decodeField_of_required rfl hm]; rfl
    | optional => rw [decodeField_of_optional rfl hm]; exact congrArg _ (decode_option_null type)
  | some w =>
    rw [decodeField_of_get? hm, Traced.outcome_locate]
    cases presence with
    | required => cases w <;> rfl
    | optional =>
      -- the type read is an option, and only null is none of it
      by_cases hw : w = .null
      · subst hw
        exact congrArg _ (congrArg _ (decode_option_null type))
      · have hsome : (S.decode (.option type) w).outcome = (S.decode type w).outcome := by
          rw [decode_option hw, Traced.outcome_map]
        cases w with
        | null => exact absurd rfl hw
        | bool | num | str | arr | obj => exact congrArg _ hsome

theorem decode_record_eq_error {i : N.Record} {m : Mapping} :
    (S.decode (.record i) (.obj m)).result = .error e ↔ FirstFailure (fun k =>
      S.fieldOutcome (S.record i).name ((S.record i).fields.get k) m) e := by
  rw [decode_record, Traced.result_map, Except.map_eq_error, decodeFields_eq,
    Family.result_traverse_eq_error]
  simp only [outcome_decodeField]

/-! ### All aggregates -/

/-- A document that is refused as a whole is refused whatever its children are. -/
theorem Refuses.decode_eq_error (h : S.Refuses t w e) : (S.decode t w).result = .error e := by
  cases h with
  | listKind hw => rw [decode_list_of_kind _ hw]; rfl
  | mapKind hw => rw [decode_map_of_kind _ hw]; rfl
  | tupleKind hw => rw [decode_tuple_of_kind _ hw]; rfl
  | arity hn => rw [decode_tuple_of_length hn]; rfl
  | recordKind hw => rw [decode_record_of_kind _ hw]; rfl
  | interfaceKind hw => rw [decode_interface_of_kind _ hw]; rfl
  | untagged hm => rw [decode_interface_of_missing hm]; rfl
  | tagKind hm hx => rw [decode_interface_of_untagged hm hx]; rfl
  | unknownTag hm hv => exact decode_interface_of_unknown ⟨_, rfl, hm⟩ hv

/-- Any other document fails as the first of its children that fails. -/
theorem Children.decode_eq_error {n : Nat} {cs : Fin n → Except CodecError Unit}
    (ht : S.Aggregate t) (h : S.Children t w n cs) :
    (S.decode t w).result = .error e ↔ FirstFailure cs e := by
  induction h with
  | list t xs => exact decode_list_eq_error
  | map t m => exact decode_map_eq_error
  | tuple i xs hn => exact decode_tuple_eq_error ht hn
  | record i m => exact decode_record_eq_error
  | @variant i m tag v n cs hm hv _ ih =>
    rw [← ih trivial, decode_interface_of_some hm hv, Traced.result_log_bind, Traced.result_map,
      decode_record, Traced.result_map, Except.map_eq_error, Except.map_eq_error]

theorem refuses_or_children_interface (i : N.Interface) (m : Mapping) :
    (∃ e, S.Refuses (.interface i) (.obj m) e) ∨
      ∃ n cs, S.Children (.interface i) (.obj m) n cs := by
  rcases InterfaceDecl.tag_cases (S.interface i) m with hm | ⟨x, hm, hx⟩ | ⟨tag, hm, hv⟩ |
    ⟨v, hm⟩
  · exact Or.inl ⟨_, .untagged hm⟩
  · exact Or.inl ⟨_, .tagKind hm hx⟩
  · exact Or.inl ⟨_, .unknownTag hm hv⟩
  · have hsome : ∃ v', (S.interface i).find? ((S.interface i).variants.get v).tag = some v' := by
      refine Option.ne_none_iff_exists'.1 fun hnone => ?_
      exact InterfaceDecl.find?_eq_none.1 hnone _ (List.get_mem _ v) rfl
    obtain ⟨v', hv'⟩ := hsome
    exact Or.inr ⟨_, _, .variant hm hv' (.record _ m)⟩

/-- A document of an aggregate is refused as a whole or has children. -/
theorem refuses_or_children (ht : S.Aggregate t) (w : Json) :
    (∃ e, S.Refuses t w e) ∨ ∃ n cs, S.Children t w n cs := by
  cases t with
  | list t =>
    by_cases hw : w.kind = .sequence
    · obtain ⟨xs, rfl⟩ := Json.kind_eq_sequence.1 hw
      exact Or.inr ⟨_, _, .list t xs⟩
    · exact Or.inl ⟨_, .listKind hw⟩
  | map t =>
    by_cases hw : w.kind = .mapping
    · obtain ⟨m, rfl⟩ := Json.kind_eq_mapping.1 hw
      exact Or.inr ⟨_, _, .map t m⟩
    · exact Or.inl ⟨_, .mapKind hw⟩
  | tuple i =>
    by_cases hw : w.kind = .sequence
    · obtain ⟨xs, rfl⟩ := Json.kind_eq_sequence.1 hw
      by_cases hn : xs.length = (S.tuple i).arity
      · have hi : (S.tuple i).Sound := ht
        exact Or.inr ⟨_, _, .tuple i xs (by rw [hn, hi.arity])⟩
      · exact Or.inl ⟨_, .arity hn⟩
    · exact Or.inl ⟨_, .tupleKind hw⟩
  | record i =>
    by_cases hw : w.kind = .mapping
    · obtain ⟨m, rfl⟩ := Json.kind_eq_mapping.1 hw
      exact Or.inr ⟨_, _, .record i m⟩
    · exact Or.inl ⟨_, .recordKind hw⟩
  | interface i =>
    by_cases hw : w.kind = .mapping
    · obtain ⟨m, rfl⟩ := Json.kind_eq_mapping.1 hw
      exact refuses_or_children_interface i m
    · exact Or.inl ⟨_, .interfaceKind hw⟩
  | leaf | option | box => exact ht.elim

/-- **Decoding fails fast.**  A check of the whole comes before any child; if it
    passes, decoding fails iff a child fails, with the error of the first that
    does, whatever comes after it; and there is no other way to fail. -/
theorem decode_fails_fast (ht : S.Aggregate t) (w : Json) :
    (∀ e, S.Refuses t w e → (S.decode t w).result = .error e) ∧
    (∀ n cs, S.Children t w n cs → ∀ e,
      (S.decode t w).result = .error e ↔ FirstFailure cs e) ∧
    ((∃ e, S.Refuses t w e) ∨ ∃ n cs, S.Children t w n cs) :=
  ⟨fun _ h => h.decode_eq_error, fun _ _ h _ => h.decode_eq_error ht, refuses_or_children ht w⟩

end Schema

namespace Catalogue

/-- A group with a bad label, which the document has after a bad member, and
    which the declaration has before it. -/
def mislabeledGroup : Json :=
  .obj [("members", .arr [.null]), ("type", .str "group"), ("label", .bool true),
    ("name", .str "stars")]

/-- A discriminant of no variant, among fields that are bad, too. -/
def starWithMembers : Json := .obj [("members", .null), ("type", .str "star")]

theorem decode_fails_fast_mislabeledGroup :
    schema.Aggregate (.interface .shape) ∧
      (schema.decode (.interface .shape) mislabeledGroup).result =
        .error (.malformed "Shape_Group.label" (.kind "string" .boolean)) ∧
      (schema.decode (.interface .shape) starWithMembers).result =
        .error (.unknownTag "Shape" "star") ∧
      schema.Aggregate (.tuple .point) ∧
      (schema.decode (.tuple .point) (.arr [.null])).result = .error (.arity "Point" 2 1) := by
  have hfast := Schema.decode_fails_fast (S := schema) (t := .interface .shape) trivial
  have hpoint := Schema.decode_fails_fast (S := schema) (t := .tuple .point) ⟨rfl, rfl⟩
  refine ⟨trivial, ?_, (hfast starWithMembers).1 _ (.unknownTag rfl (by decide)), ⟨rfl, rfl⟩,
    (hpoint (.arr [.null])).1 _ (.arity (by decide))⟩
  refine ((hfast mislabeledGroup).2.1 _ _ (@Schema.Children.variant _ schema InterfaceName.shape _
    "group" (Fin.last 2) _ _ rfl rfl (@Schema.Children.record _ schema RecordName.group _)) _).2
      ⟨⟨1, by decide⟩, ?_, ?_⟩
  · show (schema.decode string (.bool true)).outcome.mapError _ = _
    rw [string, Schema.decode_leaf]
    rfl
  · rintro ⟨_ | j, hj⟩ hlt
    · show (schema.decode string (.str "stars")).outcome.mapError _ = _
      rw [string, Schema.decode_leaf]
      rfl
    · exact absurd hlt (by simp [Fin.lt_def])

end Catalogue

end WireForm
