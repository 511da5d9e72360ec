/-
  WireForm — documents at fault.

  * `Schema.Offends`: the first position at which a document is at fault, as a
    relation that says what is wrong there;
  * `Schema.offends_list`, `Schema.offends_record`, …: what is wrong with a
    document of each type;
  * `Schema.located`: decoding fails there, with the location of that position.
-/
import WireForm.Proofs.Decoding
import WireForm.Proofs.Location

namespace WireForm

variable {N : Names}

/-! ## Documents at fault -/

namespace Schema

/-- The entry of a field is in order. -/
def Admits (S : Schema N) (f : Field N) (m : Mapping) : Prop :=
  (f.presence = .required → m.get? f.key ≠ none) ∧
    ∀ x, m.get? f.key = some x → (S.decode f.valueType x).Succeeds

/-- A document is at fault at a position: all that is looked at earlier is in
    order.  What is wrong with a discriminant is wrong with the entry under its
    key. -/
inductive Offends (S : Schema N) : Ty N → Json → Path → Fault → Prop
  | leaf {l : Leaf} {w : Json} {f : Fault} :
      (l.decode w).result = .error (f.at placeholder) → Offends S (.leaf l) w [] f
  | option {t : Ty N} {w : Json} {p : Path} {f : Fault} :
      w ≠ .null → Offends S t w p f → Offends S (.option t) w (.content :: p) f
  | box {t : Ty N} {w : Json} {p : Path} {f : Fault} :
      Offends S t w p f → Offends S (.box t) w (.content :: p) f
  | listKind {t : Ty N} {w : Json} : w.kind ≠ .sequence →
      Offends S (.list t) w [] (.malformed (.kind "sequence" w.kind))
  | item {t : Ty N} {xs : List Json} (k : Fin xs.length) {p : Path} {f : Fault} :
      (∀ j < k, (S.decode t (xs.get j)).Succeeds) → Offends S t (xs.get k) p f →
      Offends S (.list t) (.arr xs) (.item k :: p) f
  | mapKind {t : Ty N} {w : Json} : w.kind ≠ .mapping →
      Offends S (.map t) w [] (.malformed (.kind "mapping" w.kind))
  | entry {t : Ty N} {m : Mapping} (k : Fin m.length) {p : Path} {f : Fault} :
      (∀ j < k, (S.decode t (m.get j).2).Succeeds) → Offends S t (m.get k).2 p f →
      Offends S (.map t) (.obj m) (.entry (m.get k).1 :: p) f
  | tupleKind {i : N.Tuple} {w : Json} : w.kind ≠ .sequence →
      Offends S (.tuple i) w [] (.malformed (.shape "sequence" (S.tuple i).name w.kind))
  | arity {i : N.Tuple} {xs : List Json} : xs.length ≠ (S.tuple i).arity →
      Offends S (.tuple i) (.arr xs) [] (.arity (S.tuple i).name (S.tuple i).arity xs.length)
  | element {i : N.Tuple} {xs : List Json} (hn : (S.tuple i).elements.length = xs.length)
      (k : Fin (S.tuple i).elements.length) {p : Path} {f : Fault} :
      (∀ j < k, (S.decode ((S.tuple i).elements.get j) (xs.get (j.cast hn))).Succeeds) →
      Offends S ((S.tuple i).elements.get k) (xs.get (k.cast hn)) p f →
      Offends S (.tuple i) (.arr xs) (.element (S.tuple i).name k :: p) f
  | recordKind {i : N.Record} {w : Json} : w.kind ≠ .mapping →
      Offends S (.record i) w [] (.malformed (.shape "mapping" (S.record i).name w.kind))
  | missing {i : N.Record} {m : Mapping} (k : Fin (S.record i).fields.length) :
      (∀ j < k, S.Admits ((S.record i).fields.get j) m) →
      ((S.record i).fields.get k).presence = .required →
      m.get? ((S.record i).fields.get k).key = none →
      Offends S (.record i) (.obj m) [.field (S.record i).name ((S.record i).fields.get k).key]
        (.malformed .missing)
  | field {i : N.Record} {m : Mapping} (k : Fin (S.record i).fields.length) {x : Json} {p : Path}
      {f : Fault} :
      (∀ j < k, S.Admits ((S.record i).fields.get j) m) →
      m.get? ((S.record i).fields.get k).key = some x →
      Offends S ((S.record i).fields.get k).valueType x p f →
      Offends S (.record i) (.obj m)
        (.field (S.record i).name ((S.record i).fields.get k).key :: p) f
  | interfaceKind {i : N.Interface} {w : Json} : w.kind ≠ .mapping →
      Offends S (.interface i) w [] (.malformed (.shape "mapping" (S.interface i).name w.kind))
  | untagged {i : N.Interface} {m : Mapping} : m.get? typeKey = none →
      Offends S (.interface i) (.obj m) [.field (S.interface i).name typeKey]
        (.malformed .missing)
  | tagKind {i : N.Interface} {m : Mapping} {x : Json} : m.get? typeKey = some x →
      x.kind ≠ .string →
      Offends S (.interface i) (.obj m) [.field (S.interface i).name typeKey]
        (.malformed (.kind "string" x.kind))
  | unknownTag {i : N.Interface} {m : Mapping} {tag : String} :
      m.get? typeKey = some (.str tag) → (S.interface i).find? tag = none →
      Offends S (.interface i) (.obj m) [] (.unknownTag (S.interface i).name tag)
  | variant {i : N.Interface} {m : Mapping} {tag : String}
      {v : Fin (S.interface i).variants.length} {p : Path} {f : Fault} :
      m.get? typeKey = some (.str tag) → (S.interface i).find? tag = some v →
      Offends S (.record ((S.interface i).variants.get v).record) (.obj m) p f →
      Offends S (.interface i) (.obj m) p f

variable {S : Schema N} {t : Ty N} {w : Json} {q : Path} {f : Fault}

/-! ### Faults, type by type -/

theorem offends_leaf {l : Leaf} :
    S.Offends (.leaf l) w q f ↔ q = [] ∧ (l.decode w).result = .error (f.at placeholder) := by
  constructor
  · rintro ⟨h⟩
    exact ⟨rfl, h⟩
  · rintro ⟨rfl, h⟩
    exact .leaf h

theorem not_offends_null : ¬ S.Offends (.option t) .null q f := by
  intro h
  cases h with | option hw _ => exact hw rfl

theorem offends_option (hw : w ≠ .null) :
    S.Offends (.option t) w q f ↔ ∃ p, q = .content :: p ∧ S.Offends t w p f := by
  constructor
  · intro h
    cases h with | option _ h => exact ⟨_, rfl, h⟩
  · rintro ⟨p, rfl, h⟩
    exact .option hw h

theorem offends_box :
    S.Offends (.box t) w q f ↔ ∃ p, q = .content :: p ∧ S.Offends t w p f := by
  constructor
  · intro h
    cases h with | box h => exact ⟨_, rfl, h⟩
  · rintro ⟨p, rfl, h⟩
    exact .box h

theorem offends_list {xs : List Json} : S.Offends (.list t) (.arr xs) q f ↔
    ∃ k : Fin xs.length, ∃ p, q = .item k :: p ∧ (∀ j < k, (S.decode t (xs.get j)).Succeeds) ∧
      S.Offends t (xs.get k) p f := by
  constructor
  · intro h
    cases h with
    | listKind h => exact absurd rfl h
    | item k hlt h => exact ⟨k, _, rfl, hlt, h⟩
  · rintro ⟨k, p, rfl, hlt, h⟩
    exact .item k hlt h

theorem offends_list_of_kind (hw : w.kind ≠ .sequence) : S.Offends (.list t) w q f ↔
    q = [] ∧ f = .malformed (.kind "sequence" w.kind) := by
  constructor
  · intro h
    cases h with
    | listKind => exact ⟨rfl, rfl⟩
    | item => exact absurd rfl hw
  · rintro ⟨rfl, rfl⟩
    exact .listKind hw

theorem offends_map {m : Mapping} : S.Offends (.map t) (.obj m) q f ↔
    ∃ k : Fin m.length, ∃ p, q = .entry (m.get k).1 :: p ∧
      (∀ j < k, (S.decode t (m.get j).2).Succeeds) ∧ S.Offends t (m.get k).2 p f := by
  constructor
  · intro h
    cases h with
    | mapKind h => exact absurd rfl h
    | entry k hlt h => exact ⟨k, _, rfl, hlt, h⟩
  · rintro ⟨k, p, rfl, hlt, h⟩
    exact .entry k hlt h

theorem offends_map_of_kind (hw : w.kind ≠ .mapping) : S.Offends (.map t) w q f ↔
    q = [] ∧ f = .malformed (.kind "mapping" w.kind) := by
  constructor
  · intro h
    cases h with
    | mapKind => exact ⟨rfl, rfl⟩
    | entry => exact absurd rfl hw
  · rintro ⟨rfl, rfl⟩
    exact .mapKind hw

theorem offends_tuple {i : N.Tuple} {xs : List Json} (hi : (S.tuple i).Sound)
    (hn : (S.tuple i).elements.length = xs.length) : S.Offends (.tuple i) (.arr xs) q f ↔
      ∃ k : Fin (S.tuple i).elements.length, ∃ p, q = .element (S.tuple i).name k :: p ∧
        (∀ j < k, (S.decode ((S.tuple i).elements.get j) (xs.get (j.cast hn))).Succeeds) ∧
        S.Offends ((S.tuple i).elements.get k) (xs.get (k.cast hn)) p f := by
  constructor
  · intro h
    cases h with
    | tupleKind h => exact absurd rfl h
    | arity h => exact absurd (by rw [← hn, hi.arity]) h
    | element _ k hlt h => exact ⟨k, _, rfl, hlt, h⟩
  · rintro ⟨k, p, rfl, hlt, h⟩
    exact .element hn k hlt h

theorem offends_tuple_of_length {i : N.Tuple} {xs : List Json} (hi : (S.tuple i).Sound)
    (hn : xs.length ≠ (S.tuple i).arity) : S.Offends (.tuple i) (.arr xs) q f ↔
      q = [] ∧ f = .arity (S.tuple i).name (S.tuple i).arity xs.length := by
  constructor
  · intro h
    cases h with
    | tupleKind h => exact absurd rfl h
    | arity => exact ⟨rfl, rfl⟩
    | element hn' => exact absurd (by rw [← hn', hi.arity]) hn
  · rintro ⟨rfl, rfl⟩
    exact .arity hn

theorem offends_tuple_of_kind {i : N.Tuple} (hw : w.kind ≠ .sequence) :
    S.Offends (.tuple i) w q f ↔
      q = [] ∧ f = .malformed (.shape "sequence" (S.tuple i).name w.kind) := by
  constructor
  · intro h
    cases h with
    | tupleKind => exact ⟨rfl, rfl⟩
    | arity | element => exact absurd rfl hw
  · rintro ⟨rfl, rfl⟩
    exact .tupleKind hw

/-- What is wrong with a field: it is missing, or the entry with its key is at
    fault. -/
def FieldOffends (S : Schema N) (owner : String) (g : Field N) (m : Mapping) (q : Path)
    (f : Fault) : Prop :=
  (g.presence = .required ∧ m.get? g.key = none ∧ q = [.field owner g.key] ∧
      f = .malformed .missing) ∨
    ∃ x p, m.get? g.key = some x ∧ q = .field owner g.key :: p ∧ S.Offends g.valueType x p f

theorem offends_record {i : N.Record} {m : Mapping} : S.Offends (.record i) (.obj m) q f ↔
    ∃ k : Fin (S.record i).fields.length, (∀ j < k, S.Admits ((S.record i).fields.get j) m) ∧
      S.FieldOffends (S.record i).name ((S.record i).fields.get k) m q f := by
  constructor
  · intro h
    cases h with
    | recordKind h => exact absurd rfl h
    | missing k hlt hp hm => exact ⟨k, hlt, Or.inl ⟨hp, hm, rfl, rfl⟩⟩
    | field k hlt hx h => exact ⟨k, hlt, Or.inr ⟨_, _, hx, rfl, h⟩⟩
  · rintro ⟨k, hlt, ⟨hp, hm, rfl, rfl⟩ | ⟨x, p, hx, rfl, h⟩⟩
    · exact .missing k hlt hp hm
    · exact .field k hlt hx h

theorem offends_record_of_kind {i : N.Record} (hw : w.kind ≠ .mapping) :
    S.Offends (.record i) w q f ↔
      q = [] ∧ f = .malformed (.shape "mapping" (S.record i).name w.kind) := by
  constructor
  · intro h
    cases h with
    | recordKind => exact ⟨rfl, rfl⟩
    | missing | field => exact absurd rfl hw
  · rintro ⟨rfl, rfl⟩
    exact .recordKind hw

theorem offends_interface_of_kind {i : N.Interface} (hw : w.kind ≠ .mapping) :
    S.Offends (.interface i) w q f ↔
      q = [] ∧ f = .malformed (.shape "mapping" (S.interface i).name w.kind) := by
  constructor
  · intro h
    cases h with
    | interfaceKind => exact ⟨rfl, rfl⟩
    | untagged | tagKind | unknownTag | variant => exact absurd rfl hw
  · rintro ⟨rfl, rfl⟩
    exact .interfaceKind hw

section
variable {i : N.Interface} {m : Mapping} {tag : String}

theorem offends_interface_of_missing (hm : m.get? typeKey = none) :
    S.Offends (.interface i) (.obj m) q f ↔
      q = [.field (S.interface i).name typeKey] ∧ f = .malformed .missing := by
  constructor
  · intro h
    cases h with
    | interfaceKind h => exact absurd rfl h
    | untagged => exact ⟨rfl, rfl⟩
    | tagKind h | unknownTag h | variant h => rw [hm] at h; cases h
  · rintro ⟨rfl, rfl⟩
    exact .untagged hm

theorem offends_interface_of_untagged {x : Json} (hm : m.get? typeKey = some x)
    (hx : x.kind ≠ .string) : S.Offends (.interface i) (.obj m) q f ↔
      q = [.field (S.interface i).name typeKey] ∧ f = .malformed (.kind "string" x.kind) := by
  constructor
  · intro h
    cases h with
    | interfaceKind h => exact absurd rfl h
    | tagKind h => rw [hm] at h; cases h; exact ⟨rfl, rfl⟩
    | untagged h => rw [hm] at h; cases h
    | unknownTag h | variant h => rw [hm] at h; cases h; exact absurd rfl hx
  · rintro ⟨rfl, rfl⟩
    exact .tagKind hm hx

theorem offends_interface_of_none (hm : m.get? typeKey = some (.str tag))
    (hv : (S.interface i).find? tag = none) : S.Offends (.interface i) (.obj m) q f ↔
      q = [] ∧ f = .unknownTag (S.interface i).name tag := by
  constructor
  · intro h
    cases h with
    | interfaceKind h => exact absurd rfl h
    | untagged h => rw [hm] at h; cases h
    | tagKind h hx => rw [hm] at h; cases h; exact absurd rfl hx
    | unknownTag h => rw [hm] at h; cases h; exact ⟨rfl, rfl⟩
    | variant h hv' => rw [hm] at h; cases h; rw [hv] at hv'; cases hv'
  · rintro ⟨rfl, rfl⟩
    exact .unknownTag hm hv

theorem offends_interface_of_some {v : Fin (S.interface i).variants.length}
    (hm : m.get? typeKey = some (.str tag)) (hv : (S.interface i).find? tag = some v) :
    S.Offends (.interface i) (.obj m) q f ↔
      S.Offends (.record ((S.interface i).variants.get v).record) (.obj m) q f := by
  constructor
  · intro h
    cases h with
    | interfaceKind h => exact absurd rfl h
    | untagged h => rw [hm] at h; cases h
    | tagKind h hx => rw [hm] at h; cases h; exact absurd rfl hx
    | unknownTag h hv' => rw [hm] at h; cases h; rw [hv] at hv'; cases hv'
    | variant h hv' h' => rw [hm] at h; cases h; rw [hv] at hv'; cases hv'; exact h'
  · exact .variant hm hv

end

/-! ### Decoding -/

theorem located_list (ht : ∀ x ∈ w.children, Located (S.decode t x).result (S.Offends t x)) :
    Located (S.decode (.list t) w).result (S.Offends (.list t) w) := by
  by_cases hw : w.kind = .sequence
  · obtain ⟨xs, rfl⟩ := Json.kind_eq_sequence.1 hw
    rw [decode_list, Traced.result_map, Family.result_traverse]
    exact ((Located.traverse (fun k => ht _ (List.get_mem _ k)) fun _ => rfl).map _).congr
      fun _ _ => offends_list
  · rw [decode_list_of_kind t hw]
    exact (Located.error [] _).congr fun _ _ => offends_list_of_kind hw

theorem located_map (ht : ∀ x ∈ w.children, Located (S.decode t x).result (S.Offends t x)) :
    Located (S.decode (.map t) w).result (S.Offends (.map t) w) := by
  by_cases hw : w.kind = .mapping
  · obtain ⟨m, rfl⟩ := Json.kind_eq_mapping.1 hw
    rw [decode_map, Traced.result_map, Family.result_traverse]
    exact ((Located.traverse (fun k => ht _ (Mapping.mem_children (List.get_mem _ k)))
      fun _ => rfl).map _).congr fun _ _ => offends_map
  · rw [decode_map_of_kind t hw]
    exact (Located.error [] _).congr fun _ _ => offends_map_of_kind hw

theorem located_tuple {i : N.Tuple} (hi : (S.tuple i).Sound)
    (ht : ∀ x ∈ w.children, ∀ t ∈ (S.tuple i).elements,
      Located (S.decode t x).result (S.Offends t x)) :
    Located (S.decode (.tuple i) w).result (S.Offends (.tuple i) w) := by
  by_cases hw : w.kind = .sequence
  · obtain ⟨xs, rfl⟩ := Json.kind_eq_sequence.1 hw
    by_cases hn : xs.length = (S.tuple i).arity
    · have hn' : (S.tuple i).elements.length = xs.length := by rw [hn, hi.arity]
      rw [decode_tuple hi hn', Traced.result_map, Family.result_traverse]
      exact ((Located.traverse_locate
        (fun k => ht _ (List.get_mem _ _) _ (List.get_mem _ k)) fun _ => rfl).map _).congr
          fun _ _ => offends_tuple hi hn'
    · rw [decode_tuple_of_length hn]
      exact (Located.error [] _).congr fun _ _ => offends_tuple_of_length hi hn
  · rw [decode_tuple_of_kind i hw]
    exact (Located.error [] _).congr fun _ _ => offends_tuple_of_kind hw

theorem located_decodeField {owner : String} {g : Field N} {m : Mapping}
    (hg : ∀ x, m.get? g.key = some x →
      Located (S.decode g.valueType x).result (S.Offends g.valueType x)) :
    Located (S.decodeField owner g m).result (S.FieldOffends owner g m) := by
  cases h : m.get? g.key with
  | some x =>
    rw [decodeField_of_get? h, Traced.result_locate]
    exact ((hg x h).locate (s := .field owner g.key) rfl).congr fun q f => by
      simp [FieldOffends, h]
  | none =>
    cases hp : g.presence with
    | required =>
      rw [decodeField_of_required hp h]
      exact (Located.error [.field owner g.key] (.malformed .missing)).congr fun q f => by
        simp [FieldOffends, h, hp]
    | optional =>
      rw [decodeField_of_optional hp h, valueType_of_optional hp, decode_option_null]
      exact (Located.ok _).congr fun q f => by simp [FieldOffends, h, hp]

theorem admits_iff (owner : String) {g : Field N} {m : Mapping} :
    S.Admits g m ↔ (S.decodeField owner g m).Succeeds :=
  succeeds_decodeField.symm

theorem located_record {i : N.Record}
    (ht : ∀ x ∈ w.children, ∀ f ∈ (S.record i).fields,
      Located (S.decode f.valueType x).result (S.Offends f.valueType x)) :
    Located (S.decode (.record i) w).result (S.Offends (.record i) w) := by
  by_cases hw : w.kind = .mapping
  · obtain ⟨m, rfl⟩ := Json.kind_eq_mapping.1 hw
    rw [decode_record, Traced.result_map, decodeFields_eq, Family.result_traverse]
    refine ((Located.first fun k => located_decodeField fun x hx => ?_).map _).congr fun q f => ?_
    · exact ht x (Mapping.mem_children (Mapping.mem_of_get? hx)) _ (List.get_mem _ k)
    · rw [offends_record]
      simp only [admits_iff (S.record i).name]
      rfl
  · rw [decode_record_of_kind i hw]
    exact (Located.error [] _).congr fun _ _ => offends_record_of_kind hw

theorem located_interface {i : N.Interface}
    (ht : ∀ v ∈ (S.interface i).variants,
      Located (S.decode (.record v.record) w).result (S.Offends (.record v.record) w)) :
    Located (S.decode (.interface i) w).result (S.Offends (.interface i) w) := by
  by_cases hw : w.kind = .mapping
  · obtain ⟨m, rfl⟩ := Json.kind_eq_mapping.1 hw
    cases hm : m.get? typeKey with
    | none =>
      rw [decode_interface_of_missing hm]
      exact (Located.error [.field _ typeKey] (.malformed .missing)).congr fun _ _ =>
        offends_interface_of_missing hm
    | some x =>
      by_cases hx : x.kind = .string
      · obtain ⟨tag, rfl⟩ := Json.kind_eq_string.1 hx
        cases hv : (S.interface i).find? tag with
        | none =>
          rw [decode_interface_of_none hm hv]
          exact (Located.error [] (.unknownTag _ tag)).congr fun _ _ =>
            offends_interface_of_none hm hv
        | some v =>
          have hrec := ht ((S.interface i).variants.get v) (List.get_mem _ v)
          rw [decode_record, Traced.result_map, Located.map_iff] at hrec
          rw [decode_interface_of_some hm hv, Traced.result_log_bind, Traced.result_map]
          exact (hrec.map _).congr fun _ _ => offends_interface_of_some hm hv
      · rw [decode_interface_of_untagged hm hx]
        exact (Located.error [.field _ typeKey] (.malformed (.kind "string" x.kind))).congr
          fun _ _ => offends_interface_of_untagged hm hx
  · rw [decode_interface_of_kind i hw]
    exact (Located.error [] _).congr fun _ _ => offends_interface_of_kind hw

/-- Decoding fails where a document is at fault, and nowhere else. -/
theorem located (ht : S.Everywhere S.Exact t) (w : Json) :
    Located (S.decode t w).result (S.Offends t w) := by
  induction t, w using Schema.induction with
  | leaf l w =>
    intro e
    rw [decode_leaf, Traced.result_map, Except.map_eq_error]
    simp only [offends_leaf]
    constructor
    · intro h
      obtain ⟨f, rfl⟩ := Leaf.decode_error h
      exact ⟨[], f, ⟨rfl, h⟩, rfl⟩
    · rintro ⟨_, f, ⟨rfl, h⟩, rfl⟩
      exact h
  | option t w ih =>
    by_cases hw : w = .null
    · subst hw
      rw [decode_option_null]
      exact (Located.ok _).congr fun _ _ => iff_false_intro not_offends_null
    · rw [decode_option hw, Traced.result_map]
      exact (((ih (ht.part (.option t))).step rfl).map _).congr fun _ _ => offends_option hw
  | box t w ih =>
    rw [decode_box, Traced.result_map]
    exact (((ih (ht.part (.box t))).step rfl).map _).congr fun _ _ => offends_box
  | list t w ih => exact located_list fun x hx => ih x hx (ht.part (.list t))
  | map t w ih => exact located_map fun x hx => ih x hx (ht.part (.map t))
  | tuple i w ih =>
    exact located_tuple ht.here fun x hx t ht' => ih x hx t (ht.part (.element i ht'))
  | record i w ih =>
    exact located_record fun x hx f hf => ih x hx _ (ht.part (.field i hf))
  | interface i w ih =>
    exact located_interface fun v hv => ih v.record (ht.part (.variant i hv))

end Schema

end WireForm
