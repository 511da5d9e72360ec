/-
  WireForm — the trail of a run.

  Decoding visits a document from the outside in and from left to right.  What
  it leaves on the way is said here by a visit that knows nothing of decoding:
  one event for each member, and one for each interface, before those of its
  fields.  A run that fails leaves the events of what it visited, and last the
  report of its failure, if there is one.

  * `Schema.Visits`: a visit to the end, with the value of the document and the
    events on the way;
  * `Schema.Stops`: a visit that a fault stops, with the events up to there;
  * `Schema.Visits.decode_eq`, `Schema.Stops.decode_fails`: decoding does so;
  * `Schema.visits_or_stops`: every visit comes to its end or is stopped;
  * `Schema.trail_faithful`: the trail of a run is that of the visit.
-/
import WireForm.Proofs.Dispatch
import WireForm.Proofs.Location

namespace WireForm

/-! ## Events -/

/-- The event that reports a failure, if there is one. -/
def CodecError.report : CodecError → List Event
  | unknownOrdinal enumeration ordinal => [.unknownOrdinal enumeration ordinal]
  | unknownTag interface tag => [.unknownTag interface tag]
  | malformed .. | arity .. => []

/-- The event that reports how a run ended, if there is one. -/
def Traced.report {α : Type} (x : Traced α) : List Event :=
  match x.result with
  | .ok _ => []
  | .error e => e.report

/-- The event of a leaf: the name of a member of an enumeration. -/
def Leaf.trail : (l : Leaf) → l.Carrier → List Event
  | enumeration e, (i : e.Index) => [.member e.name (e.members.get i).name]
  | bool, _ | string, _ | int _, _ | float64, _ | float32, _ | any, _ | bytes, _ | datetime, _
  | foreign _, _ | discriminants _, _ => []

/-- The events of the parts before the part `k`. -/
def eventsBefore {n : Nat} (es : Fin n → List Event) (k : Fin n) : List Event :=
  ((List.ofFn es).take k).flatten

theorem eventsBefore_succ {n : Nat} (es : Fin (n + 1) → List Event) (k : Fin n) :
    eventsBefore es k.succ = es 0 ++ eventsBefore (fun j => es j.succ) k := by
  rw [eventsBefore, List.ofFn_succ, Fin.val_succ, List.take_succ_cons, List.flatten_cons]
  rfl

/-! ## Visits -/

variable {N : Names}

namespace Schema

/-- A visit of a document to its end. -/
inductive Visits (S : Schema N) : {t : Ty N} → Json → Value S t → List Event → Prop
  | leaf {l : Leaf} {w : Json} {x : l.Carrier} : (l.decode w).result = .ok x →
      Visits S w (.leaf x) (l.trail x)
  | none {t : Ty N} : Visits S .null (.none : Value S (.option t)) []
  | some {t : Ty N} {w : Json} {v : Value S t} {es : List Event} : w ≠ .null →
      Visits S w v es → Visits S w (.some v) es
  | box {t : Ty N} {w : Json} {v : Value S t} {es : List Event} :
      Visits S w v es → Visits S w (.box v) es
  | list {t : Ty N} {xs : List Json} {ys : Fin xs.length → Value S t}
      {es : Fin xs.length → List Event} : (∀ k, Visits S (xs.get k) (ys k) (es k)) →
      Visits S (.arr xs) (.list xs.length ys) (List.ofFn es).flatten
  -- an entry that is replaced is visited all the same
  | map {t : Ty N} {m : Mapping} {ys : Fin m.length → Value S t}
      {es : Fin m.length → List Event} : (∀ k, Visits S (m.get k).2 (ys k) (es k)) →
      Visits S (.obj m) (.ofEntries (List.ofFn fun k => ((m.get k).1, ys k)))
        (List.ofFn es).flatten
  | tuple {i : N.Tuple} {xs : List Json} (hn : (S.tuple i).elements.length = xs.length)
      {ys : (k : Fin (S.tuple i).elements.length) → Value S ((S.tuple i).elements.get k)}
      {es : Fin (S.tuple i).elements.length → List Event} :
      (∀ k, Visits S (xs.get (k.cast hn)) (ys k) (es k)) →
      Visits S (.arr xs) (.tuple i ys) (List.ofFn es).flatten
  | record {i : N.Record} {m : Mapping} {xs : Fin (S.record i).fields.length → Json}
      {ys : S.Fields i} {es : Fin (S.record i).fields.length → List Event} :
      (∀ k, ((S.record i).fields.get k).document? m = .some (xs k)) →
      (∀ k, Visits S (xs k) (ys k) (es k)) →
      Visits S (.obj m) (.record i ys) (List.ofFn es).flatten
  | variant {i : N.Interface} {m : Mapping} {tag : String}
      {v : Fin (S.interface i).variants.length}
      {ys : S.Fields ((S.interface i).variants.get v).record} {es : List Event} :
      m.get? typeKey = .some (.str tag) → (S.interface i).find? tag = .some v →
      Visits S (.obj m) (.record _ ys) es →
      Visits S (.obj m) (.variant i v ys) (.dispatch (S.interface i).name tag :: es)

/-- A record is visited if its fields are. -/
theorem visits_record {S : Schema N} {i : N.Record} {m : Mapping} {ys : S.Fields i}
    {es : Fin (S.record i).fields.length → List Event}
    (h : ∀ k, ∃ x, ((S.record i).fields.get k).document? m = some x ∧ S.Visits x (ys k) (es k)) :
    S.Visits (.obj m) (.record i ys) (List.ofFn es).flatten := by
  choose xs hxs hys using h
  exact .record hxs hys

/-- A visit of a document that a fault stops.  The parts before the faulty one
    are visited to their ends. -/
inductive Stops (S : Schema N) : Ty N → Json → Fault → List Event → Prop
  | leaf {l : Leaf} {w : Json} {f : Fault} : (l.decode w).result = .error (f.at placeholder) →
      Stops S (.leaf l) w f []
  | option {t : Ty N} {w : Json} {f : Fault} {es : List Event} : w ≠ .null →
      Stops S t w f es → Stops S (.option t) w f es
  | box {t : Ty N} {w : Json} {f : Fault} {es : List Event} :
      Stops S t w f es → Stops S (.box t) w f es
  | listKind {t : Ty N} {w : Json} : w.kind ≠ .sequence →
      Stops S (.list t) w (.malformed (.kind "sequence" w.kind)) []
  | item {t : Ty N} {xs : List Json} {es : Fin xs.length → List Event} (k : Fin xs.length)
      {f : Fault} {es' : List Event} :
      (∀ j < k, ∃ y : Value S t, S.Visits (xs.get j) y (es j)) → Stops S t (xs.get k) f es' →
      Stops S (.list t) (.arr xs) f (eventsBefore es k ++ es')
  | mapKind {t : Ty N} {w : Json} : w.kind ≠ .mapping →
      Stops S (.map t) w (.malformed (.kind "mapping" w.kind)) []
  | entry {t : Ty N} {m : Mapping} {es : Fin m.length → List Event} (k : Fin m.length)
      {f : Fault} {es' : List Event} :
      (∀ j < k, ∃ y : Value S t, S.Visits (m.get j).2 y (es j)) → Stops S t (m.get k).2 f es' →
      Stops S (.map t) (.obj m) f (eventsBefore es k ++ es')
  | tupleKind {i : N.Tuple} {w : Json} : w.kind ≠ .sequence →
      Stops S (.tuple i) w (.malformed (.shape "sequence" (S.tuple i).name w.kind)) []
  | arity {i : N.Tuple} {xs : List Json} : xs.length ≠ (S.tuple i).arity →
      Stops S (.tuple i) (.arr xs) (.arity (S.tuple i).name (S.tuple i).arity xs.length) []
  | element {i : N.Tuple} {xs : List Json} (hn : (S.tuple i).elements.length = xs.length)
      {es : Fin (S.tuple i).elements.length → List Event}
      (k : Fin (S.tuple i).elements.length) {f : Fault} {es' : List Event} :
      (∀ j < k, ∃ y : Value S ((S.tuple i).elements.get j),
        S.Visits (xs.get (j.cast hn)) y (es j)) →
      Stops S ((S.tuple i).elements.get k) (xs.get (k.cast hn)) f es' →
      Stops S (.tuple i) (.arr xs) f (eventsBefore es k ++ es')
  | recordKind {i : N.Record} {w : Json} : w.kind ≠ .mapping →
      Stops S (.record i) w (.malformed (.shape "mapping" (S.record i).name w.kind)) []
  | missing {i : N.Record} {m : Mapping} {es : Fin (S.record i).fields.length → List Event}
      (k : Fin (S.record i).fields.length) :
      (∀ j < k, ∃ x, ((S.record i).fields.get j).document? m = some x ∧
        ∃ y : Value S ((S.record i).fields.get j).valueType, S.Visits x y (es j)) →
      ((S.record i).fields.get k).document? m = none →
      Stops S (.record i) (.obj m) (.malformed .missing) (eventsBefore es k)
  | field {i : N.Record} {m : Mapping} {es : Fin (S.record i).fields.length → List Event}
      (k : Fin (S.record i).fields.length) {x : Json} {f : Fault} {es' : List Event} :
      (∀ j < k, ∃ x, ((S.record i).fields.get j).document? m = some x ∧
        ∃ y : Value S ((S.record i).fields.get j).valueType, S.Visits x y (es j)) →
      ((S.record i).fields.get k).document? m = some x →
      Stops S ((S.record i).fields.get k).valueType x f es' →
      Stops S (.record i) (.obj m) f (eventsBefore es k ++ es')
  | interfaceKind {i : N.Interface} {w : Json} : w.kind ≠ .mapping →
      Stops S (.interface i) w (.malformed (.shape "mapping" (S.interface i).name w.kind)) []
  | untagged {i : N.Interface} {m : Mapping} : m.get? typeKey = none →
      Stops S (.interface i) (.obj m) (.malformed .missing) []
  | tagKind {i : N.Interface} {m : Mapping} {x : Json} : m.get? typeKey = some x →
      x.kind ≠ .string → Stops S (.interface i) (.obj m) (.malformed (.kind "string" x.kind)) []
  | unknownTag {i : N.Interface} {m : Mapping} {tag : String} :
      m.get? typeKey = some (.str tag) → (S.interface i).find? tag = none →
      Stops S (.interface i) (.obj m) (.unknownTag (S.interface i).name tag)
        [.dispatch (S.interface i).name tag]
  | variant {i : N.Interface} {m : Mapping} {tag : String}
      {v : Fin (S.interface i).variants.length} {f : Fault} {es : List Event} :
      m.get? typeKey = some (.str tag) → (S.interface i).find? tag = some v →
      Stops S (.record ((S.interface i).variants.get v).record) (.obj m) f es →
      Stops S (.interface i) (.obj m) f (.dispatch (S.interface i).name tag :: es)

end Schema

/-! ## Runs -/

/-- A location does not change what is reported. -/
theorem Fault.report_at (f : Fault) (l l' : String) : (f.at l).report = (f.at l').report := by
  cases f <;> rfl

theorem Fault.exists_locate_at (f : Fault) (l l' : String) :
    ∃ l'', (f.at l).locate l' = f.at l'' := by
  cases f with
  | malformed reason =>
    by_cases h : l = placeholder
    · exact ⟨l', if_pos h⟩
    · exact ⟨l, if_neg h⟩
  | arity | unknownOrdinal | unknownTag => exact ⟨l, rfl⟩

theorem Fault.eq_of_at {f f' : Fault} {l l' : String} (h : f.at l = f'.at l') : f = f' := by
  cases f <;> cases f' <;> cases h <;> rfl

namespace Traced

variable {α γ : Type} {x : Traced α} {g : α → γ} {a : α} {es es' : List Event} {f : Fault}

/-- A run fails for a fault after some events, and reports it. -/
def Fails (x : Traced α) (f : Fault) (es : List Event) : Prop :=
  ∃ l, x = ⟨es ++ (f.at l).report, .error (f.at l)⟩

theorem map_of_ok (h : x = ⟨es, .ok a⟩) : g <$> x = ⟨es, .ok (g a)⟩ := by
  rw [map_eq_mk, h]
  rfl

theorem of_map_of_ok (hg : Function.Injective g) (h : g <$> x = ⟨es, .ok (g a)⟩) :
    x = ⟨es, .ok a⟩ := by
  rw [map_eq_mk, eq_mk_iff] at h
  obtain ⟨b, hb, hba⟩ := Except.map_eq_ok.1 h.2
  exact eq_mk_iff.2 ⟨h.1, hg hba ▸ hb⟩

theorem fails_map : (g <$> x).Fails f es ↔ x.Fails f es := by
  simp only [Fails, map_eq_mk, eq_mk_iff, Except.map_eq_error]

theorem Fails.locate (h : x.Fails f es) (location : String) : (x.locate location).Fails f es := by
  obtain ⟨l, rfl⟩ := h
  obtain ⟨l', hl'⟩ := f.exists_locate_at l location
  refine ⟨l', ?_⟩
  rw [f.report_at l' l, ← hl']
  rfl

theorem Fails.log (h : x.Fails f es) (e : Event) :
    (Traced.log e >>= fun _ => x).Fails f (e :: es) := by
  obtain ⟨l, rfl⟩ := h
  exact ⟨l, rfl⟩

variable {n : Nat} {β : Fin n → Type} {xs : ∀ k, Traced (β k)} {ys : ∀ k, β k}
  {ess : Fin n → List Event}

/-- A family that succeeds leaves the events of its members, in order. -/
theorem traverse_of_ok (h : ∀ k, xs k = ⟨ess k, .ok (ys k)⟩) :
    Family.traverse xs = ⟨(List.ofFn ess).flatten, .ok ys⟩ := by
  induction n with
  | zero =>
    show Traced.mk [] (.ok _) = Traced.mk [] _
    congr 2; funext k; exact k.elim0
  | succ n ih =>
    rw [Family.traverse, h 0, ih fun k => h k.succ]
    show Traced.mk (ess 0 ++ (List.flatten _ ++ [])) (.ok (Family.cons _ _)) = _
    rw [List.append_nil, ← Family.eq_cons, List.ofFn_succ, List.flatten_cons]

/-- A family that fails leaves the events of the members before the failure. -/
theorem fails_traverse {k : Fin n} (hlt : ∀ j < k, ∃ y, xs j = ⟨ess j, .ok y⟩)
    (hk : (xs k).Fails f es') : (Family.traverse xs).Fails f (eventsBefore ess k ++ es') := by
  induction n with
  | zero => exact k.elim0
  | succ n ih =>
    rw [Family.traverse]
    cases k using Fin.cases with
    | zero =>
      obtain ⟨l, h⟩ := hk
      rw [h]
      exact ⟨l, rfl⟩
    | succ k =>
      obtain ⟨y, hy⟩ := hlt 0 (Fin.succ_pos k)
      obtain ⟨l, h⟩ := ih (fun j hj => hlt j.succ (Fin.succ_lt_succ_iff.2 hj)) hk
      rw [hy, h, eventsBefore_succ, List.append_assoc]
      refine ⟨l, ?_⟩
      simp only [List.append_assoc]
      rfl

end Traced

/-! ## Leaves -/

namespace Leaf

variable {l : Leaf} {w : Json}

/-- A leaf that is read leaves its event. -/
theorem decode_of_ok {x : l.Carrier} (h : (l.decode w).result = .ok x) :
    l.decode w = ⟨l.trail x, .ok x⟩ := by
  cases l with
  | enumeration e =>
    simp only [decode, Enumeration.decode] at h ⊢
    split at h <;> cases h
    rfl
  | discriminants e =>
    simp only [decode, Discriminants.decode] at h ⊢
    split at h <;> cases h
    rfl
  | bool | string | int | float64 | float32 | any | bytes | datetime | foreign =>
    exact congrArg (Traced.mk []) h

/-- A leaf that is not read leaves the report of its failure. -/
theorem decode_fails {f : Fault} (h : (l.decode w).result = .error (f.at placeholder)) :
    (l.decode w).Fails f [] := by
  refine ⟨placeholder, Traced.eq_mk_iff.2 ⟨?_, h⟩⟩
  rcases decode_error_cases h with ⟨hes, reason, hf⟩ | ⟨name, hes, hf⟩
  · rw [hes, ← hf]
    rfl
  · rw [hes, hf]
    rfl

end Leaf

/-! ## Decoding visits -/

namespace Schema

variable {S : Schema N} {t : Ty N} {w : Json} {v : Value S t} {f : Fault} {es : List Event}

/-- Decoding leaves the events of a visit that comes to its end. -/
theorem Visits.decode_eq (ht : S.Everywhere S.Exact t) (h : S.Visits w v es) :
    S.decode t w = ⟨es, .ok v⟩ := by
  induction h with
  | leaf h =>
    rw [decode_leaf]
    exact Traced.map_of_ok (Leaf.decode_of_ok h)
  | none => exact decode_option_null _
  | some hw _ ih =>
    rw [decode_option hw]
    exact Traced.map_of_ok (ih (ht.part (.option _)))
  | box _ ih =>
    rw [decode_box]
    exact Traced.map_of_ok (ih (ht.part (.box _)))
  | list _ ih =>
    rw [decode_list]
    exact Traced.map_of_ok (Traced.traverse_of_ok fun k => ih k (ht.part (.list _)))
  | map _ ih =>
    rw [decode_map]
    exact Traced.map_of_ok (Traced.traverse_of_ok fun k => ih k (ht.part (.map _)))
  | tuple hn _ ih =>
    rw [decode_tuple ht.here hn]
    refine Traced.map_of_ok (Traced.traverse_of_ok fun k => ?_)
    rw [ih k (ht.part (.element_get k))]
    rfl
  | record hx _ ih =>
    rw [decode_record, decodeFields_eq]
    refine Traced.map_of_ok (Traced.traverse_of_ok fun k => ?_)
    rw [decodeField_of_document (hx k), ih k (ht.part (.field_get k))]
    rfl
  | @variant i m tag v ys es hm hv _ ih =>
    have hrec := ih (ht.part (.variant_get v))
    rw [decode_record] at hrec
    have hinj : Function.Injective (Value.record (S := S) ((S.interface i).variants.get v).record) :=
      fun _ _ h => by cases h; rfl
    rw [decode_interface_of_some hm hv, Traced.map_of_ok (Traced.of_map_of_ok hinj hrec)]
    rfl

theorem decodeField_of_visits {owner : String} {g : Field N} {m : Mapping}
    {y : Value S g.valueType} (hg : S.Everywhere S.Exact g.valueType)
    (hw : g.document? m = some w) (hy : S.Visits w y es) :
    S.decodeField owner g m = ⟨es, .ok y⟩ := by
  rw [decodeField_of_document hw, hy.decode_eq hg]
  rfl

/-- Decoding is stopped by the fault that stops a visit. -/
theorem Stops.decode_fails (ht : S.Everywhere S.Exact t) (h : S.Stops t w f es) :
    (S.decode t w).Fails f es := by
  induction h with
  | leaf h =>
    rw [decode_leaf]
    exact Traced.fails_map.2 (Leaf.decode_fails h)
  | option hw _ ih =>
    rw [decode_option hw]
    exact Traced.fails_map.2 (ih (ht.part (.option _)))
  | box _ ih =>
    rw [decode_box]
    exact Traced.fails_map.2 (ih (ht.part (.box _)))
  | listKind hw => exact ⟨placeholder, decode_list_of_kind _ hw⟩
  | item k hlt _ ih =>
    rw [decode_list]
    refine Traced.fails_map.2 (Traced.fails_traverse (fun j hj => ?_) (ih (ht.part (.list _))))
    exact (hlt j hj).imp fun y hy => hy.decode_eq (ht.part (.list _))
  | mapKind hw => exact ⟨placeholder, decode_map_of_kind _ hw⟩
  | entry k hlt _ ih =>
    rw [decode_map]
    refine Traced.fails_map.2 (Traced.fails_traverse (fun j hj => ?_) (ih (ht.part (.map _))))
    exact (hlt j hj).imp fun y hy => hy.decode_eq (ht.part (.map _))
  | tupleKind hw => exact ⟨placeholder, decode_tuple_of_kind _ hw⟩
  | arity hn => exact ⟨placeholder, decode_tuple_of_length hn⟩
  | element hn k hlt _ ih =>
    rw [decode_tuple ht.here hn]
    refine Traced.fails_map.2 (Traced.fails_traverse (fun j hj => ?_)
      ((ih (ht.part (.element_get k))).locate _))
    refine (hlt j hj).imp fun y hy => ?_
    rw [hy.decode_eq (ht.part (.element_get j))]
    rfl
  | recordKind hw => exact ⟨placeholder, decode_record_of_kind _ hw⟩
  | @missing i m es k hlt hk =>
    rw [decode_record, decodeFields_eq, ← List.append_nil (eventsBefore es k)]
    refine Traced.fails_map.2 (Traced.fails_traverse (fun j hj => ?_) ?_)
    · obtain ⟨x, hx, y, hy⟩ := hlt j hj
      exact ⟨y, decodeField_of_visits (ht.part (.field_get j)) hx hy⟩
    · rw [decodeField_of_document_none hk]
      exact ⟨_, rfl⟩
  | field k hlt hk _ ih =>
    rw [decode_record, decodeFields_eq]
    refine Traced.fails_map.2 (Traced.fails_traverse (fun j hj => ?_) ?_)
    · obtain ⟨x, hx, y, hy⟩ := hlt j hj
      exact ⟨y, decodeField_of_visits (ht.part (.field_get j)) hx hy⟩
    · rw [decodeField_of_document hk]
      exact (ih (ht.part (.field_get k))).locate _
  | interfaceKind hw => exact ⟨placeholder, decode_interface_of_kind _ hw⟩
  | untagged hm => exact ⟨_, decode_interface_of_missing hm⟩
  | tagKind hm hx => exact ⟨_, decode_interface_of_untagged hm hx⟩
  | unknownTag hm hv => exact ⟨placeholder, decode_interface_of_none hm hv⟩
  | @variant i m tag v f es hm hv _ ih =>
    have hrec := ih (ht.part (.variant_get v))
    rw [decode_record, Traced.fails_map] at hrec
    rw [decode_interface_of_some hm hv]
    exact (Traced.fails_map.2 hrec).log _

/-! ## Every visit ends -/

/-- The members of a family are all visited, or those before one that is not. -/
theorem visited_or_stopped {n : Nat} {V : Fin n → List Event → Prop} {Q : Fin n → Prop}
    (h : ∀ k, (∃ es, V k es) ∨ Q k) :
    (∃ es : Fin n → List Event, ∀ k, V k (es k)) ∨
      ∃ k, ∃ es : Fin n → List Event, (∀ j < k, V j (es j)) ∧ Q k := by
  induction n with
  | zero => exact Or.inl ⟨fun k => k.elim0, fun k => k.elim0⟩
  | succ n ih =>
    rcases h 0 with ⟨es₀, h₀⟩ | hq
    · rcases ih fun k => h k.succ with ⟨es, hes⟩ | ⟨k, es, hlt, hq⟩
      · exact Or.inl ⟨Family.cons es₀ es, Fin.forall_fin_succ.2 ⟨h₀, hes⟩⟩
      · refine Or.inr ⟨k.succ, Family.cons es₀ es, Fin.forall_fin_succ.2 ⟨fun _ => h₀, ?_⟩, hq⟩
        exact fun j hj => hlt j (Fin.succ_lt_succ_iff.1 hj)
    · exact Or.inr ⟨0, fun _ => [], fun j hj => absurd hj (Fin.not_lt_zero j), hq⟩

/-- A visit comes to its end, or it is stopped. -/
def Ends (S : Schema N) (t : Ty N) (w : Json) : Prop :=
  (∃ es, ∃ v : Value S t, S.Visits w v es) ∨ ∃ f es, S.Stops t w f es

theorem ends_leaf (l : Leaf) (w : Json) : S.Ends (.leaf l) w := by
  cases h : (l.decode w).result with
  | ok x => exact Or.inl ⟨_, _, .leaf h⟩
  | error e =>
    obtain ⟨f, rfl⟩ := Leaf.decode_error h
    exact Or.inr ⟨f, _, .leaf h⟩

theorem ends_option (h : S.Ends t w) : S.Ends (.option t) w := by
  by_cases hw : w = .null
  · exact hw ▸ Or.inl ⟨_, _, .none⟩
  · rcases h with ⟨es, v, h⟩ | ⟨f, es, h⟩
    · exact Or.inl ⟨es, _, .some hw h⟩
    · exact Or.inr ⟨f, es, .option hw h⟩

theorem ends_box (h : S.Ends t w) : S.Ends (.box t) w := by
  rcases h with ⟨es, v, h⟩ | ⟨f, es, h⟩
  · exact Or.inl ⟨es, _, .box h⟩
  · exact Or.inr ⟨f, es, .box h⟩

theorem ends_list (h : ∀ x ∈ w.children, S.Ends t x) : S.Ends (.list t) w := by
  by_cases hw : w.kind = .sequence
  · obtain ⟨xs, rfl⟩ := Json.kind_eq_sequence.1 hw
    rcases visited_or_stopped fun k => h _ (List.get_mem xs k) with
      ⟨es, hes⟩ | ⟨k, es, hlt, f, es', hk⟩
    · choose ys hys using hes
      exact Or.inl ⟨_, _, .list hys⟩
    · exact Or.inr ⟨f, _, .item k hlt hk⟩
  · exact Or.inr ⟨_, _, .listKind hw⟩

theorem ends_map (h : ∀ x ∈ w.children, S.Ends t x) : S.Ends (.map t) w := by
  by_cases hw : w.kind = .mapping
  · obtain ⟨m, rfl⟩ := Json.kind_eq_mapping.1 hw
    rcases visited_or_stopped fun k => h _ (Mapping.mem_children (List.get_mem m k)) with
      ⟨es, hes⟩ | ⟨k, es, hlt, f, es', hk⟩
    · choose ys hys using hes
      exact Or.inl ⟨_, _, .map hys⟩
    · exact Or.inr ⟨f, _, .entry k hlt hk⟩
  · exact Or.inr ⟨_, _, .mapKind hw⟩

theorem ends_tuple {i : N.Tuple} (hi : (S.tuple i).Sound)
    (h : ∀ x ∈ w.children, ∀ t ∈ (S.tuple i).elements, S.Ends t x) : S.Ends (.tuple i) w := by
  by_cases hw : w.kind = .sequence
  · obtain ⟨xs, rfl⟩ := Json.kind_eq_sequence.1 hw
    by_cases hn : xs.length = (S.tuple i).arity
    · have hn' : (S.tuple i).elements.length = xs.length := by rw [hn, hi.arity]
      rcases visited_or_stopped fun k : Fin (S.tuple i).elements.length =>
          h _ (List.get_mem xs (k.cast hn')) _ (List.get_mem _ k) with
        ⟨es, hes⟩ | ⟨k, es, hlt, f, es', hk⟩
      · choose ys hys using hes
        exact Or.inl ⟨_, _, .tuple hn' hys⟩
      · exact Or.inr ⟨f, _, .element hn' k hlt hk⟩
    · exact Or.inr ⟨_, _, .arity hn⟩
  · exact Or.inr ⟨_, _, .tupleKind hw⟩

/-- A field has a document that is visited to its end, or it stops the visit. -/
theorem ends_field {g : Field N} {m : Mapping}
    (h : ∀ x, m.get? g.key = some x → S.Ends g.valueType x) :
    (∃ es, ∃ x, g.document? m = some x ∧ ∃ y : Value S g.valueType, S.Visits x y es) ∨
      (g.document? m = none ∨
        ∃ x, g.document? m = some x ∧ ∃ f es, S.Stops g.valueType x f es) := by
  cases hx : g.document? m with
  | none => exact Or.inr (Or.inl rfl)
  | some x =>
    have hend : S.Ends g.valueType x := by
      rcases Field.document?_cases hx with hm | ⟨-, hp, rfl⟩
      · exact h x hm
      · rw [valueType_of_optional hp]
        exact Or.inl ⟨_, _, .none⟩
    rcases hend with ⟨es, y, hy⟩ | hs
    · exact Or.inl ⟨es, x, rfl, y, hy⟩
    · exact Or.inr (Or.inr ⟨x, rfl, hs⟩)

theorem ends_record {i : N.Record}
    (h : ∀ x ∈ w.children, ∀ f ∈ (S.record i).fields, S.Ends f.valueType x) :
    S.Ends (.record i) w := by
  by_cases hw : w.kind = .mapping
  · obtain ⟨m, rfl⟩ := Json.kind_eq_mapping.1 hw
    rcases visited_or_stopped fun k : Fin (S.record i).fields.length => ends_field fun x hx =>
        h x (Mapping.mem_children (Mapping.mem_of_get? hx)) _ (List.get_mem _ k) with
      ⟨es, hes⟩ | ⟨k, es, hlt, hk | ⟨x, hx, f, es', hk⟩⟩
    · choose xs hxs ys hys using hes
      exact Or.inl ⟨_, _, visits_record fun k => ⟨xs k, hxs k, hys k⟩⟩
    · exact Or.inr ⟨_, _, .missing k hlt hk⟩
    · exact Or.inr ⟨f, _, .field k hlt hx hk⟩
  · exact Or.inr ⟨_, _, .recordKind hw⟩

theorem ends_interface {i : N.Interface}
    (h : ∀ v ∈ (S.interface i).variants, S.Ends (.record v.record) w) :
    S.Ends (.interface i) w := by
  by_cases hw : w.kind = .mapping
  · obtain ⟨m, rfl⟩ := Json.kind_eq_mapping.1 hw
    cases hm : m.get? typeKey with
    | none => exact Or.inr ⟨_, _, .untagged hm⟩
    | some x =>
      by_cases hx : x.kind = .string
      · obtain ⟨tag, rfl⟩ := Json.kind_eq_string.1 hx
        cases hv : (S.interface i).find? tag with
        | none => exact Or.inr ⟨_, _, .unknownTag hm hv⟩
        | some v =>
          rcases h _ (List.get_mem _ v) with ⟨es, y, hy⟩ | ⟨f, es, hs⟩
          · cases y with
            | record r ys => exact Or.inl ⟨_, _, .variant hm hv hy⟩
          · exact Or.inr ⟨f, _, .variant hm hv hs⟩
      · exact Or.inr ⟨_, _, .tagKind hm hx⟩
  · exact Or.inr ⟨_, _, .interfaceKind hw⟩

/-- Every visit comes to its end or is stopped. -/
theorem visits_or_stops (ht : S.Everywhere S.Exact t) (w : Json) : S.Ends t w := by
  induction t, w using Schema.induction with
  | leaf l w => exact ends_leaf l w
  | option t w ih => exact ends_option (ih (ht.part (.option t)))
  | box t w ih => exact ends_box (ih (ht.part (.box t)))
  | list t w ih => exact ends_list fun x hx => ih x hx (ht.part (.list t))
  | map t w ih => exact ends_map fun x hx => ih x hx (ht.part (.map t))
  | tuple i w ih =>
    exact ends_tuple ht.here fun x hx t ht' => ih x hx t (ht.part (.element i ht'))
  | record i w ih => exact ends_record fun x hx f hf => ih x hx _ (ht.part (.field i hf))
  | interface i w ih =>
    exact ends_interface fun v hv => ih v.record (ht.part (.variant i hv))

/-! ## Levels -/

/-- All events are routine. -/
def Routine (es : List Event) : Prop := ∀ e ∈ es, e.level = .trace

theorem routine_flatten {n : Nat} {es : Fin n → List Event} (h : ∀ k, Routine (es k)) :
    Routine (List.ofFn es).flatten := by
  intro e he
  obtain ⟨l, hl, he⟩ := List.mem_flatten.1 he
  obtain ⟨k, rfl⟩ := List.mem_ofFn.1 hl
  exact h k e he

theorem routine_before {n : Nat} {es : Fin n → List Event} {k : Fin n}
    (h : ∀ j < k, Routine (es j)) : Routine (eventsBefore es k) := by
  intro e he
  obtain ⟨l, hl, he⟩ := List.mem_flatten.1 he
  obtain ⟨j, hj, rfl⟩ := List.mem_take_iff_getElem.1 hl
  rw [List.getElem_ofFn] at he
  exact h _ (Nat.lt_of_lt_of_le hj (Nat.min_le_left _ _)) e he

theorem routine_before_append {n : Nat} {es : Fin n → List Event} {k : Fin n} {es' : List Event}
    (h : ∀ j < k, Routine (es j)) (h' : Routine es') : Routine (eventsBefore es k ++ es') :=
  List.forall_mem_append.2 ⟨routine_before h, h'⟩

theorem Visits.routine (h : S.Visits w v es) : Routine es := by
  induction h with
  | @leaf l w x h =>
    intro e he
    cases l with
    | enumeration d =>
      obtain rfl := List.mem_singleton.1 he
      rfl
    | bool | string | int | float64 | float32 | any | bytes | datetime | foreign
    | discriminants => cases he
  | none => exact fun _ he => by cases he
  | some _ _ ih => exact ih
  | box _ ih => exact ih
  | list _ ih => exact routine_flatten ih
  | map _ ih => exact routine_flatten ih
  | tuple _ _ ih => exact routine_flatten ih
  | record _ _ ih => exact routine_flatten ih
  | variant _ _ _ ih => exact List.forall_mem_cons.2 ⟨rfl, ih⟩

theorem Stops.routine (h : S.Stops t w f es) : Routine es := by
  have hnil : Routine [] := fun _ he => by cases he
  induction h with
  | leaf | listKind | mapKind | tupleKind | arity | recordKind | interfaceKind | untagged
  | tagKind => exact hnil
  | option _ _ ih => exact ih
  | box _ ih => exact ih
  | item _ hlt _ ih =>
    refine routine_before_append (fun j hj => ?_) ih
    obtain ⟨_, hy⟩ := hlt j hj
    exact hy.routine
  | entry _ hlt _ ih =>
    refine routine_before_append (fun j hj => ?_) ih
    obtain ⟨_, hy⟩ := hlt j hj
    exact hy.routine
  | element _ _ hlt _ ih =>
    refine routine_before_append (fun j hj => ?_) ih
    obtain ⟨_, hy⟩ := hlt j hj
    exact hy.routine
  | missing _ hlt =>
    refine routine_before fun j hj => ?_
    obtain ⟨_, _, _, hy⟩ := hlt j hj
    exact hy.routine
  | field _ hlt _ _ ih =>
    refine routine_before_append (fun j hj => ?_) ih
    obtain ⟨_, _, _, hy⟩ := hlt j hj
    exact hy.routine
  | unknownTag => exact List.forall_mem_singleton.2 rfl
  | variant _ _ _ ih => exact List.forall_mem_cons.2 ⟨rfl, ih⟩

/-- What is reported is worth a look. -/
theorem level_of_mem_report {e : CodecError} {ev : Event} (h : ev ∈ e.report) :
    ev.level = .debug := by
  cases e with
  | unknownOrdinal | unknownTag => rw [List.mem_singleton.1 h]; rfl
  | malformed | arity => cases h

/-- **The trail of a run is that of the visit.**  It succeeds with a value and
    events iff the visit comes to its end with them, and fails for a fault iff
    the fault stops the visit.  The events of the visit are traces, and only the
    report of a failure follows them. -/
theorem trail_faithful (ht : S.Everywhere S.Exact t) (w : Json) :
    (∀ v es, S.decode t w = ⟨es, .ok v⟩ ↔ S.Visits w v es) ∧
      (∀ f es, (S.decode t w).Fails f es ↔ S.Stops t w f es) ∧
      ∃ es, (S.decode t w).events = es ++ (S.decode t w).report ∧
        (∀ e ∈ es, e.level = .trace) ∧ ∀ e ∈ (S.decode t w).report, e.level = .debug := by
  rcases visits_or_stops ht w with ⟨es, v, hv⟩ | ⟨f, es, hs⟩
  · have hd := hv.decode_eq ht
    refine ⟨fun v' es' => ⟨fun h => ?_, fun h => h.decode_eq ht⟩,
      fun f' es' => ⟨?_, fun h => h.decode_fails ht⟩, es, ?_, hv.routine, ?_⟩
    · rw [hd] at h
      cases h
      exact hv
    · rintro ⟨l, h⟩
      rw [hd] at h
      cases h
    · rw [hd]
      exact (List.append_nil es).symm
    · rw [hd]
      exact fun _ he => by cases he
  · obtain ⟨l, hd⟩ := hs.decode_fails ht
    refine ⟨fun v' es' => ⟨fun h => ?_, fun h => h.decode_eq ht⟩,
      fun f' es' => ⟨?_, fun h => h.decode_fails ht⟩, es, ?_, hs.routine, ?_⟩
    · rw [hd] at h
      cases h
    · rintro ⟨l', h⟩
      rw [hd, Traced.mk.injEq] at h
      obtain ⟨hes, he⟩ := h
      have hf := Except.error.inj he
      obtain rfl := Fault.eq_of_at hf
      rw [f.report_at l l'] at hes
      rwa [← List.append_cancel_right hes]
    · rw [hd]
      rfl
    · rw [hd]
      exact fun _ he => level_of_mem_report he

end Schema

namespace Catalogue

/-- A group whose second member is no shape. -/
def starGroup : Json :=
  .obj [("type", .str "group"), ("name", .str "stars"),
    ("members", .arr [blueSquare, .obj [("type", .str "star")]])]

/-- The square is dispatched to, and its color is a member. -/
theorem visits_blueSquare :
    schema.Visits blueSquare (.variant (S := schema) InterfaceName.shape ⟨1, by decide⟩ square)
      [.dispatch "Shape" "square", .member "Color" "Blue"] := by
  refine @Schema.Visits.variant _ schema InterfaceName.shape _ "square" ⟨1, _⟩ square _ rfl rfl ?_
  refine @Schema.visits_record _ schema RecordName.square _ square
    (Family.cons [] fun _ => [.member "Color" "Blue"]) (Fin.forall_fin_two.2 ⟨?_, ?_⟩)
  · exact ⟨_, rfl, .leaf rfl⟩
  · exact ⟨_, rfl, .leaf rfl⟩

/-- The second member is dispatched to before it turns out to be none. -/
theorem stops_starGroup :
    schema.Stops (.interface .shape) starGroup (.unknownTag "Shape" "star")
      [.dispatch "Shape" "group", .dispatch "Shape" "square", .member "Color" "Blue",
        .dispatch "Shape" "star"] := by
  have hmembers : schema.Stops (.list (.interface .shape))
      (.arr [blueSquare, .obj [("type", .str "star")]]) (.unknownTag "Shape" "star")
      [.dispatch "Shape" "square", .member "Color" "Blue", .dispatch "Shape" "star"] := by
    refine @Schema.Stops.item _ schema (.interface .shape)
      [blueSquare, .obj [("type", .str "star")]]
      (Family.cons [.dispatch "Shape" "square", .member "Color" "Blue"] fun _ => []) (Fin.last 1)
      _ [.dispatch "Shape" "star"] (Fin.forall_fin_two.2 ⟨?_, ?_⟩) ?_
    · exact fun _ => ⟨_, visits_blueSquare⟩
    · exact fun h => absurd h (Nat.lt_irrefl 1)
    · exact @Schema.Stops.unknownTag _ schema InterfaceName.shape _ "star" rfl rfl
  refine @Schema.Stops.variant _ schema InterfaceName.shape _ "group" (Fin.last 2) _ _ rfl rfl ?_
  refine @Schema.Stops.field _ schema RecordName.group _ (fun _ => []) (Fin.last 2) _ _
    [.dispatch "Shape" "square", .member "Color" "Blue", .dispatch "Shape" "star"] ?_ rfl hmembers
  rintro ⟨_ | _ | j, hj⟩ hlt
  · exact ⟨_, rfl, .leaf (l := .string) "stars", .leaf rfl⟩
  · exact ⟨_, rfl, .none (t := string), .none⟩
  · change j + 2 < 2 at hlt
    omega

theorem trail_faithful_starGroup :
    schema.Everywhere schema.Exact (.interface .shape) ∧
      schema.decode (.interface .shape) starGroup =
        ⟨[.dispatch "Shape" "group", .dispatch "Shape" "square", .member "Color" "Blue",
          .dispatch "Shape" "star", .unknownTag "Shape" "star"],
          .error (.unknownTag "Shape" "star")⟩ := by
  have hs := shape_sound.mono fun _ h => Schema.Readable.exact (Schema.Sound.readable h)
  obtain ⟨l, h⟩ := ((Schema.trail_faithful hs starGroup).2.1 _ _).2 stops_starGroup
  exact ⟨hs, h⟩

end Catalogue

end WireForm
