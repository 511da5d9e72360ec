/-
  WireForm — writers, followed to the end.

  A script that writes its calls in order is a traversal of what they encode,
  as long as the declaration is one the encoder lets pass: it then either comes
  to the first failure, with a location, or to all entries.

  * `WriteScript.run_all`, `PushScript.run_all`: scripts as traversals;
  * `Value.encode_tuple`, `Value.encode_record`, …: what encoding does at each
    type, and `Value.encode_tuple_of_closed`, … the same where writers go on after
    the elements and fields.
-/
import WireForm.Proofs.Entries
import WireForm.Proofs.Outcome
import WireForm.Proofs.Sound
import WireForm.Schema.Encode

namespace WireForm

/-! ## Scripts -/

variable {N : Names}

/-- The entry of a field, given whether its value is absent and its document. -/
def Field.entry (f : Field N) (absent : Bool) (w : Json) : Option (String × Json) :=
  match f.presence with
  | .required => some (f.key, w)
  | .optional => if absent then none else some (f.key, w)

/-- Only an optional field has no entry, and only if its value is absent. -/
theorem Field.entry_cases (f : Field N) (absent : Bool) (w : Json) :
    f.entry absent w = some (f.key, w) ∨
      f.presence = .optional ∧ absent = true ∧ f.entry absent w = none := by
  unfold entry
  cases f.presence with
  | required => exact Or.inl rfl
  | optional =>
    cases absent with
    | true => exact Or.inr ⟨rfl, rfl, rfl⟩
    | false => exact Or.inl rfl

theorem Field.key_of_mem_entry {f : Field N} {absent : Bool} {w : Json} {e : String × Json}
    (h : e ∈ f.entry absent w) : e.1 = f.key := by
  unfold entry at h
  split at h
  · cases h; rfl
  · split at h <;> cases h
    rfl

namespace FieldWriter

variable {f : Field N} {absent : Bool} {x : Except CodecError Json} {v : Json} {e : CodecError}

/-- A call writes the entry of its field.  An absent value is `null`. -/
theorem call_call_of_ok (h : x = .ok v) (w : FieldWriter) :
    w.call (f.call absent x) =
      (.ok (), { w with fields := w.fields.write (f.entry absent v) }) := by
  subst h
  obtain ⟨key, presence, type⟩ := f
  cases presence with
  | required => rfl
  | optional => cases absent <;> rfl

/-- A call fails with the location of its field. -/
theorem call_call_of_error (ha : absent = false) (h : x = .error e) (w : FieldWriter) :
    w.call (f.call absent x) = (.error (e.locate (fieldPath w.owner f.key)), w) := by
  subst h ha
  obtain ⟨key, presence, type⟩ := f
  cases presence <;> rfl

end FieldWriter

namespace WriteScript

variable {w w' : FieldWriter}

/-- Calls that write an entry each, or none. -/
theorem run_all_map {ι : Type} {call : ι → FieldCall} {entry : ι → Option (String × Json)}
    (h : ∀ k w, FieldWriter.call w (call k) =
      (.ok (), { w with fields := w.fields.write (entry k) })) (ks : List ι) (w : FieldWriter) :
    (all (ks.map call)).run w =
      (.ok (), ⟨w.owner, (ks.map entry).foldl Mapping.write w.fields⟩) := by
  induction ks generalizing w with
  | nil => rfl
  | cons k ks ih =>
    simp only [List.map_cons, all, run, h, List.foldl_cons]
    exact ih _

/-- More calls after those that succeed. -/
theorem run_all_append {cs : List FieldCall} (h : (all cs).run w = (.ok (), w'))
    (cs' : List FieldCall) : (all (cs ++ cs')).run w = (all cs').run w' := by
  induction cs generalizing w with
  | nil => cases h; rfl
  | cons c cs ih =>
    simp only [List.cons_append, all, run] at h ⊢
    cases hc : (w.call c).1 with
    | ok =>
      simp only [hc] at h ⊢
      exact ih h
    | error e =>
      simp only [hc, run] at h
      cases h

theorem run_all_constants (cs : List (String × Json)) (w : FieldWriter) :
    (all (cs.map fun c => .required c.1 (.ok c.2))).run w =
      (.ok (), ⟨w.owner, (cs.map some).foldl Mapping.write w.fields⟩) :=
  run_all_map (fun _ _ => rfl) cs w

variable {n : Nat} {fields : Fin n → Field N} {absent : Fin n → Bool}
  {xs : Fin n → Except CodecError Json}

theorem run_all_of_ok {vs : Fin n → Json} (h : ∀ k, xs k = .ok (vs k)) (w : FieldWriter) :
    (all (List.ofFn fun k => (fields k).call (absent k) (xs k))).run w =
      (.ok (), ⟨w.owner,
        (List.ofFn fun k => (fields k).entry (absent k) (vs k)).foldl Mapping.write w.fields⟩) := by
  rw [List.ofFn_eq_map, List.ofFn_eq_map]
  exact run_all_map (fun k => FieldWriter.call_call_of_ok (h k)) _ w

theorem run_all_of_error (fields : Fin n → Field N) (absent : Fin n → Bool) {i : Fin n}
    {e : CodecError} (ha : absent i = false) (h : xs i = .error e)
    (hlt : ∀ j < i, ∃ v, xs j = .ok v) (cs : List FieldCall) (w : FieldWriter) :
    ((all (List.ofFn (fun k => (fields k).call (absent k) (xs k)) ++ cs)).run w).1 =
      .error (e.locate (fieldPath w.owner (fields i).key)) := by
  induction n generalizing w with
  | zero => exact i.elim0
  | succ n ih =>
    simp only [List.ofFn_succ, List.cons_append, all, run]
    cases i using Fin.cases with
    | zero => rw [FieldWriter.call_call_of_error ha h]; rfl
    | succ i =>
      obtain ⟨v, hv⟩ := hlt 0 (Fin.succ_pos i)
      simp only [FieldWriter.call_call_of_ok hv]
      exact ih _ (fun k => absent k.succ) ha h
        (fun j hj => hlt j.succ (Fin.succ_lt_succ_iff.2 hj)) _

end WriteScript

namespace PushScript

variable {n : Nat} {xs : Fin n → Except CodecError Json}

theorem run_all_of_ok {vs : Fin n → Json} (h : ∀ k, xs k = .ok (vs k)) (ks : List (Fin n))
    (w : ElementWriter) :
    (all (ks.map xs)).run w = (.ok (), { w with elements := w.elements ++ ks.map vs }) := by
  induction ks generalizing w with
  | nil =>
    show _ = (Except.ok (), ElementWriter.mk w.owner (w.elements ++ []))
    rw [List.append_nil]; rfl
  | cons k ks ih =>
    simp only [List.map_cons, all, run, ElementWriter.push, h k]
    rw [ih, List.append_assoc, List.singleton_append]

theorem run_all_of_error {i : Fin n} {e : CodecError} (h : xs i = .error e)
    (hlt : ∀ j < i, ∃ v, xs j = .ok v) (rest : List (Except CodecError Json)) (w : ElementWriter) :
    ((all (List.ofFn xs ++ rest)).run w).1 =
      .error (e.locate (indexPath w.owner (w.elements.length + i))) := by
  induction n generalizing w with
  | zero => exact i.elim0
  | succ n ih =>
    simp only [List.ofFn_succ, List.cons_append, all, run, ElementWriter.push]
    cases i using Fin.cases with
    | zero => rw [h]; rfl
    | succ i =>
      obtain ⟨v, hv⟩ := hlt 0 (Fin.succ_pos i)
      simp only [hv]
      rw [ih h fun j hj => hlt j.succ (Fin.succ_lt_succ_iff.2 hj), List.length_append,
        List.length_singleton, Fin.val_succ, Nat.add_right_comm, Nat.add_assoc]

end PushScript

/-! ## Encoders -/

section
variable {owner tag : String} {declared : List String} {m : Mapping} {e : CodecError}

theorem Record.encodeMapping_of_ok {script : WriteScript}
    (h : script.run (FieldWriter.new owner) = (.ok (), ⟨owner, m⟩))
    (hm : ∀ key ∈ m.keys, key ∈ declared) : encodeMapping owner declared script = .ok m := by
  have hnone : (m.keys.find? fun key => !declared.contains key) = none :=
    List.find?_eq_none.2 fun key hkey => by simpa using hm key hkey
  simp only [encodeMapping, h, hnone]

theorem Record.encodeMapping_of_error {script : WriteScript}
    (h : (script.run (FieldWriter.new owner)).1 = .error e) :
    encodeMapping owner declared script = .error e := by
  unfold encodeMapping
  generalize script.run (FieldWriter.new owner) = r at h
  obtain ⟨result, w⟩ := r
  obtain rfl : result = .error e := h
  rfl

theorem Tuple.encode_of_ok {arity : Nat} {script : PushScript} {ws : List Json}
    (h : script.run (ElementWriter.new owner) = (.ok (), ⟨owner, ws⟩)) (hn : ws.length = arity) :
    encode owner arity script = .ok (.arr ws) := by
  rw [encode, h]
  exact if_pos hn

theorem Tuple.encode_of_error {arity : Nat} {script : PushScript}
    (h : (script.run (ElementWriter.new owner)).1 = .error e) :
    encode owner arity script = .error e := by
  unfold encode
  generalize script.run (ElementWriter.new owner) = r at h
  obtain ⟨result, w⟩ := r
  obtain rfl : result = .error e := h
  rfl

theorem Variant.encode_of_notMem {script : WriteScript} (h : typeKey ∉ declared) :
    encode owner tag declared script = (Record.encodeMapping owner declared script).map fun m =>
      m.foldl (fun m e => Mapping.insert m e.1 e.2) [(typeKey, .str tag)] := by
  rw [encode, if_neg (by simpa using h)]
  cases Record.encodeMapping owner declared script <;> rfl

end

/-! ## Absent values -/

namespace Value

variable {S : Schema N} {t : Ty N}

/-- An absent value is written as `null` where it is written. -/
theorem encode_of_isNone {v : Value S t} (h : v.isNone = true) : v.encode = .ok .null := by
  cases v with
  | none => rfl
  | leaf | some | box | list | map | tuple | record | variant => cases h

theorem isNone_of_error {v : Value S t} {e : CodecError} (h : v.encode = .error e) :
    v.isNone = false := by
  cases hn : v.isNone with
  | false => rfl
  | true => rw [encode_of_isNone hn] at h; cases h

end Value

/-! ## Records -/

namespace Schema

variable {S : Schema N} {i : N.Record} {xs : S.Fields i}

/-- The entries of a record in the order of writing, given their documents. -/
def entries (xs : S.Fields i) (ws : Fin (S.record i).writes.length → Json) :
    List (Option (String × Json)) :=
  List.ofFn fun k => ((S.record i).written k).entry (writtenValue xs k).isNone (ws k)

/-- The entries that a writer leaves: those of its fields, and its constants. -/
def written (xs : S.Fields i) (ws : Fin (S.record i).writes.length → Json) :
    List (Option (String × Json)) :=
  entries xs ws ++ (S.record i).constants.map some

theorem written_of_writable (hi : (S.record i).Writable)
    (ws : Fin (S.record i).writes.length → Json) : written xs ws = entries xs ws := by
  rw [written, hi.plain, List.map_nil, List.append_nil]

/-- The document of the field at a place of the order of writing, a failure with
    its location. -/
def encodeField (xs : S.Fields i) (k : Fin (S.record i).writes.length) : Except CodecError Json :=
  (writtenValue xs k).encode.mapError
    (CodecError.locate (fieldPath (S.record i).name ((S.record i).written k).key))

/-- The calls of a record's fields, place by place. -/
theorem fieldScript_eq (xs : S.Fields i) : S.fieldScript xs =
    .all (List.ofFn (fun k => ((S.record i).written k).call
      (writtenValue xs k).isNone (writtenValue xs k).encode) ++
        (S.record i).constants.map fun c => .required c.1 (.ok c.2)) := by
  rw [fieldScript, RecordDecl.script, ← List.ofFn_getElem_eq_map (S.record i).writes]
  rfl

/-- A record that writes what it declares is written by a traversal of its
    fields in the order of writing. -/
theorem encodeFields_of_closed (hi : (S.record i).Closed) (xs : S.Fields i) :
    S.encodeFields xs = (Family.traverse (encodeField xs)).map fun ws =>
      (written xs ws).foldl Mapping.write [] := by
  refine Family.eq_map_traverse (fun ws hws => ?_) fun k e hk hlt => ?_
  · have hrun : (S.fieldScript xs).run (FieldWriter.new (S.record i).name) = (.ok (),
        ⟨(S.record i).name, (written xs ws).foldl Mapping.write []⟩) := by
      rw [fieldScript_eq, written, List.foldl_append]
      exact (WriteScript.run_all_append (WriteScript.run_all_of_ok hws _) _).trans
        (WriteScript.run_all_constants _ _)
    refine Record.encodeMapping_of_ok hrun fun key hkey => ?_
    rcases Mapping.mem_keys_foldl_write hkey with ⟨v, hv⟩ | h
    · rcases List.mem_append.1 hv with hv | hv
      · obtain ⟨k, hk⟩ := List.mem_ofFn.1 hv
        obtain rfl : key = _ := Field.key_of_mem_entry hk
        exact hi.fields _ (List.get_mem _ _)
      · obtain ⟨c, hc, ⟨⟩⟩ := List.mem_map.1 hv
        exact hi.constants _ hc
    · cases h
  · rw [encodeFields, fieldScript_eq]
    exact Record.encodeMapping_of_error (WriteScript.run_all_of_error _
      (fun k => (writtenValue xs k).isNone) (Value.isNone_of_error hk) hk hlt _ _)

end Schema

/-! ## Values -/

namespace Value

variable {S : Schema N} {t : Ty N}

theorem encode_list {n : Nat} (xs : Fin n → Value S t) :
    (list n xs).encode =
      (Family.traverse fun k => (xs k).encode).map fun ws => .arr (List.ofFn ws) := by
  rw [encode, Family.collect_eq_traverse]
  rfl

theorem encode_map {keys : List String} (sorted : SortedEntries.Sorted keys)
    (xs : Fin keys.length → Value S t) :
    (map keys sorted xs).encode = (Family.traverse fun k => (xs k).encode).map fun ws =>
      .obj (List.ofFn fun k => (keys.get k, ws k)) := by
  rw [encode, Family.collect_eq_traverse]
  rfl

theorem encode_tuple_of_closed {i : N.Tuple} (hi : (S.tuple i).Closed)
    (xs : (k : Fin (S.tuple i).elements.length) → Value S ((S.tuple i).elements.get k)) :
    (tuple i xs).encode = (Family.traverse fun k =>
      (xs k).encode.mapError (CodecError.locate (indexPath (S.tuple i).name k))).map fun ws =>
        .arr (List.ofFn ws ++ (S.tuple i).echoes.map ws) := by
  rw [encode, TupleDecl.script]
  refine Family.eq_map_traverse (fun ws hws => ?_) fun k e hk hlt => ?_
  · rw [List.ofFn_eq_map, List.ofFn_eq_map, ← List.map_append, ← List.map_append]
    refine Tuple.encode_of_ok (PushScript.run_all_of_ok hws _ _) ?_
    simp [hi.arity]
  · refine Tuple.encode_of_error ((PushScript.run_all_of_error hk hlt _ _).trans ?_)
    rw [ElementWriter.new, List.length_nil, Nat.zero_add]

theorem encode_tuple {i : N.Tuple} (hi : (S.tuple i).Sound)
    (xs : (k : Fin (S.tuple i).elements.length) → Value S ((S.tuple i).elements.get k)) :
    (tuple i xs).encode = (Family.traverse fun k =>
      (xs k).encode.mapError (CodecError.locate (indexPath (S.tuple i).name k))).map fun ws =>
        .arr (List.ofFn ws) := by
  rw [encode_tuple_of_closed hi.closed]
  simp only [hi.plain, List.map_nil, List.append_nil]

theorem encode_record_of_closed {i : N.Record} (hi : (S.record i).Closed) (xs : S.Fields i) :
    (record i xs).encode = (Family.traverse (Schema.encodeField xs)).map fun ws =>
      .obj ((Schema.written xs ws).foldl Mapping.write []) := by
  change (S.encodeFields xs).map Json.obj = _
  rw [Schema.encodeFields_of_closed hi]
  cases Family.traverse (Schema.encodeField xs) <;> rfl

theorem encode_record {i : N.Record} (hi : (S.record i).Writable) (xs : S.Fields i) :
    (record i xs).encode = (Family.traverse (Schema.encodeField xs)).map fun ws =>
      .obj ((Schema.entries xs ws).foldl Mapping.write []) := by
  rw [encode_record_of_closed hi.closed]
  simp only [Schema.written_of_writable hi]

theorem encode_variant_of_closed {i : N.Interface} {v : Fin (S.interface i).variants.length}
    (hr : (S.record ((S.interface i).variants.get v).record).Closed)
    (hv : typeKey ∉ (S.record ((S.interface i).variants.get v).record).keys)
    (xs : S.Fields ((S.interface i).variants.get v).record) :
    (variant i v xs).encode = (Family.traverse (Schema.encodeField xs)).map fun ws =>
      .obj (((Schema.written xs ws).foldl Mapping.write []).foldl
        (fun m e => Mapping.insert m e.1 e.2)
        [(typeKey, .str ((S.interface i).variants.get v).tag)]) := by
  change (Variant.encode _ _ _ (S.fieldScript xs)).map Json.obj = _
  rw [Variant.encode_of_notMem hv]
  change ((S.encodeFields xs).map _).map _ = _
  rw [Schema.encodeFields_of_closed hr]
  cases Family.traverse (Schema.encodeField xs) <;> rfl

theorem encode_variant {i : N.Interface} {v : Fin (S.interface i).variants.length}
    (hr : (S.record ((S.interface i).variants.get v).record).Writable)
    (hv : typeKey ∉ (S.record ((S.interface i).variants.get v).record).keys)
    (xs : S.Fields ((S.interface i).variants.get v).record) :
    (variant i v xs).encode = (Family.traverse (Schema.encodeField xs)).map fun ws =>
      .obj (((Schema.entries xs ws).foldl Mapping.write []).foldl
        (fun m e => Mapping.insert m e.1 e.2)
        [(typeKey, .str ((S.interface i).variants.get v).tag)]) := by
  rw [encode_variant_of_closed hr.closed hv]
  simp only [Schema.written_of_writable hr]

end Value

/-! ## Sound records -/

/-- Every field is written. -/
theorem RecordDecl.exists_writes_get (d : RecordDecl N) (k : Fin d.fields.length) :
    ∃ j, d.writes.get j = k :=
  List.get_of_mem (d.writes_perm.mem_iff.2 (List.mem_finRange k))

/-- No field is written twice. -/
theorem RecordDecl.writes_injective (d : RecordDecl N) : Function.Injective d.writes.get :=
  (d.writes_perm.nodup_iff.2 (List.nodup_finRange _)).injective_get

namespace Schema

variable {S : Schema N} {i : N.Record} {xs : S.Fields i}
  {ws : Fin (S.record i).writes.length → Json}

theorem key_injective (hi : (S.record i).Sound) :
    Function.Injective fun k => ((S.record i).written k).key := by
  have hkeys : Function.Injective fun k : Fin (S.record i).fields.length =>
      ((S.record i).fields.get k).key := by
    rw [← List.nodup_ofFn]
    show (List.ofFn fun k : Fin (S.record i).fields.length => (S.record i).fields[k.val].key).Nodup
    rw [List.ofFn_getElem_eq_map]
    exact hi.distinct
  exact hkeys.comp (S.record i).writes_injective

theorem key_of_mem_entry (k : Fin (S.record i).writes.length) (e : String × Json)
    (he : e ∈ ((S.record i).written k).entry (writtenValue xs k).isNone (ws k)) :
    e.1 = ((S.record i).written k).key :=
  Field.key_of_mem_entry he

theorem nodup_entries (hi : (S.record i).Sound) :
    (Mapping.keys (entries xs ws).reduceOption).Nodup :=
  Mapping.nodup_entries (key_injective hi) key_of_mem_entry

/-- A sound record is written as its entries. -/
theorem foldl_write_entries (hi : (S.record i).Sound) :
    (entries xs ws).foldl Mapping.write [] = (entries xs ws).reduceOption := by
  rw [Mapping.foldl_write, Mapping.foldl_insert (nodup_entries hi) fun _ _ h => by cases h]
  rfl

/-- The entry of a field is found under its key. -/
theorem get?_entries (hi : (S.record i).Sound) (k : Fin (S.record i).writes.length) :
    Mapping.get? (entries xs ws).reduceOption ((S.record i).written k).key =
      (((S.record i).written k).entry (writtenValue xs k).isNone (ws k)).map (·.2) :=
  Mapping.get?_entries (key_injective hi) key_of_mem_entry k

/-- A variant is written as its discriminant and its entries. -/
theorem foldl_insert_entries (hi : (S.record i).Sound) (ht : typeKey ∉ (S.record i).keys)
    (tag : String) :
    ((entries xs ws).foldl Mapping.write []).foldl (fun m e => Mapping.insert m e.1 e.2)
        [(typeKey, .str tag)] = (typeKey, .str tag) :: (entries xs ws).reduceOption := by
  rw [foldl_write_entries hi, Mapping.foldl_insert (nodup_entries hi)]
  · rfl
  · intro key hkey h
    obtain rfl : key = typeKey := by simpa [Mapping.keys] using h
    obtain ⟨k, hk⟩ := Mapping.exists_of_mem_entries key_of_mem_entry hkey
    exact ht (hk ▸ hi.declared _ (List.get_mem _ _))

theorem get?_cons_entries (hi : (S.record i).Sound) (ht : typeKey ∉ (S.record i).keys)
    (tag : String) (k : Fin (S.record i).writes.length) :
    Mapping.get? ((typeKey, .str tag) :: (entries xs ws).reduceOption)
        ((S.record i).written k).key =
      (((S.record i).written k).entry (writtenValue xs k).isNone (ws k)).map (·.2) := by
  rw [Mapping.get?, if_neg, get?_entries hi]
  intro h
  exact ht (h ▸ hi.declared _ (List.get_mem _ _))

end Schema

end WireForm
