/-
  WireForm — the code that writes a record, whatever it does.

  Such code makes any calls in any order: it may write keys that are not
  declared, write a key twice, write the key of the discriminant, or go on
  after a call that failed.  What one call does to the entries is said once;
  what a run leaves follows by induction on the script.

  * `FieldWriter.call_writer`, `WriteScript.run_writer`: a call writes its entry,
    if it has one, and a run the entries of its calls, in order;
  * `WriteScript.nodup_run`: no run leaves a key twice;
  * `Record.encodeMapping_eq_ok`: what the record encoder lets pass;
  * `Variant.encode_discriminant_first`: no script displaces the discriminant.
-/
import WireForm.Proofs.Writing

namespace WireForm

/-! ## Entries -/

namespace Mapping

variable {m : Mapping} {key : String} {v : Json}

/-- An entry that is written over keeps its place, and so do all keys. -/
theorem keys_insert_of_mem (h : key ∈ m.keys) : (m.insert key v).keys = m.keys := by
  induction m with
  | nil => cases h
  | cons e m ih =>
    simp only [keys, List.map_cons, List.mem_cons] at h ih ⊢
    rw [insert]
    split
    · next he => rw [List.map_cons, he]
    · next he =>
      have hm := h.resolve_left (Ne.symm he)
      rw [List.map_cons, ih hm]

/-- No key is written twice. -/
theorem nodup_insert (h : m.keys.Nodup) : (m.insert key v).keys.Nodup := by
  by_cases hk : key ∈ m.keys
  · rwa [keys_insert_of_mem hk]
  · rw [insert_of_notMem hk]
    simp only [keys, List.map_append, List.map_cons, List.map_nil] at h hk ⊢
    rw [← List.concat_eq_append]
    exact h.concat hk

theorem nodup_foldl_write (es : List (Option (String × Json))) (h : m.keys.Nodup) :
    (es.foldl write m).keys.Nodup := by
  induction es generalizing m with
  | nil => exact h
  | cons e es ih =>
    rw [List.foldl_cons]
    cases e with
    | none => exact ih h
    | some e => exact ih (nodup_insert h)

end Mapping

/-! ## Calls and runs -/

/-- The entry that a call writes: none if the value is absent or cannot be
    encoded. -/
def FieldCall.entry? : FieldCall → Option (String × Json)
  | required name (.ok v) | optional name (some (.ok v)) => some (name, v)
  | required _ (.error _) | optional _ (some (.error _)) | optional _ none => none

/-- **A call writes its entry**, if it has one, and leaves the writer alone
    otherwise. -/
theorem FieldWriter.call_writer (w : FieldWriter) (c : FieldCall) :
    (w.call c).2 = { w with fields := w.fields.write c.entry? } := by
  cases c with
  | required name encoded => cases encoded <;> rfl
  | optional name encoded => rcases encoded with _ | _ | _ <;> rfl

namespace WriteScript

/-- The calls that a script makes, in order. -/
def calls : WriteScript → FieldWriter → List FieldCall
  | done _, _ => []
  | call c next, w => c :: (next (w.call c).1).calls (w.call c).2

/-- **A run leaves the entries of its calls**, written in order. -/
theorem run_writer (script : WriteScript) (w : FieldWriter) :
    (script.run w).2 =
      ⟨w.owner, ((script.calls w).map FieldCall.entry?).foldl Mapping.write w.fields⟩ := by
  induction script generalizing w with
  | done result => rfl
  | call c next ih =>
    rw [run, ih, calls, List.map_cons, List.foldl_cons, FieldWriter.call_writer]

/-- A run leaves no key twice. -/
theorem nodup_run (script : WriteScript) (owner : String) :
    (script.run (FieldWriter.new owner)).2.fields.keys.Nodup := by
  rw [run_writer]
  exact Mapping.nodup_foldl_write _ List.nodup_nil

end WriteScript

/-! ## Records -/

namespace Record

variable {owner : String} {declared : List String} {script : WriteScript} {m : Mapping}

/-- The record encoder lets pass what a script that succeeds leaves, if all its
    keys are declared. -/
theorem encodeMapping_eq_ok : encodeMapping owner declared script = .ok m ↔
    script.run (FieldWriter.new owner) = (.ok (), ⟨owner, m⟩) ∧
      ∀ key ∈ m.keys, key ∈ declared := by
  constructor
  · intro h
    have howner := congrArg FieldWriter.owner (script.run_writer (FieldWriter.new owner))
    unfold encodeMapping at h
    rcases hrun : script.run (FieldWriter.new owner) with ⟨_ | _, w⟩
    · rw [hrun] at h
      cases h
    · rw [hrun] at h howner
      change w.owner = owner at howner
      dsimp only at h
      split at h
      · cases h
      · next hkeys =>
        cases h
        refine ⟨by rw [← howner], fun key hkey => ?_⟩
        simpa using List.find?_eq_none.1 hkeys key hkey
  · rintro ⟨hrun, hkeys⟩
    exact encodeMapping_of_ok hrun hkeys

theorem nodup_encodeMapping (h : encodeMapping owner declared script = .ok m) : m.keys.Nodup := by
  have hnodup := script.nodup_run owner
  rwa [(encodeMapping_eq_ok.1 h).1] at hnodup

end Record

/-! ## Variants -/

namespace Variant

variable {owner tag : String} {declared : List String} {script : WriteScript}

theorem encode_of_mem (h : typeKey ∈ declared) : encode owner tag declared script =
    .error (.malformed (fieldPath owner typeKey) .reserved) := by
  rw [encode, if_pos (by simpa using h)]

/-- Entries that do not have the key of the discriminant follow it unchanged. -/
theorem foldl_insert_discriminant {fields : Mapping} (hnodup : fields.keys.Nodup)
    (hno : typeKey ∉ fields.keys) :
    fields.foldl (fun m e => Mapping.insert m e.1 e.2) [(typeKey, .str tag)] =
      (typeKey, .str tag) :: fields := by
  refine Mapping.foldl_insert hnodup fun key hkey h => ?_
  rcases List.mem_singleton.1 h with rfl
  exact hno hkey

/-- A variant that leaves the key of the discriminant free is written as its
    record, with the discriminant in front. -/
theorem encode_eq_cons (h : typeKey ∉ declared) : encode owner tag declared script =
    (Record.encodeMapping owner declared script).map ((typeKey, .str tag) :: ·) := by
  rw [encode_of_notMem h]
  cases hfields : Record.encodeMapping owner declared script with
  | error e => rfl
  | ok fields =>
    have hnodup := Record.nodup_encodeMapping hfields
    have hkeys := (Record.encodeMapping_eq_ok.1 hfields).2
    have hno : typeKey ∉ fields.keys := fun hkey => h (hkeys _ hkey)
    exact congrArg Except.ok (foldl_insert_discriminant hnodup hno)

/-- **The discriminant is never displaced**, whatever writes the record: it is the
    first entry and the only one with its key, and the entries of the record
    follow.  A record that declares the key is refused; any other record is a
    variant iff it is a record, and fails as the record does. -/
theorem encode_discriminant_first (owner tag : String) (declared : List String)
    (script : WriteScript) :
    (∀ m, encode owner tag declared script = .ok m → ∃ fields : Mapping,
      Record.encodeMapping owner declared script = .ok fields ∧
        m = (typeKey, .str tag) :: fields ∧ typeKey ∉ fields.keys) ∧
    (typeKey ∈ declared → encode owner tag declared script =
      .error (.malformed (fieldPath owner typeKey) .reserved)) ∧
    (typeKey ∉ declared → ∀ e, encode owner tag declared script = .error e ↔
      Record.encodeMapping owner declared script = .error e) := by
  refine ⟨fun m h => ?_, encode_of_mem, fun hfree e => ?_⟩
  · by_cases hdeclared : typeKey ∈ declared
    · rw [encode_of_mem hdeclared] at h
      cases h
    · rw [encode_eq_cons hdeclared] at h
      obtain ⟨fields, hfields, rfl⟩ := Except.map_eq_ok.1 h
      have hkeys := (Record.encodeMapping_eq_ok.1 hfields).2
      exact ⟨fields, hfields, rfl, fun hkey => hdeclared (hkeys _ hkey)⟩
  · rw [encode_eq_cons hfree, Except.map_eq_error]

end Variant

namespace Catalogue

/-- A writer that goes on after a failure and writes a key again. -/
def careless : WriteScript :=
  .call (.required "side" (.error (.bare .missing))) fun _ =>
    .call (.required "side" (.ok (.bool false))) fun _ =>
      .call (.required "color" (.ok (.str "blue"))) fun _ =>
        .call (.optional "side" none) fun _ =>
          .call (.required "side" (.ok (.bool true))) .done

/-- A writer of the key of the discriminant. -/
def displacing : WriteScript := .call (.required "type" (.ok .null)) .done

/-- The discriminant is in front of what is written, a record may not declare its
    key, and to write it undeclared is of no use. -/
theorem encode_discriminant_first_careless :
    (∃ fields : Mapping, Record.encodeMapping "Square" ["side", "color"] careless = .ok fields ∧
      Variant.encode "Square" "square" ["side", "color"] careless =
        .ok [("type", .str "square"), ("side", .bool true), ("color", .str "blue")] ∧
      [("type", .str "square"), ("side", .bool true), ("color", .str "blue")] =
        (typeKey, .str "square") :: fields) ∧
    Variant.encode "Square" "square" ["side", "type"] displacing =
      .error (.malformed "Square.type" .reserved) ∧
    Variant.encode "Square" "square" ["side"] displacing =
      .error (.malformed "Square.type" .undeclared) := by
  have hfirst := Variant.encode_discriminant_first "Square" "square"
  obtain ⟨fields, hfields, hm, -⟩ := (hfirst ["side", "color"] careless).1 _ rfl
  have hreserved := (hfirst ["side", "type"] displacing).2.1 (by decide)
  have hundeclared := ((hfirst ["side"] displacing).2.2 (by decide) _).2 rfl
  exact ⟨⟨fields, hfields, rfl, hm⟩, hreserved, hundeclared⟩

end Catalogue

end WireForm
