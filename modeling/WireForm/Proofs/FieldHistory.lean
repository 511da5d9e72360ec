/-
  WireForm — what a record's writer leaves.

  Whatever calls are made, the mapping that is left is a function of the entries
  that were written: their keys in the order in which each was written first,
  with the values that were written last.  The record encoder passes it on
  untouched, or says which of its keys is not declared.

  * `Mapping.Records`: the mapping that entries leave when they are written one
    after the other, and `Mapping.Records.concat`, one entry more;
  * `WriteScript.exists_records`: every run leaves such a mapping;
  * `Record.encodeMapping_history`: what becomes of it.
-/
import Mathlib.Data.List.Induction
import WireForm.Proofs.FieldScript

namespace WireForm

/-! ## Entries, one after the other -/

namespace Mapping

variable {es m : Mapping} {key k : String} {v v' : Json}

theorem get?_insert (m : Mapping) (key k : String) (v : Json) :
    (m.insert key v).get? k = if key = k then some v else m.get? k := by
  induction m with
  | nil => rfl
  | cons e m ih =>
    rw [insert]
    split
    · next he =>
      rw [get?, get?, he]
      split <;> rfl
    · next he =>
      rw [get?, get?, ih]
      by_cases hk : e.1 = k
      · rw [if_pos hk, if_pos hk, if_neg (hk ▸ Ne.symm he)]
      · rw [if_neg hk, if_neg hk]

/-- The mapping holds the entries `es`, written in order. -/
structure Records (es m : Mapping) : Prop where
  /-- No key has two entries. -/
  distinct : m.keys.Nodup
  /-- The keys stand in the order in which each was first written. -/
  keys : m.keys = es.keys.eraseDups
  /-- A key has the value last written under it. -/
  last : ∀ key v, m.get? key = some v ↔
    ∃ before after, es = before ++ (key, v) :: after ∧ key ∉ Mapping.keys after

theorem Records.mem_keys (h : Records es m) : key ∈ m.keys ↔ key ∈ es.keys := by
  rw [h.keys, List.mem_eraseDups]

theorem records_nil : Records [] [] where
  distinct := List.nodup_nil
  keys := rfl
  last key v := by
    refine iff_of_false (fun h => by cases h) ?_
    rintro ⟨before, after, h, -⟩
    exact List.append_ne_nil_of_right_ne_nil before (List.cons_ne_nil _ _) h.symm

/-- The last of more entries is the new one or, under another key, the last
    before it. -/
theorem last_concat : (∃ before after, es ++ [(key, v)] = before ++ (k, v') :: after ∧
      k ∉ Mapping.keys after) ↔
    key = k ∧ v = v' ∨ key ≠ k ∧ ∃ before after, es = before ++ (k, v') :: after ∧
      k ∉ Mapping.keys after := by
  constructor
  · rintro ⟨before, after, h, hk⟩
    rcases List.eq_nil_or_concat after with rfl | ⟨after, e, rfl⟩
    · obtain ⟨-, h⟩ := List.append_inj' h rfl
      cases h
      exact Or.inl ⟨rfl, rfl⟩
    · rw [List.concat_eq_append] at h hk
      rw [← List.cons_append, ← List.append_assoc] at h
      obtain ⟨hes, h⟩ := List.append_inj' h rfl
      cases h
      simp only [keys, List.map_append, List.mem_append, not_or, List.map_cons, List.map_nil,
        List.mem_singleton] at hk
      exact Or.inr ⟨Ne.symm hk.2, before, after, hes, hk.1⟩
  · rintro (⟨rfl, rfl⟩ | ⟨hne, before, after, rfl, hk⟩)
    · exact ⟨es, [], rfl, List.not_mem_nil⟩
    · refine ⟨before, after ++ [(key, v)], by simp, ?_⟩
      simp only [keys, List.map_append, List.mem_append, not_or, List.map_cons, List.map_nil,
        List.mem_singleton]
      exact ⟨hk, Ne.symm hne⟩

/-- One more entry is written. -/
theorem Records.concat (h : Records es m) (key : String) (v : Json) :
    Records (es ++ [(key, v)]) (m.insert key v) where
  distinct := nodup_insert h.distinct
  keys := by
    have hkeys : Mapping.keys (es ++ [(key, v)]) = es.keys ++ [key] := List.map_append
    rw [hkeys, List.eraseDups_append, ← h.keys]
    by_cases hk : key ∈ m.keys
    · have hnew : [key].removeAll es.keys = [] := by
        simp [List.removeAll, h.mem_keys.1 hk]
      rw [keys_insert_of_mem hk, hnew, List.eraseDups_nil, List.append_nil]
    · have hnew : [key].removeAll es.keys = [key] := by
        simp [List.removeAll, mt h.mem_keys.2 hk]
      rw [insert_of_notMem hk, hnew, Mapping.keys, List.map_append]
      rfl
  last k v' := by
    rw [get?_insert, last_concat]
    by_cases hk : key = k
    · simp [hk]
    · simp [hk, h.last]

/-- Entries that are written to an empty mapping. -/
theorem records_foldl_insert (es : Mapping) :
    Records es (es.foldl (fun m e => m.insert e.1 e.2) []) := by
  induction es using List.reverseRecOn with
  | nil => exact records_nil
  | append_singleton es e ih =>
    rw [List.foldl_append]
    exact ih.concat e.1 e.2

end Mapping

/-! ## Runs -/

/-- A call that fails leaves the writer alone. -/
theorem FieldWriter.call_of_error {w : FieldWriter} {c : FieldCall} {e : CodecError}
    (h : (w.call c).1 = .error e) : (w.call c).2 = w := by
  cases c with
  | required name encoded =>
    cases encoded with
    | ok v => cases h
    | error e => rfl
  | optional name encoded =>
    rcases encoded with _ | _ | v
    · rfl
    · rfl
    · cases h

namespace WriteScript

/-- The entries that a run writes, in order. -/
def entries (script : WriteScript) (w : FieldWriter) : Mapping :=
  (script.calls w).filterMap FieldCall.entry?

/-- **Every run leaves its entries.** -/
theorem exists_records (script : WriteScript) (owner : String) :
    ∃ m, (script.run (FieldWriter.new owner)).2 = ⟨owner, m⟩ ∧
      Mapping.Records (script.entries (FieldWriter.new owner)) m := by
  refine ⟨_, script.run_writer _, ?_⟩
  rw [Mapping.foldl_write, List.reduceOption, List.filterMap_map]
  exact Mapping.records_foldl_insert _

end WriteScript

/-! ## Records -/

namespace Record

variable {owner : String} {declared : List String} {script : WriteScript} {m : Mapping}

/-- The first key that is not declared is reported. -/
theorem encodeMapping_of_undeclared
    (h : script.run (FieldWriter.new owner) = (.ok (), ⟨owner, m⟩)) {keys keys' : List String}
    {key : String} (hm : m.keys = keys ++ key :: keys') (hkeys : ∀ k ∈ keys, k ∈ declared)
    (hkey : key ∉ declared) :
    encodeMapping owner declared script = .error (.malformed (fieldPath owner key) .undeclared) := by
  have hfind : (m.keys.find? fun k => !declared.contains k) = some key := by
    rw [List.find?_eq_some_iff_append]
    exact ⟨by simpa using hkey, keys, keys', hm, fun k hk => by simpa using hkeys k hk⟩
  simp only [encodeMapping, h, hfind]

/-- Some key is the first that is not declared, if any is not. -/
theorem exists_first_undeclared {keys : List String} {key : String} (hmem : key ∈ keys)
    (hkey : key ∉ declared) : ∃ before k after, keys = before ++ k :: after ∧
      (∀ k ∈ before, k ∈ declared) ∧ k ∉ declared := by
  cases h : keys.find? fun k => !declared.contains k with
  | none => exact absurd (List.find?_eq_none.1 h key hmem) (by simpa using hkey)
  | some k =>
    obtain ⟨hk, before, after, rfl, hbefore⟩ := List.find?_eq_some_iff_append.1 h
    exact ⟨before, k, after, rfl, fun k hk => by simpa using hbefore k hk, by simpa using hk⟩

/-- **A record's mapping is the history of its writer**, whatever calls it makes.  A
    call that fails and a value that is absent change nothing.  The run leaves one
    entry for each name that was written, in the order of first writing, with the
    value written last; that mapping and no other is passed on, iff the script
    succeeds and all names are declared.  Otherwise the failure is the script's own
    or, without one, that of the first key that is not declared. -/
theorem encodeMapping_history (owner : String) (declared : List String) (script : WriteScript) :
    (∀ (w : FieldWriter) (c : FieldCall),
      ((∃ e, (w.call c).1 = .error e) ∨ ∃ name, c = .optional name none) → (w.call c).2 = w) ∧
    ∃ result m, script.run (FieldWriter.new owner) = (result, ⟨owner, m⟩) ∧
      Mapping.Records (script.entries (FieldWriter.new owner)) m ∧
      (∀ m', encodeMapping owner declared script = .ok m' ↔ result = .ok () ∧ m' = m ∧
        ∀ key ∈ (script.entries (FieldWriter.new owner)).keys, key ∈ declared) ∧
      (∀ e, result = .error e → encodeMapping owner declared script = .error e) ∧
      (result = .ok () →
        ∀ key ∈ (script.entries (FieldWriter.new owner)).keys, key ∉ declared →
          ∃ before k after, m.keys = before ++ k :: after ∧ (∀ k ∈ before, k ∈ declared) ∧
            k ∉ declared ∧ encodeMapping owner declared script =
              .error (.malformed (fieldPath owner k) .undeclared)) ∧
      ∀ m', encodeMapping owner declared script = .ok m' →
        m'.keys.Nodup ∧ ∀ key ∈ m'.keys, key ∈ declared := by
  constructor
  · rintro w c (⟨e, h⟩ | ⟨name, rfl⟩)
    · exact FieldWriter.call_of_error h
    · rfl
  obtain ⟨m, hm, hrecords⟩ := script.exists_records owner
  have hrun : script.run (FieldWriter.new owner) =
      ((script.run (FieldWriter.new owner)).1, ⟨owner, m⟩) := Prod.ext rfl hm
  generalize (script.run (FieldWriter.new owner)).1 = result at hrun
  refine ⟨result, m, hrun, hrecords, fun m' => ?_, ?_, ?_, fun m' h => ?_⟩
  · simp only [encodeMapping_eq_ok, hrun, ← hrecords.mem_keys]
    constructor
    · rintro ⟨h, hkeys⟩
      cases h
      exact ⟨rfl, rfl, hkeys⟩
    · rintro ⟨rfl, rfl, hkeys⟩
      exact ⟨rfl, hkeys⟩
  · rintro e rfl
    exact encodeMapping_of_error (congrArg Prod.fst hrun)
  · rintro rfl key hkey hnot
    obtain ⟨before, k, after, hkeys, hbefore, hk⟩ :=
      exists_first_undeclared (hrecords.mem_keys.2 hkey) hnot
    exact ⟨before, k, after, hkeys, hbefore, hk,
      encodeMapping_of_undeclared hrun hkeys hbefore hk⟩
  · exact ⟨nodup_encodeMapping h, (encodeMapping_eq_ok.1 h).2⟩

end Record

namespace Catalogue

/-- The careless writer leaves two entries of the three it wrote, with the second
    value of the first; a key that is not declared is named. -/
theorem encodeMapping_history_careless :
    careless.entries (FieldWriter.new "Square") =
      [("side", .bool false), ("color", .str "blue"), ("side", .bool true)] ∧
    Mapping.Records
      [("side", .bool false), ("color", .str "blue"), ("side", .bool true)]
      [("side", .bool true), ("color", .str "blue")] ∧
    Record.encodeMapping "Square" ["color", "side"] careless =
      .ok [("side", .bool true), ("color", .str "blue")] ∧
    Record.encodeMapping "Square" ["side"] careless =
      .error (.malformed "Square.color" .undeclared) := by
  have hentries : careless.entries (FieldWriter.new "Square") =
      [("side", .bool false), ("color", .str "blue"), ("side", .bool true)] := rfl
  obtain ⟨-, result, m, hrun, hrecords, hok, -, -, -⟩ :=
    Record.encodeMapping_history "Square" ["color", "side"] careless
  obtain ⟨-, result', m', hrun', -, -, -, hundeclared, -⟩ :=
    Record.encodeMapping_history "Square" ["side"] careless
  cases hrun
  cases hrun'
  refine ⟨hentries, hentries ▸ hrecords, (hok _).2 ⟨rfl, rfl, ?_⟩, ?_⟩
  · rw [hentries]
    decide
  · obtain ⟨before, k, after, hkeys, -, hk, herror⟩ :=
      hundeclared rfl "color" (by rw [hentries]; decide) (by decide)
    have hkeys : ["side", "color"] = before ++ k :: after := hkeys
    have hmem : k ∈ ["side", "color"] := by rw [hkeys]; simp
    obtain rfl : k = "color" := by simpa [List.mem_singleton.not.1 hk] using hmem
    exact herror

end Catalogue

end WireForm
