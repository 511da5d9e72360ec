/-
  WireForm — entries in the order of their keys.

  A map holds one value per key and is written in the order of its keys, text
  being ordered by code points.  Entries are collected from first to last, and
  a later entry replaces an earlier one with the same key.

  * `SortedEntries.insert`, `SortedEntries.ofList`: collecting entries;
  * `SortedEntries.sorted_ofList`: the keys are strictly increasing.
-/

namespace WireForm

namespace SortedEntries

variable {α : Type}

/-- Put an entry into its place. -/
def insert (key : String) (value : α) : List (String × α) → List (String × α)
  | [] => [(key, value)]
  | (k, v) :: rest =>
    if key < k then (key, value) :: (k, v) :: rest
    else if key = k then (key, value) :: rest
    else (k, v) :: insert key value rest

/-- The entries of a list, in the order of their keys. -/
def ofList (entries : List (String × α)) : List (String × α) :=
  entries.foldl (fun sorted e => insert e.1 e.2 sorted) []

/-- The keys are strictly increasing. -/
abbrev Sorted (keys : List String) : Prop := keys.Pairwise (· < ·)

theorem mem_insert {key : String} {value : α} {l : List (String × α)} {k : String}
    (h : k ∈ (insert key value l).map (·.1)) : k = key ∨ k ∈ l.map (·.1) := by
  induction l with
  | nil => simpa [insert] using h
  | cons e l ih =>
    obtain ⟨k', v⟩ := e
    rw [insert] at h
    split at h
    · simpa using h
    · split at h
      · simp_all
      · simp only [List.map_cons, List.mem_cons] at h ⊢
        rcases h with h | h
        · exact Or.inr (Or.inl h)
        · rcases ih h with h | h
          · exact Or.inl h
          · exact Or.inr (Or.inr h)

theorem sorted_insert (key : String) (value : α) {l : List (String × α)}
    (h : Sorted (l.map (·.1))) : Sorted ((insert key value l).map (·.1)) := by
  induction l with
  | nil => simp [insert]
  | cons e l ih =>
    obtain ⟨k, v⟩ := e
    simp only [List.map_cons, List.pairwise_cons] at h
    rw [insert]
    split
    · next hlt =>
      simp only [List.map_cons, List.pairwise_cons, List.mem_cons]
      refine ⟨?_, h⟩
      rintro k' (rfl | hk')
      · exact hlt
      · exact String.lt_trans hlt (h.1 k' hk')
    · next hlt =>
      split
      · next heq =>
        subst heq
        simpa only [List.map_cons, List.pairwise_cons] using h
      · next hne =>
        simp only [List.map_cons, List.pairwise_cons]
        refine ⟨fun k' hk' => ?_, ih h.2⟩
        rcases mem_insert hk' with rfl | hk'
        · refine Decidable.byContradiction fun hgt => hne ?_
          exact String.le_antisymm (String.not_lt.1 hgt) (String.not_lt.1 hlt)
        · exact h.1 k' hk'

/-- Collected entries are sorted. -/
theorem sorted_ofList (entries : List (String × α)) : Sorted ((ofList entries).map (·.1)) := by
  suffices ∀ l : List (String × α), Sorted (l.map (·.1)) →
      Sorted ((entries.foldl (fun sorted e => insert e.1 e.2 sorted) l).map (·.1)) from
    this [] (by simp)
  induction entries with
  | nil => exact fun _ h => h
  | cons e entries ih => exact fun l h => ih _ (sorted_insert e.1 e.2 h)

end SortedEntries

end WireForm
