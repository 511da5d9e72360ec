/-
  WireForm — entries under keys of their own.

  * `Mapping.foldl_insert`, `Mapping.get?_entries`: entries written to a mapping
    and looked up again;
  * `SortedEntries.ofList_perm`: what is collected from entries, whose order
    does not matter if their keys differ;
  * `Value.ofEntries_ofFn`, `Value.ofEntries_perm`: the same for maps, and
    `Value.exists_ofEntries`, what they hold.
-/
import Mathlib.Data.List.FinRange
import Mathlib.Data.List.ReduceOption
import WireForm.Schema.Value

namespace WireForm

/-! ## Mappings -/

namespace Mapping

variable {m : Mapping} {key k : String} {v : Json}

theorem mem_keys_insert : k ∈ (m.insert key v).keys ↔ k = key ∨ k ∈ m.keys := by
  induction m with
  | nil => simp [insert, keys]
  | cons e m ih =>
    rw [keys] at ih
    rw [insert]
    split
    · next h => subst h; simp [keys]
    · simp only [keys, List.map_cons, List.mem_cons, ih]
      exact or_left_comm

theorem insert_of_notMem (h : key ∉ m.keys) : m.insert key v = m ++ [(key, v)] := by
  induction m with
  | nil => rfl
  | cons e m ih =>
    simp only [keys, List.map_cons, List.mem_cons, not_or] at h ih
    rw [insert, if_neg (Ne.symm h.1), ih h.2, List.cons_append]

/-- Write an entry, if there is one. -/
def write (m : Mapping) : Option (String × Json) → Mapping
  | none => m
  | some e => m.insert e.1 e.2

theorem mem_keys_foldl_write {es : List (Option (String × Json))}
    (h : k ∈ (es.foldl write m).keys) : (∃ v, some (k, v) ∈ es) ∨ k ∈ m.keys := by
  induction es generalizing m with
  | nil => exact Or.inr h
  | cons e es ih =>
    rcases ih h with ⟨v, hv⟩ | h
    · exact Or.inl ⟨v, List.mem_cons_of_mem _ hv⟩
    · cases e with
      | none => exact Or.inr h
      | some e =>
        rcases mem_keys_insert.1 h with rfl | h
        · exact Or.inl ⟨e.2, List.mem_cons_self⟩
        · exact Or.inr h

/-- Entries with new keys, all different, are written in order. -/
theorem foldl_insert {es : Mapping} (hes : es.keys.Nodup) (hm : ∀ key ∈ es.keys, key ∉ m.keys) :
    es.foldl (fun m e => m.insert e.1 e.2) m = m ++ es := by
  induction es generalizing m with
  | nil => exact (List.append_nil m).symm
  | cons e es ih =>
    simp only [keys, List.map_cons, List.nodup_cons, List.forall_mem_cons] at hes hm ih
    rw [List.foldl_cons, insert_of_notMem hm.1, ih hes.2, List.append_assoc, List.singleton_append]
    intro key hk
    simp only [List.map_append, List.map_cons, List.map_nil, List.mem_append, List.mem_singleton]
    rintro (h | rfl)
    · exact hm.2 key hk h
    · exact hes.1 hk

theorem foldl_write (es : List (Option (String × Json))) (m : Mapping) :
    es.foldl write m = es.reduceOption.foldl (fun m e => m.insert e.1 e.2) m := by
  induction es generalizing m with
  | nil => rfl
  | cons e es ih =>
    cases e with
    | none => exact ih m
    | some e => exact ih (m.insert e.1 e.2)

theorem get?_eq_some (hm : m.keys.Nodup) : m.get? key = some v ↔ (key, v) ∈ m := by
  refine ⟨mem_of_get?, fun h => ?_⟩
  induction m with
  | nil => cases h
  | cons e m ih =>
    simp only [keys, List.map_cons, List.nodup_cons] at hm ih
    rw [get?]
    rcases List.mem_cons.1 h with rfl | h
    · exact if_pos rfl
    · rw [if_neg, ih hm.2 h]
      intro he
      exact hm.1 (he ▸ List.mem_map_of_mem h)

theorem get?_eq_none : m.get? key = none ↔ key ∉ m.keys := by
  induction m with
  | nil => simp [get?, keys]
  | cons e m ih =>
    simp only [keys, List.map_cons, List.mem_cons, not_or] at ih ⊢
    rw [get?]
    split
    · next h => simp [h]
    · next h => simp [ih, Ne.symm h]

theorem keys_ofFn {β : Type} (m : Mapping) (ys : Fin m.length → β) :
    (List.ofFn fun k => ((m.get k).1, ys k)).map (·.1) = m.keys := by
  rw [List.map_ofFn]
  exact List.ofFn_getElem_eq_map m (·.1)

theorem key_injective (hm : m.keys.Nodup) :
    Function.Injective fun k : Fin m.length => (m.get k).1 := by
  rw [← List.nodup_ofFn]
  show (List.ofFn fun k : Fin m.length => m[k.val].1).Nodup
  rwa [List.ofFn_getElem_eq_map]

theorem exists_get (h : key ∈ m.keys) : ∃ k : Fin m.length, (m.get k).1 = key := by
  obtain ⟨e, he, rfl⟩ := List.mem_map.1 h
  obtain ⟨k, rfl⟩ := List.get_of_mem he
  exact ⟨k, rfl⟩

theorem get_mem_keys (m : Mapping) (k : Fin m.length) : (m.get k).1 ∈ m.keys :=
  List.mem_map_of_mem (List.get_mem m k)

section
variable {n : Nat} {keyOf : Fin n → String} {es : Fin n → Option (String × Json)}

/-- Entries of places, each with the key of its place or missing. -/
theorem nodup_entries (hinj : Function.Injective keyOf) (hes : ∀ i, ∀ e ∈ es i, e.1 = keyOf i) :
    (keys (List.ofFn es).reduceOption).Nodup := by
  rw [keys, List.Nodup, List.pairwise_map, List.reduceOption, List.pairwise_filterMap,
    List.pairwise_iff_getElem]
  simp only [List.length_ofFn, List.getElem_ofFn]
  intro i j hi hj hij e he e' he' h
  rw [hes _ e he, hes _ e' he'] at h
  exact Nat.ne_of_lt hij (Fin.mk.inj (hinj h))

theorem get?_entries (hinj : Function.Injective keyOf) (hes : ∀ i, ∀ e ∈ es i, e.1 = keyOf i)
    (i : Fin n) : get? (List.ofFn es).reduceOption (keyOf i) = (es i).map (·.2) := by
  cases h : es i with
  | some e =>
    rw [Option.map_some, get?_eq_some (nodup_entries hinj hes), ← hes i e h,
      List.reduceOption_mem_iff, List.mem_ofFn]
    exact ⟨i, h⟩
  | none =>
    rw [Option.map_none, get?_eq_none, keys, List.mem_map]
    rintro ⟨e, he, hk⟩
    obtain ⟨j, hj⟩ := List.mem_ofFn.1 (List.reduceOption_mem_iff.1 he)
    rw [hes j e hj] at hk
    rw [hinj hk, h] at hj
    cases hj

theorem exists_of_mem_entries (hes : ∀ i, ∀ e ∈ es i, e.1 = keyOf i)
    (h : key ∈ keys (List.ofFn es).reduceOption) : ∃ i, key = keyOf i := by
  obtain ⟨e, he, rfl⟩ := List.mem_map.1 h
  obtain ⟨i, hi⟩ := List.mem_ofFn.1 (List.reduceOption_mem_iff.1 he)
  exact ⟨i, hes i e hi⟩

end

end Mapping

/-! ## Sorted entries -/

namespace SortedEntries

variable {α : Type} {l l' : List (String × α)}

theorem nodup_of_sorted {keys : List String} (h : Sorted keys) : keys.Nodup := by
  refine List.Pairwise.imp ?_ h
  rintro k _ hlt rfl
  exact String.lt_irrefl k hlt

theorem mem_of_mem_insert {key : String} {value : α} {e : String × α}
    (h : e ∈ insert key value l) : e = (key, value) ∨ e ∈ l := by
  induction l with
  | nil => exact Or.inl (List.mem_singleton.1 h)
  | cons e' l ih =>
    rw [insert] at h
    split at h
    · exact List.mem_cons.1 h
    · split at h
      · exact (List.mem_cons.1 h).imp_right (List.mem_cons_of_mem _)
      · rcases List.mem_cons.1 h with rfl | h
        · exact Or.inr List.mem_cons_self
        · exact (ih h).imp_right (List.mem_cons_of_mem _)

/-- What is collected from entries is among them. -/
theorem mem_of_mem_ofList {e : String × α} (h : e ∈ ofList l) : e ∈ l := by
  suffices ∀ l₀ : List (String × α), e ∈ l.foldl (fun l' e => insert e.1 e.2 l') l₀ →
      e ∈ l ∨ e ∈ l₀ from (this [] h).resolve_right (List.not_mem_nil)
  clear h
  induction l with
  | nil => exact fun l₀ h => Or.inr h
  | cons e' l ih =>
    intro l₀ h
    rcases ih _ h with h | h
    · exact Or.inl (List.mem_cons_of_mem _ h)
    · rcases mem_of_mem_insert h with rfl | h
      · exact Or.inl List.mem_cons_self
      · exact Or.inr h

theorem insert_perm {key : String} {value : α} (h : key ∉ l.map (·.1)) :
    (insert key value l).Perm ((key, value) :: l) := by
  induction l with
  | nil => exact .refl _
  | cons e l ih =>
    simp only [List.map_cons, List.mem_cons, not_or] at h
    rw [insert]
    split
    · exact .refl _
    · rw [if_neg h.1]
      exact ((ih h.2).cons e).trans (.swap _ _ _)

/-- Entries with different keys are all collected. -/
theorem ofList_perm (h : (l.map (·.1)).Nodup) : (ofList l).Perm l := by
  suffices ∀ l₀ : List (String × α), ((l ++ l₀).map (·.1)).Nodup →
      (l.foldl (fun l' e => insert e.1 e.2 l') l₀).Perm (l ++ l₀) by
    have hnil := this [] (by rwa [List.append_nil])
    rwa [List.append_nil] at hnil
  clear h
  induction l with
  | nil => exact fun l₀ _ => .refl l₀
  | cons e l ih =>
    intro l₀ h
    have he : e.1 ∉ l₀.map (·.1) := by
      simp only [List.cons_append, List.map_cons, List.map_append, List.nodup_cons,
        List.mem_append, not_or] at h
      exact h.1.2
    have hperm : (l ++ insert e.1 e.2 l₀).Perm (e :: l ++ l₀) :=
      ((insert_perm he).append_left l).trans List.perm_middle
    exact (ih _ ((hperm.map _).nodup_iff.2 h)).trans hperm

/-- Sorted entries are told apart by what they are. -/
theorem eq_of_perm (hl : Sorted (l.map (·.1))) (hl' : Sorted (l'.map (·.1))) (h : l.Perm l') :
    l = l' := by
  rw [Sorted, List.pairwise_map] at hl hl'
  exact h.eq_of_pairwise (fun _ _ _ _ hlt hgt => absurd hgt (String.lt_asymm hlt)) hl hl'

theorem ofList_of_sorted (h : Sorted (l.map (·.1))) : ofList l = l :=
  eq_of_perm (sorted_ofList l) h (ofList_perm (nodup_of_sorted h))

theorem ofList_eq_of_perm (hl : (l.map (·.1)).Nodup) (h : l.Perm l') : ofList l = ofList l' := by
  have hl' : (l'.map (·.1)).Nodup := (h.map _).nodup_iff.1 hl
  exact eq_of_perm (sorted_ofList l) (sorted_ofList l')
    ((ofList_perm hl).trans (h.trans (ofList_perm hl').symm))

end SortedEntries

variable {N : Names}

namespace Value

variable {S : Schema N} {t : Ty N}

theorem map_congr {keys keys' : List String} {sorted sorted'} {xs : Fin keys.length → Value S t}
    {xs' : Fin keys'.length → Value S t} (hk : keys = keys')
    (hxs : ∀ i, xs i = xs' (i.cast (congrArg List.length hk))) :
    map keys sorted xs = map keys' sorted' xs' := by
  subst hk
  exact congrArg (map keys sorted) (funext hxs)

/-- The entries of a map make up the map. -/
theorem ofEntries_ofFn {keys : List String} (sorted : SortedEntries.Sorted keys)
    (xs : Fin keys.length → Value S t) :
    ofEntries (List.ofFn fun i => (keys.get i, xs i)) = map keys sorted xs := by
  have hkeys : (List.ofFn fun i => (keys.get i, xs i)).map (·.1) = keys := by
    rw [List.map_ofFn]
    exact List.ofFn_getElem
  have hl : SortedEntries.ofList (List.ofFn fun i => (keys.get i, xs i)) =
      List.ofFn fun i => (keys.get i, xs i) :=
    SortedEntries.ofList_of_sorted (by rw [hkeys]; exact sorted)
  refine map_congr (by rw [hl]; exact hkeys) fun i => ?_
  rw [List.get_of_eq hl, List.get_ofFn]
  rfl

/-- The values of a map of entries are values of the entries. -/
theorem exists_ofEntries (entries : List (String × Value S t)) :
    ∃ keys sorted, ∃ xs : Fin keys.length → Value S t,
      ofEntries entries = map keys sorted xs ∧ ∀ i, ∃ e ∈ entries, xs i = e.2 :=
  ⟨_, _, _, rfl, fun _ => ⟨_, SortedEntries.mem_of_mem_ofList (List.get_mem _ _), rfl⟩⟩

/-- The order of entries with different keys does not matter. -/
theorem ofEntries_perm {entries entries' : List (String × Value S t)}
    (hkeys : (entries.map (·.1)).Nodup) (h : entries.Perm entries') :
    ofEntries entries = ofEntries entries' := by
  have hl := SortedEntries.ofList_eq_of_perm hkeys h
  exact map_congr (by rw [hl]) fun i => congrArg Prod.snd (List.get_of_eq hl _)

end Value

end WireForm
