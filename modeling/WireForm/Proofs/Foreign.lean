/-
  WireForm — foreign values: which have a document, and which come back from it.

  A foreign value is written by the rules of its own type, and these give some
  values the document of another one, or one that is not read at all.  A single
  part of a value decides, wherever in the value it stands.

  * `Foreign.Shape.Everywhere`: a property of all parts of a value;
  * `Foreign.TextKeys`, `Foreign.failsUnless_encode`: the values that are refused;
  * `Foreign.Kept`, `Foreign.faithful_of_distinct`: the values that come back;
  * `Leaf.foreign_returns_iff`: the same for the leaf, and
    `Catalogue.foreign_infinity_lost`, a value that does not come back.
-/
import WireForm.Catalogue.Foreign
import WireForm.Proofs.Entries
import WireForm.Proofs.Leaf
import WireForm.Proofs.Widening

namespace WireForm

namespace Foreign

/-! ## Shapes -/

/-- All shapes directly below an alternative have a property. -/
def Payload.Members (P : Shape → Prop) : Payload → Prop
  | .unit => True
  | .single s => P s
  | .tuple _ shape => ∀ i, P (shape i)
  | .struct _ shape => ∀ i, P (shape i)

/-- Induction over shapes alone. -/
@[elab_as_elim]
theorem Shape.induct {P : Shape → Prop} (bool : P .bool) (text : P .text) (int : ∀ k, P (.int k))
    (float32 : P .float32) (float64 : P .float64) (option : ∀ s, P s → P (.option s))
    (list : ∀ s, P s → P (.list s)) (map : ∀ s, P s → P (.map s)) (pairs : P .pairs)
    (struct : ∀ name fields shape, (∀ i, P (shape i)) → P (.struct name fields shape))
    (union : ∀ name alternatives payload, (∀ i, (payload i).Members P) →
      P (.union name alternatives payload)) (s : Shape) : P s :=
  @Shape.rec P (fun p => p.Members P) bool text int float32 float64 option list map pairs struct
    union trivial (fun _ h => h) (fun _ _ h => h) (fun _ _ h => h) s

mutual

/-- Fields and alternatives are told apart by their names. -/
def Shape.Distinct : Shape → Prop
  | .option s | .list s | .map s => s.Distinct
  | .struct _ fields shape => fields.Nodup ∧ ∀ i, (shape i).Distinct
  | .union _ alternatives payload => alternatives.Nodup ∧ ∀ i, (payload i).Distinct
  | .bool | .text | .int _ | .float32 | .float64 | .pairs => True

/-- The same for what an alternative carries. -/
def Payload.Distinct : Payload → Prop
  | .unit => True
  | .single s => s.Distinct
  | .tuple _ shape => ∀ i, (shape i).Distinct
  | .struct fields shape => fields.Nodup ∧ ∀ i, (shape i).Distinct

end

section
variable (P : (s : Shape) → s.Carrier → Prop)

mutual

/-- A value and all its parts have a property. -/
def Shape.Everywhere : (s : Shape) → s.Carrier → Prop
  | .option s, none => P (.option s) none
  | .option s, some x => P (.option s) (some x) ∧ s.Everywhere x
  | .list s, xs => P (.list s) xs ∧ ∀ x ∈ xs, s.Everywhere x
  | .map s, m => P (.map s) m ∧ ∀ e ∈ m.entries, s.Everywhere e.2
  | .struct name fields shape, xs =>
    P (.struct name fields shape) xs ∧ ∀ i, (shape i).Everywhere (xs i)
  | .union name alternatives payload, ⟨i, x⟩ =>
    P (.union name alternatives payload) ⟨i, x⟩ ∧ (payload i).Everywhere x
  | .bool, b => P .bool b
  | .text, s => P .text s
  | .int k, n => P (.int k) n
  | .float32, x => P .float32 x
  | .float64, x => P .float64 x
  | .pairs, xs => P .pairs xs

/-- All that an alternative carries has a property. -/
def Payload.Everywhere : (p : Payload) → p.Carrier → Prop
  | .unit, _ => True
  | .single s, x => s.Everywhere x
  | .tuple _ shape, xs => ∀ i, (shape i).Everywhere (xs i)
  | .struct _ shape, xs => ∀ i, (shape i).Everywhere (xs i)

end

end

/-! ## Values without a document -/

/-- The keys of a mapping are texts: a mapping by pairs has no entries. -/
def TextKeys : (s : Shape) → s.Carrier → Prop
  | .pairs, xs => xs = []
  | .bool, _ | .text, _ | .int _, _ | .float32, _ | .float64, _ | .option _, _ | .list _, _
  | .map _, _ | .struct .., _ | .union .., _ => True

/-- A computation fails unless something holds, and then about a key. -/
def FailsUnless {α : Type} (p : Prop) (r : Except Error α) : Prop :=
  ∀ e, r = .error e ↔ ¬ p ∧ e = .keyNotText

section
variable {α β : Type} {p : Prop}

theorem failsUnless_ok (a : α) (hp : p) : FailsUnless p (.ok a) :=
  fun e => iff_of_false (fun h => by cases h) fun h => h.1 hp

theorem failsUnless_error (hp : ¬ p) : FailsUnless p (.error .keyNotText : Except Error α) := by
  intro e
  constructor
  · intro h
    exact ⟨hp, (Except.error.inj h).symm⟩
  · rintro ⟨-, rfl⟩
    rfl

theorem FailsUnless.congr {q : Prop} {r : Except Error α} (h : FailsUnless p r) (hpq : p ↔ q) :
    FailsUnless q r := by
  rwa [← propext hpq]

theorem FailsUnless.eq_error {r : Except Error α} (h : FailsUnless p r) (hp : ¬ p) :
    r = .error .keyNotText :=
  (h _).2 ⟨hp, rfl⟩

theorem FailsUnless.exists_ok {r : Except Error α} (h : FailsUnless p r) (hp : p) :
    ∃ a, r = .ok a := by
  cases hr : r with
  | ok a => exact ⟨a, rfl⟩
  | error e => exact absurd hp ((h e).1 hr).1

theorem FailsUnless.map {r : Except Error α} (h : FailsUnless p r) (f : α → β) :
    FailsUnless p (f <$> r) :=
  fun e => Except.map_eq_error.trans (h e)

theorem FailsUnless.bind {q : Prop} {r : Except Error α} {f : α → Except Error β}
    (h : FailsUnless p r) (hf : ∀ a, FailsUnless q (f a)) : FailsUnless (p ∧ q) (r >>= f) := by
  by_cases hp : p
  · obtain ⟨a, rfl⟩ := h.exists_ok hp
    exact (hf a).congr (and_iff_right hp).symm
  · rw [h.eq_error hp]
    exact failsUnless_error fun hpq => hp hpq.1

/-- A family fails unless something holds of all its members. -/
theorem FailsUnless.traverse {n : Nat} {β : Fin n → Type} {p : Fin n → Prop}
    {f : ∀ i, Except Error (β i)} (h : ∀ i, FailsUnless (p i) (f i)) :
    FailsUnless (∀ i, p i) (Family.traverse f) := by
  induction n with
  | zero => exact failsUnless_ok _ fun i => i.elim0
  | succ n ih =>
    exact ((h 0).bind fun x => (ih fun i => h i.succ).map (Family.cons x)).congr
      Fin.forall_fin_succ.symm

/-- A list fails unless something holds of all its elements. -/
theorem FailsUnless.mapM {p : α → Prop} {f : α → Except Error β} (h : ∀ x, FailsUnless (p x) (f x))
    (xs : List α) : FailsUnless (∀ x ∈ xs, p x) (xs.mapM f) := by
  induction xs with
  | nil => exact failsUnless_ok [] (List.forall_mem_nil p)
  | cons x xs ih =>
    rw [List.mapM_cons]
    exact ((h x).bind fun y => ih.map (y :: ·)).congr List.forall_mem_cons.symm

/-- Entries fail unless something holds of all their values. -/
theorem FailsUnless.mapValues {p : α → Prop} {f : α → Except Error β}
    (h : ∀ x, FailsUnless (p x) (f x)) (es : List (String × α)) :
    FailsUnless (∀ e ∈ es, p e.2) (mapValues f es) :=
  FailsUnless.mapM (fun e => (h e.2).map (Prod.mk e.1)) es

end

theorem failsUnless_encodeAlternative (name : String) {p : Payload}
    (h : p.Members fun s => ∀ x : s.Carrier, FailsUnless (s.Everywhere TextKeys x) (encode s x))
    (x : p.Carrier) : FailsUnless (p.Everywhere TextKeys x) (encodeAlternative name p x) := by
  cases p with
  | unit => exact failsUnless_ok _ trivial
  | single s => exact (h x).map _
  | tuple n shape => exact (FailsUnless.traverse fun i => h i (x i)).map _
  | struct fields shape => exact (FailsUnless.traverse fun i => h i (x i)).map _

/-- **A value is refused iff it holds a key that is no text.** -/
theorem failsUnless_encode (s : Shape) (x : s.Carrier) :
    FailsUnless (s.Everywhere TextKeys x) (encode s x) := by
  induction s using Shape.induct with
  | bool | text | int | float32 | float64 => exact failsUnless_ok _ trivial
  | option s ih =>
    cases x with
    | none => exact failsUnless_ok _ trivial
    | some x => exact (ih x).congr (and_iff_right trivial).symm
  | list s ih => exact ((FailsUnless.mapM ih x).map _).congr (and_iff_right trivial).symm
  | map s ih => exact ((FailsUnless.mapValues ih x.entries).map _).congr (and_iff_right trivial).symm
  | pairs =>
    cases x with
    | nil => exact failsUnless_ok _ rfl
    | cons e es => exact failsUnless_error (List.cons_ne_nil e es)
  | struct name fields shape ih =>
    exact ((FailsUnless.traverse fun i => ih i (x i)).map _).congr (and_iff_right trivial).symm
  | union name alternatives payload ih =>
    obtain ⟨i, x⟩ := x
    refine FailsUnless.congr ?_ (and_iff_right trivial).symm
    exact failsUnless_encodeAlternative _ (ih i) x

/-! ## Values that come back -/

/-- The value is nothing, where there may be something. -/
def Absent : (s : Shape) → s.Carrier → Prop
  | .option _, none => True
  | .option _, some _ | .bool, _ | .text, _ | .int _, _ | .float32, _ | .float64, _ | .list _, _
  | .map _, _ | .pairs, _ | .struct .., _ | .union .., _ => False

/-- A tuple of nothing, which is neither a bare name nor a tuple when read. -/
def Payload.Hollow : Payload → Prop
  | .tuple n _ => n = 0
  | .unit | .single _ | .struct .. => False

/-- What a value must be, apart from its parts, to be read as it was: a float is
    finite, what is there is not itself nothing, and an alternative is no tuple of
    nothing. -/
def Kept : (s : Shape) → s.Carrier → Prop
  | .float32, x => x.isFinite = true
  | .float64, x => x.isFinite = true
  | .option s, some x => ¬ Absent s x
  | .union _ _ payload, x => ¬ (payload x.1).Hollow
  | .option _, none | .bool, _ | .text, _ | .int _, _ | .list _, _ | .map _, _ | .pairs, _
  | .struct .., _ => True

/-! ## Parts -/

section
variable {n : Nat}

theorem floatOrNull_of_isFinite {x : Binary64} (hx : x.isFinite = true) :
    floatOrNull x = .num (.float x hx) :=
  dif_pos hx

theorem floatOrNull_eq_null {x : Binary64} : floatOrNull x = .null ↔ x.isFinite ≠ true := by
  unfold floatOrNull
  split
  · next hx => exact iff_of_false (fun h => by cases h) fun h => h hx
  · next hx => exact iff_of_true rfl hx

/-- Elements are read from an array in their places. -/
theorem positional_ofFn {β : Fin n → Type} {what : String} {ws : Fin n → Json}
    {read : ∀ i, Json → Except Error (β i)} {xs : ∀ i, β i} :
    positional what (List.ofFn ws) read = .ok xs ↔ ∀ i, read i (ws i) = .ok (xs i) := by
  have hget (i : Fin n) : (List.ofFn ws)[i.val]? = some (ws i) := by simp
  simp only [positional, hget, List.length_ofFn, Nat.lt_irrefl, if_false, Except.bind_eq_ok,
    Family.traverse_eq_ok, Except.ok.injEq]
  constructor
  · rintro ⟨_, h, rfl⟩
    exact h
  · intro h
    exact ⟨xs, h, rfl⟩

variable {fields : List String} {β : Fin fields.length → Type}
  {read : ∀ i, Json → Except Error (β i)} {missing : ∀ i, Except Error (β i)}

/-- A name is found at its place. -/
theorem findFinIdx?_get (h : fields.Nodup) (i : Fin fields.length) :
    fields.findFinIdx? (fun name => decide (name = fields.get i)) = some i := by
  rw [List.findFinIdx?_eq_some_iff]
  refine ⟨decide_eq_true rfl, fun j hj => ?_⟩
  simpa using fun hname => Nat.ne_of_lt hj (congrArg Fin.val (h.injective_get hname))

theorem readEntries_eq_ok {m : Mapping} (h : ∀ e ∈ m, ∀ i,
    fields.findFinIdx? (fun name => decide (name = e.1)) = some i → ∃ y, read i e.2 = .ok y) :
    readEntries read m = .ok () := by
  induction m with
  | nil => rfl
  | cons e m ih =>
    obtain ⟨key, v⟩ := e
    obtain ⟨he, hm⟩ := List.forall_mem_cons.1 h
    rw [readEntries]
    split
    · next i hi =>
      obtain ⟨y, hy⟩ := he i hi
      rw [hy]
      exact ih hm
    · exact ih hm

/-- A member is found under its name. -/
theorem get?_members (h : fields.Nodup) (ws : Fin fields.length → Json) (i : Fin fields.length) :
    Mapping.get? (List.ofFn fun i => (fields.get i, ws i)) (fields.get i) = some (ws i) := by
  have hkeys : Mapping.keys (List.ofFn fun i => (fields.get i, ws i)) = fields := by
    rw [Mapping.keys, List.map_ofFn]
    exact List.ofFn_getElem
  have hnodup : (Mapping.keys (List.ofFn fun i => (fields.get i, ws i))).Nodup := by
    rwa [hkeys]
  exact (Mapping.get?_eq_some hnodup).2 (List.mem_ofFn.2 ⟨i, rfl⟩)

/-- Members are read from a mapping by their names. -/
theorem named_ofFn (h : fields.Nodup) {ws : Fin fields.length → Json} {xs : ∀ i, β i} :
    named (List.ofFn fun i => (fields.get i, ws i)) read missing = .ok xs ↔
      ∀ i, read i (ws i) = .ok (xs i) := by
  have hget := get?_members h ws
  have hentries (hread : ∀ i, read i (ws i) = .ok (xs i)) :
      readEntries read (List.ofFn fun i => (fields.get i, ws i)) = .ok () := by
    refine readEntries_eq_ok fun e he i hi => ?_
    obtain ⟨j, rfl⟩ := List.mem_ofFn.1 he
    rw [findFinIdx?_get h] at hi
    cases hi
    exact ⟨_, hread _⟩
  simp only [List.get_eq_getElem] at hget hentries ⊢
  simp only [named, Fin.getElem_fin, hget, Except.bind_eq_ok, Family.traverse_eq_ok]
  constructor
  · rintro ⟨_, -, hread⟩
    exact hread
  · intro hread
    exact ⟨_, hentries hread, hread⟩

/-- A list succeeds with the results of its elements. -/
theorem mapM_eq_ok {α β : Type} {f : α → Except Error β} {xs : List α} {ys : List β} :
    xs.mapM f = .ok ys ↔ List.Forall₂ (fun x y => f x = .ok y) xs ys := by
  induction xs generalizing ys with
  | nil =>
    rw [List.mapM_nil, List.forall₂_nil_left_iff]
    exact ⟨fun h => (Except.ok.inj h).symm, fun h => h ▸ rfl⟩
  | cons x xs ih =>
    simp only [List.mapM_cons, Except.bind_eq_ok, ih, List.forall₂_cons_left_iff]
    constructor
    · rintro ⟨y, hy, ys', hys, h⟩
      exact ⟨y, ys', hy, hys, (Except.ok.inj h).symm⟩
    · rintro ⟨y, ys', hy, hys, rfl⟩
      exact ⟨y, hy, ys', hys, rfl⟩

/-- Entries succeed with their keys and the results of their values. -/
theorem mapValues_eq_ok {α β : Type} {f : α → Except Error β} {es : List (String × α)}
    {es' : List (String × β)} : mapValues f es = .ok es' ↔
      List.Forall₂ (fun e e' => e.1 = e'.1 ∧ f e.2 = .ok e'.2) es es' := by
  have hentry (e : String × α) (e' : String × β) :
      Prod.mk e.1 <$> f e.2 = .ok e' ↔ e.1 = e'.1 ∧ f e.2 = .ok e'.2 := by
    refine Except.map_eq_ok.trans ⟨?_, ?_⟩
    · rintro ⟨y, hy, rfl⟩
      exact ⟨rfl, hy⟩
    · rintro ⟨hkey, hy⟩
      exact ⟨e'.2, hy, Prod.ext hkey rfl⟩
  rw [mapValues, mapM_eq_ok]
  simp only [hentry]

theorem keys_of_mapValues {α β : Type} {f : α → Except Error β} {es : List (String × α)}
    {es' : List (String × β)} (h : mapValues f es = .ok es') :
    es'.map (·.1) = es.map (·.1) := by
  rw [mapValues_eq_ok] at h
  induction h with
  | nil => rfl
  | cons h _ ih => rw [List.map_cons, List.map_cons, ih, h.1]

/-- The entries of a map make up the map. -/
theorem ofEntries_entries {α : Type} (m : TextMap α) : TextMap.ofEntries m.entries = m :=
  TextMap.ext (SortedEntries.ofList_of_sorted m.sorted)

end

/-! ## Documents of kept values -/

theorem encodeAlternative_ne_null {tag : String} {p : Payload} {x : p.Carrier} :
    encodeAlternative tag p x ≠ .ok .null := by
  intro h
  cases p with
  | unit => cases h
  | single | tuple | struct =>
    obtain ⟨_, -, h⟩ := Except.bind_eq_ok.1 h
    cases h

/-- Only what is absent has the document of nothing, among kept values. -/
theorem absent_of_encode_eq_null {s : Shape} {x : s.Carrier} (hx : s.Everywhere Kept x)
    (h : encode s x = .ok .null) : Absent s x := by
  induction s using Shape.induct with
  | bool | text | int => cases h
  | float32 =>
    have hx : (x.convert .double).isFinite = true := (Binary.isFinite_widen x).trans hx
    exact absurd hx (floatOrNull_eq_null.1 (Except.ok.inj h))
  | float64 => exact absurd hx (floatOrNull_eq_null.1 (Except.ok.inj h))
  | option s ih =>
    cases x with
    | none => trivial
    | some x => exact absurd (ih hx.2 h) hx.1
  | list s | map s =>
    obtain ⟨_, -, h⟩ := Except.map_eq_ok.1 h
    cases h
  | pairs => cases x <;> cases h
  | struct name fields shape =>
    obtain ⟨_, -, h⟩ := Except.bind_eq_ok.1 h
    cases h
  | union name alternatives payload => exact absurd h encodeAlternative_ne_null

theorem encode_eq_null_of_absent {s : Shape} {x : s.Carrier} (h : Absent s x) :
    encode s x = .ok .null := by
  cases s with
  | option s =>
    cases x with
    | none => rfl
    | some x => exact h.elim
  | bool | text | int | float32 | float64 | list | map | pairs | struct | union => exact h.elim

/-! ## Reading what was written -/

/-- The value comes back from its document, if it has one, iff all its parts are
    kept. -/
def Faithful (s : Shape) (x : s.Carrier) : Prop :=
  ∀ w, encode s x = .ok w → (decode s w = .ok x ↔ s.Everywhere Kept x)

section
variable {s : Shape}

theorem faithful_of_encode {x : s.Carrier} {w : Json} (hw : encode s x = .ok w)
    (h : decode s w = .ok x ↔ s.Everywhere Kept x) : Faithful s x := by
  intro w' hw'
  obtain rfl := Except.ok.inj (hw.symm.trans hw')
  exact h

theorem faithful_float32 (x : Binary32) : Faithful .float32 x := by
  refine faithful_of_encode rfl ?_
  by_cases hx : x.isFinite = true
  · have hwide := Binary.isFinite_convert_of_isFinite hx
    rw [floatOrNull_of_isFinite hwide]
    exact iff_of_true (congrArg Except.ok (Binary.narrow_widen hx)) hx
  · have hwide : (x.convert .double).isFinite ≠ true := by rwa [Binary.isFinite_widen]
    rw [floatOrNull_eq_null.2 hwide]
    exact iff_of_false (fun h => by cases h) hx

theorem faithful_float64 (x : Binary64) : Faithful .float64 x := by
  refine faithful_of_encode rfl ?_
  by_cases hx : x.isFinite = true
  · rw [floatOrNull_of_isFinite hx]
    exact iff_of_true rfl hx
  · rw [floatOrNull_eq_null.2 hx]
    exact iff_of_false (fun h => by cases h) hx

theorem decode_option {w : Json} (hw : w ≠ .null) : decode (.option s) w = some <$> decode s w := by
  cases w with
  | null => exact absurd rfl hw
  | bool | num | str | arr | obj => rfl

theorem faithful_some {x : s.Carrier} (hx : Faithful s x) : Faithful (.option s) (some x) := by
  intro w h
  have h : encode s x = .ok w := h
  show decode (.option s) w = .ok (some x) ↔ ¬ Absent s x ∧ s.Everywhere Kept x
  by_cases hw : w = .null
  · subst hw
    exact iff_of_false (fun h => by cases h) fun hkept =>
      hkept.1 (absent_of_encode_eq_null hkept.2 h)
  · have habsent : ¬ Absent s x := fun ha =>
      hw (Except.ok.inj (h.symm.trans (encode_eq_null_of_absent ha)))
    rw [decode_option hw, and_iff_right habsent, ← hx w h]
    refine Except.map_eq_ok.trans ⟨?_, fun hx => ⟨x, hx, rfl⟩⟩
    rintro ⟨y, hy, h⟩
    cases h
    exact hy

theorem faithful_list (hs : ∀ x, Faithful s x) (xs : List s.Carrier) : Faithful (.list s) xs := by
  intro w h
  obtain ⟨ws, hws, rfl⟩ := Except.map_eq_ok.1 h
  show ws.mapM (decode s) = .ok xs ↔ True ∧ ∀ x ∈ xs, s.Everywhere Kept x
  rw [mapM_eq_ok] at hws ⊢
  rw [true_and]
  clear h
  induction hws with
  | nil => exact iff_of_true .nil (List.forall_mem_nil _)
  | cons hw _ ih => rw [List.forall₂_cons, hs _ _ hw, ih, List.forall_mem_cons]

/-- The entries of a mapping come back under their keys. -/
theorem faithful_entries (hs : ∀ x, Faithful s x) {es : List (String × s.Carrier)} {m : Mapping}
    (h : mapValues (encode s) es = .ok m) :
    mapValues (decode s) m = .ok es ↔ ∀ e ∈ es, s.Everywhere Kept e.2 := by
  rw [mapValues_eq_ok] at h ⊢
  induction h with
  | nil => exact iff_of_true .nil (List.forall_mem_nil _)
  | cons hw _ ih =>
    rw [List.forall₂_cons, and_iff_right hw.1.symm, hs _ _ hw.2, ih, List.forall_mem_cons]

/-- A map is collected from its own entries again: they stand in order. -/
theorem faithful_map (hs : ∀ x, Faithful s x) (m : TextMap s.Carrier) : Faithful (.map s) m := by
  intro w h
  obtain ⟨ws, hws, rfl⟩ := Except.map_eq_ok.1 h
  show TextMap.ofEntries <$> mapValues (decode s) ws = .ok m ↔
    True ∧ ∀ e ∈ m.entries, s.Everywhere Kept e.2
  rw [true_and, ← faithful_entries hs hws]
  refine Except.map_eq_ok.trans ⟨?_, ?_⟩
  · rintro ⟨es, hes, rfl⟩
    have hkeys : es.map (·.1) = (TextMap.ofEntries es).entries.map (·.1) :=
      (keys_of_mapValues hes).trans (keys_of_mapValues hws)
    have hsorted : SortedEntries.Sorted (es.map (·.1)) := hkeys ▸ (TextMap.ofEntries es).sorted
    exact hes.trans (congrArg _ (SortedEntries.ofList_of_sorted hsorted).symm)
  · intro hread
    exact ⟨m.entries, hread, ofEntries_entries m⟩

variable {n : Nat} {shape : Fin n → Shape} {xs : ∀ i, (shape i).Carrier}

/-- A family of values is read member by member. -/
theorem faithful_members {ws : Fin n → Json} (h : ∀ i, Faithful (shape i) (xs i))
    (hws : (Family.traverse fun i => encode (shape i) (xs i)) = .ok ws) :
    (∀ i, decode (shape i) (ws i) = .ok (xs i)) ↔ ∀ i, (shape i).Everywhere Kept (xs i) :=
  forall_congr' fun i => h i _ (Family.traverse_eq_ok.1 hws i)

end

theorem faithful_struct {name : String} {fields : List String} {shape : Fin fields.length → Shape}
    {xs : ∀ i, (shape i).Carrier} (hfields : fields.Nodup) (h : ∀ i, Faithful (shape i) (xs i)) :
    Faithful (.struct name fields shape) xs := by
  intro w hw
  obtain ⟨ws, hws, hw⟩ := Except.bind_eq_ok.1 hw
  obtain rfl := Except.ok.inj hw
  exact (named_ofFn hfields).trans ((faithful_members h hws).trans (and_iff_right trivial).symm)

theorem decodeAlternative_tuple {path : String} {n : Nat} {shape : Fin n → Shape} {xs : List Json}
    (h : xs ≠ []) : decodeAlternative path (.tuple n shape) (.arr xs) =
      positional ("tuple variant " ++ path) xs fun i => decode (shape i) := by
  cases xs with
  | nil => exact absurd rfl h
  | cons x xs => rfl

/-- An alternative is a bare name that is read as one, or it is a name with what
    it carries. -/
theorem encodeAlternative_cases {tag : String} {p : Payload} {x : p.Carrier} {w : Json}
    (hp : p.Distinct) (ih : p.Members fun s => s.Distinct → ∀ x, Faithful s x)
    (h : encodeAlternative tag p x = .ok w) :
    (w = .str tag ∧ decodeBare p = .ok x ∧ ¬ p.Hollow ∧ p.Everywhere Kept x) ∨
    ∃ v, w = .obj [(tag, v)] ∧ ∀ path,
      decodeAlternative path p v = .ok x ↔ ¬ p.Hollow ∧ p.Everywhere Kept x := by
  cases p with
  | unit => exact .inl ⟨(Except.ok.inj h).symm, rfl, not_false, trivial⟩
  | single s =>
    obtain ⟨v, hv, h⟩ := Except.bind_eq_ok.1 h
    exact .inr ⟨v, (Except.ok.inj h).symm, fun path =>
      (ih hp x v hv).trans (and_iff_right not_false).symm⟩
  | tuple n shape =>
    obtain ⟨ws, hws, h⟩ := Except.bind_eq_ok.1 h
    refine .inr ⟨_, (Except.ok.inj h).symm, fun path => ?_⟩
    have hmembers := faithful_members (fun i => ih i (hp i) (x i)) hws
    cases n with
    | zero => exact iff_of_false (fun h => by cases h) fun h => h.1 rfl
    | succ n =>
      have hne : List.ofFn ws ≠ [] := by simp
      rw [decodeAlternative_tuple hne]
      exact positional_ofFn.trans (hmembers.trans (and_iff_right (Nat.succ_ne_zero n)).symm)
  | struct fields shape =>
    obtain ⟨ws, hws, h⟩ := Except.bind_eq_ok.1 h
    refine .inr ⟨_, (Except.ok.inj h).symm, fun path => ?_⟩
    have hmembers := faithful_members (fun i => ih i (hp.2 i) (x i)) hws
    exact (named_ofFn hp.1).trans (hmembers.trans (and_iff_right not_false).symm)

section
variable {name tag : String} {alternatives : List String}
  {payload : Fin alternatives.length → Payload} {i : Fin alternatives.length}

theorem decode_bareName
    (hi : alternatives.findFinIdx? (fun name => decide (name = tag)) = some i) :
    decode (.union name alternatives payload) (.str tag) =
      Sigma.mk i <$> decodeBare (payload i) := by
  simp only [decode, hi]

theorem decode_tagged {v : Json}
    (hi : alternatives.findFinIdx? (fun name => decide (name = tag)) = some i) :
    decode (.union name alternatives payload) (.obj [(tag, v)]) =
      Sigma.mk i <$> decodeAlternative (name ++ "::" ++ tag) (payload i) v := by
  simp only [decode, hi]

theorem map_mk_eq_ok {r : Except Error (payload i).Carrier} {x : (payload i).Carrier} :
    (Sigma.mk i <$> r : Except Error (Σ i, (payload i).Carrier)) = .ok ⟨i, x⟩ ↔ r = .ok x := by
  refine Except.map_eq_ok.trans ⟨?_, fun hx => ⟨x, hx, rfl⟩⟩
  rintro ⟨y, hy, h⟩
  cases h
  exact hy

theorem faithful_union (hnames : alternatives.Nodup) (hp : (payload i).Distinct)
    (ih : (payload i).Members fun s => s.Distinct → ∀ x, Faithful s x) (x : (payload i).Carrier) :
    Faithful (.union name alternatives payload) ⟨i, x⟩ := by
  intro w hw
  have hw : encodeAlternative (alternatives.get i) (payload i) x = .ok w := hw
  have hi := findFinIdx?_get hnames i
  rcases encodeAlternative_cases hp ih hw with ⟨rfl, hbare, hkept⟩ | ⟨v, rfl, hread⟩
  · rw [decode_bareName hi]
    exact iff_of_true (map_mk_eq_ok.2 hbare) hkept
  · rw [decode_tagged hi]
    exact map_mk_eq_ok.trans (hread _)

end

/-- **A value of distinct names comes back from its document iff all its parts are kept.** -/
theorem faithful_of_distinct {s : Shape} (hs : s.Distinct) (x : s.Carrier) : Faithful s x := by
  induction s using Shape.induct with
  | bool | text => exact faithful_of_encode rfl (iff_of_true rfl trivial)
  | int k => exact faithful_of_encode rfl (iff_of_true (dif_pos x.2) trivial)
  | float32 => exact faithful_float32 x
  | float64 => exact faithful_float64 x
  | option s ih =>
    cases x with
    | none => exact faithful_of_encode rfl (iff_of_true rfl trivial)
    | some x => exact faithful_some (ih hs x)
  | list s ih => exact faithful_list (ih hs) x
  | map s ih => exact faithful_map (ih hs) x
  | pairs =>
    cases x with
    | nil => exact faithful_of_encode rfl (iff_of_true rfl trivial)
    | cons =>
      intro w hw
      cases hw
  | struct name fields shape ih => exact faithful_struct hs.1 fun i => ih i (hs.2 i) (x i)
  | union name alternatives payload ih =>
    obtain ⟨i, x⟩ := x
    exact faithful_union hs.1 (hs.2 i) (ih i) x

end Foreign

/-! ## The leaf -/

namespace Leaf

open Foreign

/-- **What becomes of a foreign value.**  It is refused iff some key in it is no
    text; any other value has a document, and it comes back from the document iff
    all its parts are kept. -/
theorem foreign_returns_iff {s : Shape} (hs : s.Distinct) (x : s.Carrier) :
    (¬ s.Everywhere TextKeys x ∧
      encode (.foreign s) x = .error (.bare (.foreign .keyNotText))) ∨
    (s.Everywhere TextKeys x ∧ ∃ w, encode (.foreign s) x = .ok w ∧
      ((decode (.foreign s) w).result = .ok x ↔ s.Everywhere Kept x)) := by
  have hencode := failsUnless_encode s x
  by_cases hkeys : s.Everywhere TextKeys x
  · obtain ⟨w, hw⟩ := hencode.exists_ok hkeys
    refine .inr ⟨hkeys, w, Except.mapError_eq_ok.2 hw, ?_⟩
    exact Except.mapError_eq_ok.trans (faithful_of_distinct hs x w hw)
  · exact .inl ⟨hkeys, Except.mapError_eq_error.2 ⟨_, hencode.eq_error hkeys, rfl⟩⟩

end Leaf

namespace Catalogue

open Foreign

theorem distinct_mode : mode.Distinct := by
  refine ⟨by decide, ?_⟩
  simp only [List.length_cons, List.length_nil, Fin.forall_fin_succ]
  exact ⟨trivial, trivial, fun _ => trivial, ⟨by decide, fun _ => trivial⟩, fun i => i.elim0⟩

/-- The names of all the sample shapes are distinct. -/
theorem distinct_shapes : ∀ s ∈ shapes, s.2.Distinct := by
  simp only [shapes, List.forall_mem_cons]
  exact ⟨⟨by decide, fun _ => trivial⟩, trivial, trivial, trivial, trivial, trivial, trivial,
    distinct_mode, List.forall_mem_nil _⟩

/-- A structure of a union, a narrow float and an option. -/
def gauge : Shape :=
  .struct "Gauge" ["mode", "ratio", "limit"] fun
    | 0 => mode
    | 1 => .float32
    | 2 => .option .float64

/-- A gauge that is on, has the least positive ratio and no limit. -/
def tinyRatio : gauge.Carrier := fun
  | 0 => ⟨3, fun _ => true⟩
  | 1 => Binary.ofIndex false 1
  | 2 => none

theorem foreign_returns_iff_tinyRatio : gauge.Distinct ∧ gauge.Everywhere TextKeys tinyRatio ∧
    gauge.Everywhere Kept tinyRatio ∧ ∃ w, Leaf.encode (.foreign gauge) tinyRatio = .ok w ∧
      (Leaf.decode (.foreign gauge) w).result = .ok tinyRatio := by
  have hdistinct : gauge.Distinct := by
    refine ⟨by decide, ?_⟩
    simp only [List.length_cons, List.length_nil, Fin.forall_fin_succ]
    exact ⟨distinct_mode, trivial, trivial, fun i => i.elim0⟩
  have hkeys : gauge.Everywhere TextKeys tinyRatio := by
    refine ⟨trivial, ?_⟩
    simp only [List.length_cons, List.length_nil, Fin.forall_fin_succ]
    exact ⟨⟨trivial, fun _ => trivial⟩, trivial, trivial, fun i => i.elim0⟩
  have hkept : gauge.Everywhere Kept tinyRatio := by
    refine ⟨trivial, ?_⟩
    simp only [List.length_cons, List.length_nil, Fin.forall_fin_succ]
    have hratio : (Binary.ofIndex false 1 : Binary32).isFinite = true := by decide
    exact ⟨⟨not_false, fun _ => trivial⟩, hratio, trivial, fun i => i.elim0⟩
  refine ⟨hdistinct, hkeys, hkept, ?_⟩
  rcases Leaf.foreign_returns_iff hdistinct tinyRatio with ⟨hrefused, -⟩ | ⟨-, w, hw, hreturns⟩
  · exact absurd hkeys hrefused
  · exact ⟨w, hw, hreturns.2 hkept⟩

/-- **An infinity is lost without a word.**  It is written as nothing, which is
    not read as a float, and is read as absent where a float is optional; a float
    of the library's own is refused. -/
theorem foreign_infinity_lost :
    Leaf.encode (.foreign .float64) (Binary.ofIndex false Format.double.infinityIndex) =
      .ok .null ∧
    (Leaf.decode (.foreign .float64) .null).result =
      .error (.bare (.foreign (.type (.document .null) "f64"))) ∧
    Leaf.encode (.foreign (.option .float64))
      (some (Binary.ofIndex false Format.double.infinityIndex)) = .ok .null ∧
    (Leaf.decode (.foreign (.option .float64)) .null).result = .ok none ∧
    Leaf.encode .float64 (Binary.ofIndex false Format.double.infinityIndex) =
      .error (.bare (.nonFinite "inf")) := by
  have hnull : floatOrNull (Binary.ofIndex false Format.double.infinityIndex) = .null :=
    floatOrNull_eq_null.2 (by decide)
  exact ⟨congrArg Except.ok hnull, rfl, congrArg Except.ok hnull, rfl, rfl⟩

end Catalogue

end WireForm
