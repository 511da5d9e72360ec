/-
  WireForm — locations.

  An error about a bare value starts out with a placeholder, and every field and
  element on the way out offers its location.  The innermost one is taken: no
  location is ever the placeholder, so nothing is replaced twice.

  * `Path`, `Path.location`: positions in a document, and the location of the
    innermost field or element around a position;
  * `Fault`: an error without its location;
  * `Located`: a result that fails for certain faults, each with the location
    of its position, and how such results are made up from others;
  * `Leaf.decode_error`, `Leaf.encode_error`: leaves do not locate their errors.
-/
import WireForm.Leaf
import WireForm.Proofs.Outcome

namespace WireForm

/-! ## Positions -/

/-- A step into a part of a document. -/
inductive Step where
  /-- Into an option or a box. -/
  | content
  | item (index : Nat)
  | entry (key : String)
  | element (tuple : String) (index : Nat)
  | field (record key : String)

/-- The location of a part, if it is a field or an element. -/
def Step.location? : Step → Option String
  | element tuple index => some (indexPath tuple index)
  | field record key => some (fieldPath record key)
  | content | item _ | entry _ => none

theorem fieldPath_ne_placeholder (owner field : String) : fieldPath owner field ≠ placeholder := by
  intro h
  have hdot : '.' ∈ placeholder.toList := by
    rw [← h, fieldPath]
    simp
  exact absurd hdot (by decide)

theorem indexPath_ne_placeholder (owner : String) (index : Nat) :
    indexPath owner index ≠ placeholder := by
  intro h
  have hbracket : '[' ∈ placeholder.toList := by
    rw [← h, indexPath]
    simp
  exact absurd hbracket (by decide)

/-- What is located is never taken for a bare value. -/
theorem Step.location?_ne_placeholder {s : Step} {l : String} (h : s.location? = some l) :
    l ≠ placeholder := by
  cases s with
  | element tuple index => cases h; exact indexPath_ne_placeholder tuple index
  | field record key => cases h; exact fieldPath_ne_placeholder record key
  | content | item | entry => cases h

/-- A position in a document, from the outside in. -/
abbrev Path : Type := List Step

namespace Path

/-- The location of the innermost field or element. -/
def location? : Path → Option String
  | [] => none
  | s :: p => (location? p).or s.location?

/-- The location that an error at a position carries. -/
def location (p : Path) : String := (location? p).getD placeholder

variable {s : Step} {p : Path} {l : String}

theorem location_cons_of_none (h : s.location? = none) : location (s :: p) = location p := by
  rw [location, location?, h, Option.or_none, location]

theorem location?_ne_placeholder (h : location? p = some l) : l ≠ placeholder := by
  induction p with
  | nil => cases h
  | cons s p ih =>
    rcases Option.or_eq_some_iff.1 h with h | ⟨-, h⟩
    · exact ih h
    · exact Step.location?_ne_placeholder h

theorem location?_eq_none : location? p = none ↔ ∀ s ∈ p, s.location? = none := by
  induction p with
  | nil => simp [location?]
  | cons s p ih => simp [location?, ih, and_comm]

/-- The placeholder is left only outside of all fields and elements. -/
theorem location_eq_placeholder : location p = placeholder ↔ ∀ s ∈ p, s.location? = none := by
  rw [← location?_eq_none, location]
  cases h : location? p with
  | none => simp
  | some l => simp [location?_ne_placeholder h]

theorem location_cons_ne_placeholder (h : s.location? = some l) :
    location (s :: p) ≠ placeholder := by
  intro hp
  have hs := location_eq_placeholder.1 hp s List.mem_cons_self
  rw [h] at hs
  cases hs

end Path

/-! ## Faults -/

/-- An error without its location. -/
inductive Fault where
  | malformed (reason : Reason)
  | arity (tuple : String) (expected actual : Nat)
  | unknownOrdinal (enumeration : String) (ordinal : Json)
  | unknownTag (interface tag : String)

/-- The error of a fault.  Only malformed data has a location. -/
def Fault.at (location : String) : Fault → CodecError
  | malformed reason => .malformed location reason
  | arity tuple expected actual => .arity tuple expected actual
  | unknownOrdinal enumeration ordinal => .unknownOrdinal enumeration ordinal
  | unknownTag interface tag => .unknownTag interface tag

/-- An error that was raised about a bare value. -/
def CodecError.Unlocated (e : CodecError) : Prop := ∃ f : Fault, f.at placeholder = e

/-- Malformed data, found in a bare value. -/
def CodecError.Bare (e : CodecError) : Prop := ∃ reason, .bare reason = e

theorem CodecError.Bare.unlocated {e : CodecError} (h : e.Bare) : e.Unlocated := by
  obtain ⟨reason, rfl⟩ := h
  exact ⟨.malformed reason, rfl⟩

/-- A field or element claims the errors that no part of it has claimed. -/
theorem Fault.locate_at {f : Fault} {s : Step} {p : Path} {l : String} (h : s.location? = some l) :
    (f.at p.location).locate l = f.at (Path.location (s :: p)) := by
  cases f with
  | malformed reason =>
    rw [Path.location, Path.location, Path.location?, h]
    cases hp : p.location? with
    | none => simp [Fault.at, CodecError.locate]
    | some l' => simp [Fault.at, CodecError.locate, Path.location?_ne_placeholder hp]
  | arity | unknownOrdinal | unknownTag => rfl

/-! ## Located results -/

/-- A result fails just for the faults `O`, each with the location of its
    position. -/
def Located {α : Type} (r : Except CodecError α) (O : Path → Fault → Prop) : Prop :=
  ∀ e, r = .error e ↔ ∃ p f, O p f ∧ e = f.at p.location

namespace Located

variable {α : Type} {r : Except CodecError α} {O O' : Path → Fault → Prop}

theorem congr (h : Located r O) (hO : ∀ p f, O' p f ↔ O p f) : Located r O' := by
  intro e
  simp only [hO]
  exact h e

theorem ok (a : α) : Located (.ok a) fun _ _ => False := by
  intro e
  simp

theorem error (p : Path) (f : Fault) :
    Located (.error (f.at p.location) : Except CodecError α) fun q g => q = p ∧ g = f := by
  intro e
  constructor
  · rintro ⟨⟩
    exact ⟨p, f, ⟨rfl, rfl⟩, rfl⟩
  · rintro ⟨_, _, ⟨rfl, rfl⟩, rfl⟩
    rfl

theorem map_iff {β : Type} {g : α → β} : Located (r.map g) O ↔ Located r O := by
  simp only [Located, Except.map_eq_error]

theorem map {β : Type} (h : Located r O) (g : α → β) : Located (r.map g) O := map_iff.2 h

/-- A step that is neither to a field nor to an element changes no location. -/
theorem step (h : Located r O) {s : Step} (hs : s.location? = none) :
    Located r fun q f => ∃ p, q = s :: p ∧ O p f := by
  intro e
  rw [h e]
  constructor
  · rintro ⟨p, f, hp, rfl⟩
    exact ⟨_, f, ⟨p, rfl, hp⟩, by rw [Path.location_cons_of_none hs]⟩
  · rintro ⟨_, f, ⟨p, rfl, hp⟩, rfl⟩
    exact ⟨p, f, hp, by rw [Path.location_cons_of_none hs]⟩

/-- A step to a field or an element claims what is not claimed. -/
theorem locate (h : Located r O) {s : Step} {l : String} (hs : s.location? = some l) :
    Located (r.mapError (CodecError.locate l)) fun q f => ∃ p, q = s :: p ∧ O p f := by
  intro e
  rw [Except.mapError_eq_error]
  constructor
  · rintro ⟨e', he, rfl⟩
    obtain ⟨p, f, hp, rfl⟩ := (h e').1 he
    exact ⟨_, f, ⟨p, rfl, hp⟩, Fault.locate_at hs⟩
  · rintro ⟨_, f, ⟨p, rfl, hp⟩, rfl⟩
    exact ⟨_, (h _).2 ⟨p, f, hp, rfl⟩, Fault.locate_at hs⟩

variable {n : Nat} {β : Fin n → Type} {x : ∀ k, Except CodecError (β k)}
  {F : Fin n → Path → Fault → Prop} {s : Fin n → Step}

/-- A family fails for the first fault of a member. -/
theorem first (h : ∀ k, Located (x k) (F k)) : Located (Family.traverse x) fun q f =>
    ∃ k, (∀ j < k, ∃ y, x j = .ok y) ∧ F k q f := by
  intro e
  rw [Family.traverse_eq_error]
  constructor
  · rintro ⟨k, hk, hlt⟩
    obtain ⟨p, f, hp, rfl⟩ := (h k e).1 hk
    exact ⟨p, f, ⟨k, hlt, hp⟩, rfl⟩
  · rintro ⟨p, f, ⟨k, hlt, hp⟩, rfl⟩
    exact ⟨k, (h k _).2 ⟨p, f, hp, rfl⟩, hlt⟩

theorem traverse (h : ∀ k, Located (x k) (F k)) (hs : ∀ k, (s k).location? = none) :
    Located (Family.traverse x) fun q f =>
      ∃ k p, q = s k :: p ∧ (∀ j < k, ∃ y, x j = .ok y) ∧ F k p f := by
  refine (first fun k => (h k).step (hs k)).congr fun q f => exists_congr fun k => ?_
  constructor
  · rintro ⟨p, hq, hlt, hp⟩
    exact ⟨hlt, p, hq, hp⟩
  · rintro ⟨hlt, p, hq, hp⟩
    exact ⟨p, hq, hlt, hp⟩

theorem traverse_locate {l : Fin n → String} (h : ∀ k, Located (x k) (F k))
    (hs : ∀ k, (s k).location? = some (l k)) :
    Located (Family.traverse fun k => (x k).mapError (CodecError.locate (l k))) fun q f =>
      ∃ k p, q = s k :: p ∧ (∀ j < k, ∃ y, x j = .ok y) ∧ F k p f := by
  refine (first fun k => (h k).locate (hs k)).congr fun q f => exists_congr fun k => ?_
  simp only [Except.mapError_eq_ok]
  constructor
  · rintro ⟨p, hq, hlt, hp⟩
    exact ⟨hlt, p, hq, hp⟩
  · rintro ⟨hlt, p, hq, hp⟩
    exact ⟨p, hq, hlt, hp⟩

end Located

/-! ## Leaves -/

namespace Leaf

variable {l : Leaf} {e : CodecError}

theorem readAs_error {α : Type} {expected : String} {read : Json → Option α} {w : Json}
    (h : readAs expected read w = .error e) : e.Bare := by
  unfold readAs at h
  cases hr : read w with
  | some a => rw [hr] at h; cases h
  | none => rw [hr] at h; cases h; exact ⟨_, rfl⟩

theorem mapError_bare_error {ε α : Type} {x : Except ε α} {reason : ε → Reason}
    (h : x.mapError (fun e => .bare (reason e)) = .error e) : e.Bare := by
  obtain ⟨e', -, rfl⟩ := Except.mapError_eq_error.1 h
  exact ⟨reason e', rfl⟩

/-- What is read and then looked at closer fails in one of the two. -/
theorem bind_error {α β : Type} {x : Except CodecError α} {f : α → Except CodecError β}
    (hx : x = .error e → e.Bare)
    (hf : ∀ a, f a = .error e → e.Bare) (h : x >>= f = .error e) :
    e.Bare := by
  rcases Except.bind_eq_error.1 h with h | ⟨a, -, h⟩
  · exact hx h
  · exact hf a h

theorem decodeInt_error {k : IntKind} {w : Json} (h : decodeInt k w = .error e) :
    e.Bare := by
  have hrange : ∀ n : Int, (if h : k.Contains n then .ok ⟨n, h⟩ else
      .error (.bare (.outOfRange (toString n) k.name)) : Except CodecError k.Word) = .error e →
      e.Bare := by
    intro n h
    split at h
    · cases h
    · cases h; exact ⟨_, rfl⟩
  unfold decodeInt at h
  dsimp only at h
  split at h
  · exact bind_error readAs_error hrange h
  · exact bind_error readAs_error hrange h

theorem decodeFloat32_error {w : Json} (h : decodeFloat32 w = .error e) :
    e.Bare := by
  refine bind_error readAs_error (fun x h => ?_) h
  dsimp only at h
  split at h
  · cases h
  · cases h; exact ⟨_, rfl⟩

/-- A leaf fails for malformed data without a word, or for an ordinal of no
    member, which it reports. -/
theorem decode_error_cases {w : Json} (h : (l.decode w).result = .error e) :
    (l.decode w).events = [] ∧ e.Bare ∨
      ∃ name, (l.decode w).events = [.unknownOrdinal name w] ∧ e = .unknownOrdinal name w := by
  cases l with
  | bool | string | float64 => exact Or.inl ⟨rfl, readAs_error h⟩
  | int k => exact Or.inl ⟨rfl, decodeInt_error h⟩
  | any => cases h
  | float32 => exact Or.inl ⟨rfl, decodeFloat32_error h⟩
  | bytes => exact Or.inl ⟨rfl, bind_error readAs_error (fun _ => mapError_bare_error) h⟩
  | datetime => exact Or.inl ⟨rfl, bind_error readAs_error (fun _ => mapError_bare_error) h⟩
  | foreign s => exact Or.inl ⟨rfl, mapError_bare_error h⟩
  | enumeration d =>
    simp only [decode, Enumeration.decode] at h ⊢
    split at h <;> cases h
    exact Or.inr ⟨_, rfl, rfl⟩
  | discriminants d =>
    simp only [decode, Discriminants.decode] at h ⊢
    split at h <;> cases h
    exact Or.inr ⟨_, rfl, rfl⟩

/-- Leaves leave the location to what holds them. -/
theorem decode_error {w : Json} (h : (l.decode w).result = .error e) : e.Unlocated := by
  rcases decode_error_cases h with ⟨-, he⟩ | ⟨name, -, rfl⟩
  · exact he.unlocated
  · exact ⟨.unknownOrdinal name w, rfl⟩

theorem encodeFloat_error {x : Binary64} (h : encodeFloat x = .error e) :
    e.Bare := by
  unfold encodeFloat at h
  split at h
  · cases h
  · cases h; exact ⟨_, rfl⟩

theorem encode_error {x : l.Carrier} (h : l.encode x = .error e) :
    e.Unlocated := by
  cases l with
  | float64 | float32 => exact (encodeFloat_error h).unlocated
  | foreign s => exact (mapError_bare_error h).unlocated
  | bool | string | int | any | bytes | datetime | enumeration | discriminants => cases h

end Leaf

end WireForm
