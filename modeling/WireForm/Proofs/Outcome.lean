/-
  WireForm — results without their trails.

  What a traced computation comes to is decided by the results of its parts
  alone.  A family of computations succeeds if all of them do, and otherwise
  fails with the first failure.

  * `Traced.map_eq_mk`: what is made of a result leaves the events as they are;
  * `Traced.result_bind`, `Traced.result_map`, `Traced.result_locate`: results;
  * `Family.traverse_eq_ok`, `Family.traverse_eq_error`: what a family comes to,
    and `Family.eq_map_traverse`, the same the other way round;
  * `Traced.ok_map_traverse`: the same for a traced family and what is made of it;
  * `Traced.Succeeds`: success, whatever the result.
-/
import Mathlib.Tactic.Choose
import WireForm.Family
import WireForm.Trace

namespace WireForm

/-! ## Outcomes -/

section
variable {ε ε' α β : Type} {x : Except ε α}

theorem Except.mapError_eq_ok {f : ε → ε'} {a : α} : x.mapError f = .ok a ↔ x = .ok a := by
  cases x with
  | error e => exact iff_of_false (fun h => by cases h) fun h => by cases h
  | ok b => exact ⟨fun h => congrArg _ (Except.ok.inj h), fun h => congrArg _ (Except.ok.inj h)⟩

theorem Except.mapError_eq_error {f : ε → ε'} {e : ε'} :
    x.mapError f = .error e ↔ ∃ e', x = .error e' ∧ f e' = e := by
  cases x with
  | error e' =>
    constructor
    · exact fun h => ⟨e', rfl, Except.error.inj h⟩
    · rintro ⟨_, ⟨⟩, rfl⟩
      rfl
  | ok b =>
    constructor
    · intro h
      cases h
    · rintro ⟨_, ⟨⟩, -⟩

theorem Except.map_eq_ok {f : α → β} {b : β} : x.map f = .ok b ↔ ∃ a, x = .ok a ∧ f a = b := by
  cases x <;> simp [Except.map]

theorem Except.exists_map_eq_ok {f : α → β} : (∃ b, x.map f = .ok b) ↔ ∃ a, x = .ok a := by
  cases x <;> simp [Except.map]

theorem Except.bind_eq_ok {f : α → Except ε β} {b : β} :
    x >>= f = .ok b ↔ ∃ a, x = .ok a ∧ f a = .ok b := by
  cases x <;> simp [bind, Except.bind]

theorem Except.bind_eq_error {f : α → Except ε β} {e : ε} :
    x >>= f = .error e ↔ x = .error e ∨ ∃ a, x = .ok a ∧ f a = .error e := by
  cases x <;> simp [bind, Except.bind]

theorem Except.map_eq_error {f : α → β} {e : ε} : x.map f = .error e ↔ x = .error e := by
  cases x <;> simp [Except.map]

end

/-! ## Results -/

namespace Traced

variable {α β : Type}

theorem bind_eq (x : Traced α) (f : α → Traced β) : x >>= f = x.bind f := rfl

@[simp] theorem result_bind (x : Traced α) (f : α → Traced β) :
    (x >>= f).result = x.result >>= fun a => (f a).result := by
  rw [bind_eq, Traced.bind]
  cases x.result <;> rfl

@[simp] theorem result_log_bind (e : Event) (x : Traced α) :
    (log e >>= fun _ => x).result = x.result := by
  rw [result_bind]; rfl

/-- A computation and its events. -/
theorem eq_mk_iff {x : Traced α} {es : List Event} {r : Except CodecError α} :
    x = ⟨es, r⟩ ↔ x.events = es ∧ x.result = r := by
  obtain ⟨events, result⟩ := x
  simp

theorem map_eq_mk (f : α → β) (x : Traced α) : f <$> x = ⟨x.events, x.result.map f⟩ := by
  obtain ⟨events, result⟩ := x
  cases result with
  | error e => rfl
  | ok a =>
    show Traced.mk (events ++ []) _ = _
    rw [List.append_nil]
    rfl

@[simp] theorem result_map (f : α → β) (x : Traced α) : (f <$> x).result = x.result.map f := by
  rw [map_eq_mk]

@[simp] theorem result_locate (location : String) (x : Traced α) :
    (x.locate location).result = x.result.mapError (CodecError.locate location) := rfl

theorem map_locate (f : α → β) (location : String) (x : Traced α) :
    f <$> x.locate location = (f <$> x).locate location := by
  obtain ⟨events, result⟩ := x
  cases result <;> rfl

instance : LawfulMonad Traced := by
  refine LawfulMonad.mk' Traced (fun x => ?_) (fun a f => rfl) (fun x f g => ?_)
  · rw [map_eq_mk]
    obtain ⟨events, result⟩ := x
    cases result <;> rfl
  · obtain ⟨events, result⟩ := x
    cases result with
    | error e => rfl
    | ok a =>
      simp only [bind_eq, Traced.bind]
      cases (f a).result with
      | error e => rfl
      | ok b => simp only [List.append_assoc]

end Traced

/-! ## Families -/

namespace Family

variable {ε ε' : Type} {n : Nat} {β : Fin n → Type}

theorem eq_cons {β : Fin (n + 1) → Type} (xs : ∀ i, β i) : xs = cons (xs 0) fun i => xs i.succ := by
  funext i
  cases i using Fin.cases <;> rfl

/-- A family succeeds iff all its computations do. -/
theorem traverse_eq_ok {f : ∀ i, Except ε (β i)} {xs : ∀ i, β i} :
    traverse f = .ok xs ↔ ∀ i, f i = .ok (xs i) := by
  induction n with
  | zero =>
    refine ⟨fun _ i => i.elim0, fun _ => ?_⟩
    show Except.ok _ = _
    congr 1; funext i; exact i.elim0
  | succ n ih =>
    rw [Fin.forall_fin_succ, ← @ih _ (fun i => f i.succ) fun i => xs i.succ, traverse]
    constructor
    · intro h
      cases h₀ : f 0 with
      | error e => simp [h₀, bind, Except.bind] at h
      | ok x =>
        cases h₁ : traverse fun i => f i.succ with
        | error e => simp [h₀, h₁, bind, Except.bind] at h
        | ok ys =>
          simp only [h₀, h₁, bind, Except.bind, pure, Except.pure, Except.ok.injEq] at h
          subst h
          exact ⟨rfl, rfl⟩
    · rintro ⟨h₀, h₁⟩
      rw [h₀, h₁]
      exact congrArg Except.ok (eq_cons xs).symm

theorem exists_traverse_iff {f : ∀ i, Except ε (β i)} :
    (∃ xs, traverse f = .ok xs) ↔ ∀ i, ∃ x, f i = .ok x := by
  simp only [traverse_eq_ok]
  constructor
  · rintro ⟨xs, h⟩ i
    exact ⟨xs i, h i⟩
  · intro h
    choose xs hxs using h
    exact ⟨xs, hxs⟩

/-- A family fails with its first failure. -/
theorem traverse_eq_error {f : ∀ i, Except ε (β i)} {e : ε} :
    traverse f = .error e ↔ ∃ i, f i = .error e ∧ ∀ j < i, ∃ x, f j = .ok x := by
  induction n with
  | zero => exact ⟨fun h => (by cases h), fun ⟨i, _⟩ => i.elim0⟩
  | succ n ih =>
    rw [Fin.exists_fin_succ, traverse]
    cases h₀ : f 0 with
    | error e' =>
      simp only [bind, Except.bind, Except.error.injEq]
      constructor
      · rintro rfl
        exact Or.inl ⟨rfl, fun j hj => absurd hj (Fin.not_lt_zero j)⟩
      · rintro (⟨h, -⟩ | ⟨i, -, hlt⟩)
        · exact h
        · obtain ⟨x, hx⟩ := hlt 0 (Fin.succ_pos i)
          rw [h₀] at hx; cases hx
    | ok x =>
      have hsplit : ∀ i : Fin n, (∀ j < i.succ, ∃ x, f j = .ok x) ↔
          ∀ j < i, ∃ x, f j.succ = .ok x := by
        intro i
        rw [Fin.forall_fin_succ]
        simp only [Fin.succ_lt_succ_iff]
        exact ⟨fun h => h.2, fun h => ⟨fun _ => ⟨x, h₀⟩, h⟩⟩
      simp only [hsplit, reduceCtorEq, false_and, false_or]
      rw [← ih (f := fun i => f i.succ)]
      cases h₁ : traverse fun i => f i.succ with
      | error e' => simp only [bind, Except.bind, Except.error.injEq]
      | ok ys => simp only [bind, Except.bind, pure, Except.pure, reduceCtorEq]

/-- What comes to the results of a family if all succeed, and else to the
    first failure in its place, is a traversal. -/
theorem eq_map_traverse {α : Type} {f : ∀ i, Except ε (β i)} {place : Fin n → ε → ε'}
    {make : (∀ i, β i) → α} {r : Except ε' α}
    (hok : ∀ xs, (∀ i, f i = .ok (xs i)) → r = .ok (make xs))
    (herror : ∀ i e, f i = .error e → (∀ j < i, ∃ x, f j = .ok x) → r = .error (place i e)) :
    r = (traverse fun i => (f i).mapError (place i)).map make := by
  cases h : traverse f with
  | ok xs =>
    rw [traverse_eq_ok] at h
    rw [hok xs h, traverse_eq_ok.2 fun i => Except.mapError_eq_ok.2 (h i)]
    rfl
  | error e =>
    obtain ⟨i, hi, hlt⟩ := traverse_eq_error.1 h
    have h' : (traverse fun i => (f i).mapError (place i)) = .error (place i e) :=
      traverse_eq_error.2 ⟨i, Except.mapError_eq_error.2 ⟨e, hi, rfl⟩, fun j hj =>
        (hlt j hj).imp fun x hx => Except.mapError_eq_ok.2 hx⟩
    rw [herror i e hi hlt, h']
    rfl

/-- The result of a traced family is that of the results. -/
theorem result_traverse (f : ∀ i, Traced (β i)) :
    (traverse f).result = traverse fun i => (f i).result := by
  induction n with
  | zero => rfl
  | succ n ih =>
    rw [traverse, traverse, Traced.result_bind]
    congr 1; funext x
    rw [Traced.result_bind, ih]
    rfl

end Family

namespace Traced

variable {n : Nat} {β : Fin n → Type} {α γ : Type} {f : ∀ i, Traced (β i)} {make : (∀ i, β i) → α}

theorem ok_map_traverse {a : α} : (make <$> Family.traverse f).result = .ok a ↔
    ∃ ys, (∀ i, (f i).result = .ok (ys i)) ∧ make ys = a := by
  rw [result_map, Except.map_eq_ok, Family.result_traverse]
  simp only [Family.traverse_eq_ok]

/-- A computation succeeds. -/
def Succeeds (x : Traced α) : Prop := ∃ a, x.result = .ok a

@[simp] theorem succeeds_pure (a : α) : (pure a : Traced α).Succeeds := ⟨a, rfl⟩

@[simp] theorem not_succeeds_fail (e : CodecError) : ¬ (fail e : Traced α).Succeeds :=
  fun ⟨_, h⟩ => by cases h

@[simp] theorem succeeds_map {g : α → γ} {x : Traced α} : (g <$> x).Succeeds ↔ x.Succeeds := by
  simp only [Succeeds, result_map, Except.map_eq_ok]
  constructor
  · rintro ⟨_, a, h, -⟩
    exact ⟨a, h⟩
  · rintro ⟨a, h⟩
    exact ⟨_, a, h, rfl⟩

@[simp] theorem succeeds_locate {location : String} {x : Traced α} :
    (x.locate location).Succeeds ↔ x.Succeeds := by
  simp only [Succeeds, result_locate, Except.mapError_eq_ok]

@[simp] theorem succeeds_log {e : Event} {x : Traced α} :
    (log e >>= fun _ => x).Succeeds ↔ x.Succeeds := by
  rw [Succeeds, result_log_bind, Succeeds]

/-- A family succeeds iff all its members do. -/
@[simp] theorem succeeds_traverse : (Family.traverse f).Succeeds ↔ ∀ i, (f i).Succeeds := by
  simp only [Succeeds, Family.result_traverse]
  exact Family.exists_traverse_iff

end Traced

end WireForm
