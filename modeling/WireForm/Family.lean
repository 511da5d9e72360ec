/-
  WireForm — finite families, one member at a time.

  The children of a document are visited in order, and each may have a type of
  its own.  `Family.traverse` runs one action per place and collects the
  results as a family over the places; what follows a failure is not run.
  `Family.collect` does the same for places of one type and holds the results
  in an array, so that each of many is found at once.

  **`collect_eq_traverse`**: the two are one function.
-/

namespace WireForm

namespace Family

/-- The family with a first member and the others. -/
def cons {n : Nat} {β : Fin (n + 1) → Type} (x : β 0) (xs : ∀ i : Fin n, β i.succ) : ∀ i, β i
  | ⟨0, _⟩ => x
  | ⟨k + 1, h⟩ => xs ⟨k, Nat.lt_of_succ_lt_succ h⟩

/-- The actions at all places, in order. -/
def traverse {m : Type → Type} [Monad m] :
    {n : Nat} → {β : Fin n → Type} → (∀ i, m (β i)) → m (∀ i, β i)
  | 0, _, _ => pure fun i => i.elim0
  | _ + 1, _, f => do
    let x ← f 0
    let xs ← traverse fun i => f i.succ
    return cons x xs

/-- The actions at all places of one type, in order, with the results in an
    array. -/
def collect {m : Type → Type} [Monad m] {n : Nat} {α : Type} (f : Fin n → m α) :
    m (Fin n → α) := do
  let xs ← Vector.ofFnM f
  return fun i => xs[i]

/-- **Collecting is traversing.** -/
theorem collect_eq_traverse {m : Type → Type} [Monad m] [LawfulMonad m] {α : Type} {n : Nat}
    (f : Fin n → m α) : collect f = traverse f := by
  induction n with
  | zero =>
    simp only [collect, traverse, Vector.ofFnM_zero, pure_bind]
    congr 1
    funext i
    exact i.elim0
  | succ n ih =>
    simp only [traverse, ← ih, collect, Vector.ofFnM_succ', bind_assoc, pure_bind]
    congr 1
    funext x
    congr 1
    funext xs
    congr 1
    funext i
    obtain ⟨_ | k, h⟩ := i
    · simp [cons]
    · simp [cons]

end Family

end WireForm
