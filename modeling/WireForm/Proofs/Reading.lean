/-
  WireForm — readers, followed to the end.

  A field is read from the entry with its key, or found to be absent.  A script
  that reads one element per place visits the elements in order: as long as
  there are elements, it is a traversal, and the tuple's own checks pass.

  * `FieldReader.required_of_some`, `FieldReader.optional_of_some`, …: a field;
  * `Record.decode_of_kind`: a document that is no mapping;
  * `ReadScript.run_each`: the reads of a tuple in order;
  * `Tuple.decode_each`: a tuple of the declared length.
-/
import WireForm.Proofs.Outcome
import WireForm.Record.Reader
import WireForm.Tuple.Reader

namespace WireForm

/-! ## Fields -/

namespace FieldReader

variable {α : Type} {r : FieldReader} {name : String} {w : Json} (decode : Json → Traced α)

theorem required_of_none (h : r.fields.get? name = none) :
    r.required name (fun w _ => decode w) = .fail (.missingField r.owner name) := by
  unfold required
  split
  · rfl
  · next h' => rw [h] at h'; cases h'

theorem required_of_some (h : r.fields.get? name = some w) :
    r.required name (fun w _ => decode w) = (decode w).locate (fieldPath r.owner name) := by
  unfold required
  split
  · next h' => rw [h] at h'; cases h'
  · next h' => rw [h] at h'; cases h'; rfl

theorem optional_of_none (h : r.fields.get? name = none) :
    r.optional name (fun w _ => decode w) = pure none := by
  unfold optional
  split
  · rfl
  · rfl
  · next h' => rw [h] at h'; cases h'

theorem optional_of_null (h : r.fields.get? name = some .null) :
    r.optional name (fun w _ => decode w) = pure none := by
  unfold optional
  split
  · rfl
  · rfl
  · next hw h' => rw [h] at h'; cases h'; exact absurd rfl hw

theorem optional_of_some (h : r.fields.get? name = some w) (hw : w ≠ .null) :
    r.optional name (fun w _ => decode w) =
      some <$> (decode w).locate (fieldPath r.owner name) := by
  unfold optional
  split
  · next h' => rw [h] at h'; cases h'
  · next h' => rw [h] at h'; cases h'; exact absurd rfl hw
  · next h' => rw [h] at h'; cases h'; rfl

end FieldReader

theorem Record.decode_of_kind {α : Type} {owner : String} {w : Json}
    {read : (m : Mapping) → w = .obj m → Traced α} (hw : w.kind ≠ .mapping) :
    decode owner w read = .fail (.shapeMismatch owner "mapping" w) := by
  cases w with
  | obj m => exact absurd rfl hw
  | null | bool | num | str | arr => rfl

/-! ## Elements -/

namespace ReadScript

variable {xs : List Json} {α β : Type} {n : Nat}

/-- A read goes on with its result at the next element. -/
theorem run_readThen (decode : Json → Traced β) (next : β → ReadScript xs α)
    {r : ElementReader xs} {x : Json} (hx : xs[r.position]? = some x) {y : Traced β}
    (hy : y = (decode x).locate (indexPath r.owner r.position)) :
    ((readThen (fun w _ => decode w) next).run r).1 =
      (y >>= fun a => ((next a).run { r with position := r.position + 1 }).1) ∧
    ∀ a, y.result = .ok a → ((readThen (fun w _ => decode w) next).run r).2 =
      ((next a).run { r with position := r.position + 1 }).2 := by
  obtain ⟨hr, rfl⟩ := List.getElem?_eq_some_iff.1 hx
  have hread : r.read (fun w _ => decode w) = (y, { r with position := r.position + 1 }) := by
    rw [ElementReader.read, dif_pos hr, ← hy]
  clear hy
  obtain ⟨events, result⟩ := y
  rw [readThen, run, hread]
  cases result with
  | error e =>
    refine ⟨?_, fun a ha => by cases ha⟩
    show Traced.mk (events ++ []) _ = _
    rw [List.append_nil]; rfl
  | ok a => exact ⟨rfl, fun a' ha => by cases ha; rfl⟩

theorem each_succ {β : Fin (n + 1) → Type} (decode : ∀ i, (w : Json) → w ∈ xs → Traced (β i))
    (next : (∀ i, β i) → ReadScript xs α) :
    each decode next = readThen (decode 0) fun x => each (fun i => decode i.succ) fun ys =>
      next (Family.cons x ys) := rfl

/-- Reading as many elements as there are places is a traversal. -/
theorem run_each {β : Fin n → Type} (decode : ∀ i, Json → Traced (β i))
    (next : (∀ i, β i) → ReadScript xs α) {r : ElementReader xs} {f : ∀ i, Traced (β i)}
    (hf : ∀ i : Fin n, ∃ x, xs[r.position + i.val]? = some x ∧
      f i = (decode i x).locate (indexPath r.owner (r.position + i.val))) :
    ((each (fun i w _ => decode i w) next).run r).1 =
      (Family.traverse f >>= fun ys => ((next ys).run { r with position := r.position + n }).1) ∧
    ∀ ys, (Family.traverse f).result = .ok ys → ((each (fun i w _ => decode i w) next).run r).2 =
      ((next ys).run { r with position := r.position + n }).2 := by
  induction n generalizing r with
  | zero =>
    refine ⟨rfl, fun ys _ => ?_⟩
    obtain rfl : (fun i => i.elim0) = ys := funext fun i => i.elim0
    rfl
  | succ n ih =>
    obtain ⟨x, hx, hx₀⟩ := hf 0
    have hf' : ∀ i : Fin n, ∃ x, xs[r.position + 1 + i.val]? = some x ∧
        f i.succ = (decode i.succ x).locate (indexPath r.owner (r.position + 1 + i.val)) := by
      intro i
      rw [Nat.add_assoc, Nat.add_comm 1]
      exact hf i.succ
    have hrest := fun a => ih (fun i => decode i.succ) (fun ys => next (Family.cons a ys))
      (r := { r with position := r.position + 1 }) hf'
    obtain ⟨h₁, h₂⟩ := run_readThen (decode 0)
      (fun a => each (fun i w _ => decode i.succ w) fun ys => next (Family.cons a ys)) hx hx₀
    have hpos : r.position + 1 + n = r.position + (n + 1) := by omega
    refine ⟨?_, fun ys hys => ?_⟩
    · rw [Family.traverse, each_succ, h₁, bind_assoc]
      congr 1; funext a
      rw [(hrest a).1, hpos, bind_assoc]
      rfl
    · rw [Family.result_traverse, Family.traverse_eq_ok] at hys
      have htail : (Family.traverse fun i : Fin n => f i.succ).result = .ok fun i => ys i.succ := by
        rw [Family.result_traverse, Family.traverse_eq_ok]
        exact fun i => hys i.succ
      rw [each_succ, h₂ _ (hys 0), (hrest _).2 _ htail, hpos, ← Family.eq_cons]

theorem each_of_eq_zero {β : Fin n → Type} (hn : n = 0)
    (decode : ∀ i, (w : Json) → w ∈ xs → Traced (β i)) (s : ReadScript xs α) :
    each decode (fun _ => s) = s := by
  subst hn
  rfl

end ReadScript

/-- A tuple that reads as many elements as it declares is traversed. -/
theorem Tuple.decode_each {α : Type} {n : Nat} {β : Fin n → Type} (owner : String)
    {xs : List Json} (hn : n = xs.length) (decode : ∀ i, Json → Traced (β i))
    (make : (∀ i, β i) → α) :
    Tuple.decode owner n (.arr xs) (fun _ _ =>
        .each (fun i x _ => decode i x) fun ys => .done (.ok (make ys))) =
      make <$> Family.traverse fun i =>
        (decode i (xs.get (i.cast hn))).locate (indexPath owner i) := by
  obtain ⟨h₁, h₂⟩ := ReadScript.run_each decode (fun ys => .done (.ok (make ys)))
    (r := ElementReader.new owner xs)
    (f := fun i => (decode i (xs.get (i.cast hn))).locate (indexPath owner i)) (by
      intro i
      refine ⟨xs.get (i.cast hn), ?_, ?_⟩
      · show xs[0 + i.val]? = _
        rw [Nat.zero_add]; simp
      · show _ = Traced.locate (indexPath owner (0 + i.val)) _
        rw [Nat.zero_add])
  simp only [Tuple.decode, if_pos hn.symm]
  rw [h₁]
  generalize Family.traverse (fun i =>
    (decode i (xs.get (i.cast hn))).locate (indexPath owner i)) = t at h₂
  obtain ⟨events, result⟩ := t
  cases result with
  | error e => rfl
  | ok ys =>
    rw [h₂ ys rfl]
    show (if xs.length - (0 + n) = 0 then _ else _) = _
    rw [if_pos (by omega)]; rfl

end WireForm
