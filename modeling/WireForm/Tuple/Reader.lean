/-
  WireForm — reading tuples.

  The code that reads a tuple is free in what it reads: a `ReadScript` is such
  code, a tree of reads that goes on by the outcome of each read.  The reader
  hands each decoder the evidence that the value is an element.

  * `ElementReader.read`: the element at the cursor;
  * `ReadScript.run`: a script from beginning to end;
  * `Tuple.decode`: a script over a document of the declared length, all of
    which it must read.
-/
import WireForm.Family
import WireForm.Trace

namespace WireForm

/-! ## The reader -/

/-- A cursor over the elements `xs` of the tuple `owner`. -/
structure ElementReader (xs : List Json) where
  owner : String
  position : Nat

namespace ElementReader

variable {xs : List Json} {α : Type}

/-- A reader at the first element. -/
def new (owner : String) (xs : List Json) : ElementReader xs := ⟨owner, 0⟩

/-- How many elements are left. -/
def remaining (r : ElementReader xs) : Nat := xs.length - r.position

/-- Read the element at the cursor and advance, also past an element that fails
    to decode.  At the end the cursor stays. -/
def read (r : ElementReader xs) (decode : (w : Json) → w ∈ xs → Traced α) :
    Traced α × ElementReader xs :=
  if h : r.position < xs.length then
    ((decode xs[r.position] (List.getElem_mem h)).locate (indexPath r.owner r.position),
      { r with position := r.position + 1 })
  else (.fail (.malformed (indexPath r.owner r.position) .pastEnd), r)

end ElementReader

/-! ## Scripts -/

/-- Code that reads a tuple with the elements `xs`. -/
inductive ReadScript (xs : List Json) (α : Type) : Type 1 where
  | done (result : Except CodecError α)
  | read {β : Type} (decode : (w : Json) → w ∈ xs → Traced β)
      (next : Except CodecError β → ReadScript xs α)

namespace ReadScript

variable {xs : List Json} {α β : Type}

/-- The result of a script and the reader it leaves. -/
def run : ReadScript xs α → ElementReader xs → Traced α × ElementReader xs
  | done result, r => (.ofExcept result, r)
  | read decode next, r =>
    let (x, r) := r.read decode
    let (y, r) := (next x.result).run r
    (⟨x.events ++ y.events, y.result⟩, r)

/-- A read whose failure is the result. -/
def readThen (decode : (w : Json) → w ∈ xs → Traced β) (next : β → ReadScript xs α) :
    ReadScript xs α :=
  read decode fun
    | .ok x => next x
    | .error e => done (.error e)

/-- One read per place, in order, and then what is done with the results. -/
def each : {n : Nat} → {β : Fin n → Type} → (∀ i, (w : Json) → w ∈ xs → Traced (β i)) →
    ((∀ i, β i) → ReadScript xs α) → ReadScript xs α
  | 0, _, _, next => next fun i => i.elim0
  | _ + 1, _, decode, next =>
    readThen (decode 0) fun x => each (fun i => decode i.succ) fun ys => next (Family.cons x ys)

end ReadScript

/-! ## Tuples -/

/-- Decode a document of the tuple `owner` of `arity` elements by a script.  The
    length is checked before any element is read. -/
def Tuple.decode {α : Type} (owner : String) (arity : Nat) (w : Json)
    (script : (xs : List Json) → w = .arr xs → ReadScript xs α) : Traced α :=
  match w with
  | .arr xs =>
    if xs.length = arity then
      let (x, r) := (script xs rfl).run (ElementReader.new owner xs)
      match x.result with
      | .ok _ =>
        if r.remaining = 0 then x
        else ⟨x.events, .error (.malformed owner (.unread r.remaining))⟩
      | .error _ => x
    else .fail (.arity owner arity xs.length)
  | w => .fail (.shapeMismatch owner "sequence" w)

end WireForm
