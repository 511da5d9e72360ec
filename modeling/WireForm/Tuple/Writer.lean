/-
  WireForm — writing tuples.

  The code that writes a tuple is free in what it pushes: a `PushScript` is such
  code.  Whatever the script, the tuple encoder lets only the declared number
  of elements pass.

  * `ElementWriter.push`: one element;
  * `PushScript.run`: a script from beginning to end;
  * `Tuple.encode`: the document of a tuple.
-/
import WireForm.Error

namespace WireForm

/-! ## The writer -/

/-- The elements of the tuple `owner` that were pushed so far. -/
structure ElementWriter where
  owner : String
  elements : List Json

namespace ElementWriter

/-- A writer without elements. -/
def new (owner : String) : ElementWriter := ⟨owner, []⟩

/-- Push an element, given the outcome of encoding it: a failure gets the
    location of the next element and leaves the elements as they were. -/
def push (w : ElementWriter) (encoded : Except CodecError Json) :
    Except CodecError Unit × ElementWriter :=
  match encoded with
  | .ok v => (.ok (), { w with elements := w.elements ++ [v] })
  | .error e => (.error (e.locate (indexPath w.owner w.elements.length)), w)

end ElementWriter

/-! ## Scripts -/

/-- Code that writes a tuple. -/
inductive PushScript where
  | done (result : Except CodecError Unit)
  | push (encoded : Except CodecError Json) (next : Except CodecError Unit → PushScript)

namespace PushScript

/-- The result of a script and the writer it leaves. -/
def run : PushScript → ElementWriter → Except CodecError Unit × ElementWriter
  | done result, w => (result, w)
  | push encoded next, w => (next (w.push encoded).1).run (w.push encoded).2

/-- The elements in order, up to the first failure, which is the result. -/
def all : List (Except CodecError Json) → PushScript
  | [] => done (.ok ())
  | x :: xs => push x fun
    | .ok () => all xs
    | .error e => done (.error e)

end PushScript

/-! ## Tuples -/

/-- The document that a script writes for the tuple `owner` of `arity`
    elements. -/
def Tuple.encode (owner : String) (arity : Nat) (script : PushScript) : Except CodecError Json :=
  let (result, w) := script.run (ElementWriter.new owner)
  match result with
  | .error e => .error e
  | .ok () =>
    if w.elements.length = arity then .ok (.arr w.elements)
    else .error (.malformed owner (.count w.elements.length arity))

end WireForm
