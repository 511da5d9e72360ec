/-
  WireForm — the code that handles a tuple, whatever it does.

  Such code pushes or reads any number of elements and goes on as it likes when
  one fails.  What the writer and the reader hold is said for every moment of a
  run, by induction on what went before; each codec looks at them once, at the
  end of the run, and that leaves no tuple of a wrong length.

  * `PushScript.After`, `ReadScript.After`: a moment of a run, with what went
    before it;
  * `PushScript.After.writer_eq`: the writer holds what was pushed successfully;
  * `ReadScript.After.reader_eq`: the cursor stands after the elements that were
    read, and never past the last one;
  * `Tuple.encode_eq_ok`, `Tuple.decode_eq_ok`: the runs that the codecs let pass;
  * `Tuple.arity_exact`: what all runs have in common.
-/
import WireForm.Leaf
import WireForm.Proofs.Outcome
import WireForm.Tuple.Reader
import WireForm.Tuple.Writer

namespace WireForm

/-! ## Writing -/

/-- The documents among the outcomes of encoding elements. -/
def encodings (xs : List (Except CodecError Json)) : List Json := xs.filterMap Except.toOption

/-- A push appends what it pushes, if that could be encoded. -/
theorem ElementWriter.push_writer (w : ElementWriter) (x : Except CodecError Json) :
    (w.push x).2 = ⟨w.owner, w.elements ++ encodings [x]⟩ := by
  cases x with
  | ok v => rfl
  | error e =>
    show w = ⟨w.owner, w.elements ++ []⟩
    rw [List.append_nil]

namespace PushScript

/-- A moment of a run: what is left of the script after the pushes `xs`, in
    order, and the writer it is given. -/
inductive After : PushScript → ElementWriter → List (Except CodecError Json) →
    PushScript → ElementWriter → Prop
  | start (s : PushScript) (w : ElementWriter) : After s w [] s w
  | push {x : Except CodecError Json} {next : Except CodecError Unit → PushScript}
      {w w' : ElementWriter} {xs : List (Except CodecError Json)} {s : PushScript} :
      After (next (w.push x).1) (w.push x).2 xs s w' → After (push x next) w (x :: xs) s w'

variable {s s' : PushScript} {w w' : ElementWriter} {xs : List (Except CodecError Json)}

/-- **The writer holds what was pushed successfully**, at every moment. -/
theorem After.writer_eq (h : s.After w xs s' w') :
    w' = ⟨w.owner, w.elements ++ encodings xs⟩ := by
  induction h with
  | start s w =>
    show w = ⟨w.owner, w.elements ++ []⟩
    rw [List.append_nil]
  | @push x next w w' xs s _ ih =>
    have hcons : encodings (x :: xs) = encodings [x] ++ encodings xs :=
      List.filterMap_append (l := [x])
    rw [ih, ElementWriter.push_writer, hcons, List.append_assoc]

/-- A run goes on as it would from any of its moments. -/
theorem After.run_eq (h : s.After w xs s' w') : s.run w = s'.run w' := by
  induction h with
  | start => rfl
  | push _ ih => exact ih

/-- Every run comes to its end. -/
theorem exists_after (s : PushScript) (w : ElementWriter) :
    ∃ xs, s.After w xs (.done (s.run w).1) (s.run w).2 := by
  induction s generalizing w with
  | done result => exact ⟨[], .start _ _⟩
  | push x next ih =>
    obtain ⟨xs, h⟩ := ih (w.push x).1 (w.push x).2
    exact ⟨x :: xs, .push h⟩

end PushScript

/-- A tuple is written iff the script succeeds after as many successful pushes
    as the tuple has elements. -/
theorem Tuple.encode_eq_ok {owner : String} {arity : Nat} {s : PushScript} {d : Json} :
    encode owner arity s = .ok d ↔ ∃ xs,
      (∃ w, s.After (ElementWriter.new owner) xs (.done (.ok ())) w) ∧
        (encodings xs).length = arity ∧ d = .arr (encodings xs) := by
  constructor
  · intro h
    obtain ⟨xs, hxs⟩ := s.exists_after (ElementWriter.new owner)
    have hw := hxs.writer_eq
    rw [encode] at h
    generalize s.run (ElementWriter.new owner) = r at hxs hw h
    obtain ⟨_ | _, w⟩ := r
    · cases h
    · obtain rfl : w = ⟨owner, encodings xs⟩ := hw
      dsimp only at h
      split at h
      · next hn =>
        cases h
        exact ⟨xs, ⟨_, hxs⟩, hn, rfl⟩
      · cases h
  · rintro ⟨xs, ⟨w, h⟩, hn, rfl⟩
    obtain rfl : w = ⟨owner, encodings xs⟩ := h.writer_eq
    rw [encode, h.run_eq]
    exact if_pos hn

/-! ## Reading -/

namespace ElementReader

variable {xs : List Json} {r : ElementReader xs} {β : Type}

theorem read_of_lt (decode : (w : Json) → w ∈ xs → Traced β) (h : r.position < xs.length) :
    r.read decode =
      ((decode (xs.get ⟨r.position, h⟩) (List.get_mem _ _)).locate
        (indexPath r.owner r.position), ⟨r.owner, r.position + 1⟩) :=
  dif_pos h

theorem read_of_le (decode : (w : Json) → w ∈ xs → Traced β) (h : xs.length ≤ r.position) :
    r.read decode = (.fail (.malformed (indexPath r.owner r.position) .pastEnd), r) :=
  dif_neg (Nat.not_lt.2 h)

/-- A read moves the cursor on, but not past the end. -/
theorem read_reader (decode : (w : Json) → w ∈ xs → Traced β) (h : r.position ≤ xs.length) :
    (r.read decode).2 = ⟨r.owner, min (r.position + 1) xs.length⟩ := by
  rcases Nat.lt_or_eq_of_le h with hlt | heq
  · rw [read_of_lt decode hlt, Nat.min_eq_left hlt]
  · rw [read_of_le decode (Nat.le_of_eq heq.symm), heq, Nat.min_eq_right (Nat.le_succ _), ← heq]

end ElementReader

namespace ReadScript

variable {xs : List Json} {α : Type} {s s' : ReadScript xs α} {r r' : ElementReader xs} {k : Nat}

/-- A moment of a run: what is left of the script after `k` reads, and the reader
    it is given. -/
inductive After : ReadScript xs α → ElementReader xs → Nat →
    ReadScript xs α → ElementReader xs → Prop
  | start (s : ReadScript xs α) (r : ElementReader xs) : After s r 0 s r
  | read {β : Type} {decode : (w : Json) → w ∈ xs → Traced β}
      {next : Except CodecError β → ReadScript xs α} {r r' : ElementReader xs} {k : Nat}
      {s : ReadScript xs α} :
      After (next (r.read decode).1.result) (r.read decode).2 k s r' →
        After (read decode next) r (k + 1) s r'

/-- **The cursor counts the reads** until it comes to the end, whatever becomes of
    them. -/
theorem After.reader_eq (h : s.After r k s' r') (hr : r.position ≤ xs.length) :
    r' = ⟨r.owner, min (r.position + k) xs.length⟩ := by
  induction h with
  | start s r =>
    rw [Nat.add_zero, Nat.min_eq_left hr]
  | @read β decode next r r' k s _ ih =>
    rw [ElementReader.read_reader decode hr] at ih
    rw [ih (Nat.min_le_right _ _)]
    dsimp only
    congr 1
    omega

/-- A run goes on as it would from any of its moments. -/
theorem After.run_eq (h : s.After r k s' r') :
    (s.run r).1.result = (s'.run r').1.result ∧ (s.run r).2 = (s'.run r').2 := by
  induction h with
  | start => exact ⟨rfl, rfl⟩
  | read _ ih => exact ih

/-- Every run comes to its end. -/
theorem exists_after (s : ReadScript xs α) (r : ElementReader xs) :
    ∃ k, s.After r k (.done (s.run r).1.result) (s.run r).2 := by
  induction s generalizing r with
  | done result => exact ⟨0, .start _ _⟩
  | read decode next ih =>
    obtain ⟨k, h⟩ := ih (r.read decode).1.result (r.read decode).2
    exact ⟨k + 1, .read h⟩

end ReadScript

namespace Tuple

variable {owner : String} {arity k : Nat} {α : Type} {w : Json} {xs : List Json}
  {script : (xs : List Json) → w = .arr xs → ReadScript xs α} {a : α}

theorem decode_of_length_ne (hw : w = .arr xs) (hn : xs.length ≠ arity) :
    decode owner arity w script = .fail (.arity owner arity xs.length) := by
  subst hw
  exact if_neg hn

/-- The result of the script is the result, unless it left elements unread. -/
theorem result_decode_of_after (hw : w = .arr xs) (hn : xs.length = arity)
    {result : Except CodecError α} {r : ElementReader xs}
    (h : (script xs hw).After (ElementReader.new owner xs) k (.done result) r) :
    (decode owner arity w script).result = result >>= fun a =>
      if arity ≤ k then .ok a else .error (.malformed owner (.unread (arity - k))) := by
  subst hw
  obtain ⟨hresult, hreader⟩ := h.run_eq
  obtain rfl : r = ⟨owner, min (0 + k) xs.length⟩ := h.reader_eq (Nat.zero_le _)
  rw [decode]
  simp only [if_pos hn]
  generalize (script xs rfl).run (ElementReader.new owner xs) = y at hresult hreader
  obtain ⟨⟨events, result⟩, r⟩ := y
  cases hresult
  cases hreader
  cases result with
  | error e => rfl
  | ok a =>
    have hleft : xs.length - min (0 + k) xs.length = arity - k := by omega
    show Traced.result (if xs.length - min (0 + k) xs.length = 0 then _ else
      ⟨_, .error (.malformed owner (.unread (xs.length - min (0 + k) xs.length)))⟩) =
        if arity ≤ k then _ else _
    rw [hleft]
    by_cases hk : arity ≤ k
    · rw [if_pos (Nat.sub_eq_zero_of_le hk), if_pos hk]
    · rw [if_neg (by omega), if_neg hk]

/-- A document is read iff it is a sequence of the declared length and the script
    succeeds after no fewer reads. -/
theorem decode_eq_ok : (decode owner arity w script).result = .ok a ↔
    ∃ xs, ∃ hw : w = .arr xs, xs.length = arity ∧ ∃ k, arity ≤ k ∧
      ∃ r, (script xs hw).After (ElementReader.new owner xs) k (.done (.ok a)) r := by
  constructor
  · intro h
    cases w with
    | null | bool | num | str | obj => cases h
    | arr xs =>
      by_cases hn : xs.length = arity
      · obtain ⟨k, hafter⟩ := (script xs rfl).exists_after (ElementReader.new owner xs)
        rw [result_decode_of_after rfl hn hafter] at h
        obtain ⟨a', hresult, h⟩ := Except.bind_eq_ok.1 h
        split at h
        · next hk =>
          cases h
          rw [hresult] at hafter
          exact ⟨xs, rfl, hn, k, hk, _, hafter⟩
        · cases h
      · rw [decode_of_length_ne rfl hn] at h
        cases h
  · rintro ⟨xs, hw, hn, k, hk, r, h⟩
    rw [result_decode_of_after hw hn h]
    exact if_pos hk

/-- **No tuple has a wrong length**, whatever pushes or reads it.
    (1) At every moment of a run the writer holds the encodings of the successful
    pushes so far, in order; a failing push changes nothing and is located at the
    place after them; and what is written is a sequence of exactly the declared
    length, the encodings of the successful pushes.
    (2) At every moment the cursor stands after the elements that were read, so that
    what remains is never less than nothing; the next read looks at the element
    there, and at no other, and moves on even if it cannot be decoded; past the end
    a read fails at the place after the last element and changes nothing.
    (3) Only a sequence of exactly the declared length is read, and only by as many
    reads; any other length is refused before the script is run, and a script
    that succeeds too early leaves a rest that is reported. -/
theorem arity_exact (owner : String) (arity : Nat) :
    ((∀ (s s' : PushScript) (xs : List (Except CodecError Json)) (w : ElementWriter),
        s.After (ElementWriter.new owner) xs s' w →
          w = ⟨owner, encodings xs⟩ ∧ ∀ e, w.push (.error e) =
            (.error (e.locate (indexPath owner (encodings xs).length)), w)) ∧
      ∀ (s : PushScript) (d : Json), encode owner arity s = .ok d ↔ ∃ xs,
        (∃ w, s.After (ElementWriter.new owner) xs (.done (.ok ())) w) ∧
          (encodings xs).length = arity ∧ d = .arr (encodings xs)) ∧
    (∀ (xs : List Json) (α : Type) (s s' : ReadScript xs α) (k : Nat) (r : ElementReader xs),
      s.After (ElementReader.new owner xs) k s' r →
        r = ⟨owner, min k xs.length⟩ ∧ r.remaining + min k xs.length = xs.length ∧
        ∀ (β : Type) (decode : (w : Json) → w ∈ xs → Traced β),
          (∀ h : k < xs.length, r.read decode =
            ((decode (xs.get ⟨k, h⟩) (List.get_mem _ _)).locate (indexPath owner k),
              ⟨owner, k + 1⟩)) ∧
          (xs.length ≤ k → r.read decode =
            (.fail (.malformed (indexPath owner xs.length) .pastEnd), r))) ∧
    ∀ (α : Type) (w : Json) (script : (xs : List Json) → w = .arr xs → ReadScript xs α),
      (∀ a, (decode owner arity w script).result = .ok a ↔
        ∃ xs, ∃ hw : w = .arr xs, xs.length = arity ∧ ∃ k, arity ≤ k ∧
          ∃ r, (script xs hw).After (ElementReader.new owner xs) k (.done (.ok a)) r) ∧
      (∀ xs, w = .arr xs → xs.length ≠ arity →
        decode owner arity w script = .fail (.arity owner arity xs.length)) ∧
      ∀ (xs : List Json) (hw : w = .arr xs) (k : Nat) (a : α) (r : ElementReader xs),
        xs.length = arity → k < arity →
        (script xs hw).After (ElementReader.new owner xs) k (.done (.ok a)) r →
        (decode owner arity w script).result =
          .error (.malformed owner (.unread (arity - k))) := by
  refine ⟨⟨fun s s' xs w h => ?_, fun s d => encode_eq_ok⟩, fun xs α s s' k r h => ?_,
    fun α w script => ⟨fun a => decode_eq_ok, fun xs hw => decode_of_length_ne hw,
      fun xs hw k a r hn hk h => ?_⟩⟩
  · obtain rfl : w = ⟨owner, encodings xs⟩ := h.writer_eq
    exact ⟨rfl, fun e => rfl⟩
  · have hr : r = ⟨owner, min (0 + k) xs.length⟩ := h.reader_eq (Nat.zero_le _)
    rw [Nat.zero_add] at hr
    refine ⟨hr, ?_, fun β decode => ⟨fun hk => ?_, fun hk => ?_⟩⟩
    · rw [hr]
      exact Nat.sub_add_cancel (Nat.min_le_right _ _)
    · rw [Nat.min_eq_left (Nat.le_of_lt hk)] at hr
      subst hr
      exact ElementReader.read_of_lt decode hk
    · rw [Nat.min_eq_right hk] at hr
      subst hr
      exact ElementReader.read_of_le decode (Nat.le_refl _)
  · rw [result_decode_of_after hw hn h]
    exact if_neg (Nat.not_le.2 hk)

end Tuple

namespace Catalogue

/-- A writer that goes on after an element that cannot be encoded. -/
def stubborn : PushScript :=
  .push (.ok (.bool true)) fun _ =>
    .push (.error (.bare .missing)) fun _ => .push (.ok (.bool false)) .done

/-- A reader that is done after one element, whatever it was. -/
def hasty (xs : List Json) : ReadScript xs Unit :=
  .read (fun w _ => Leaf.decode .bool w) fun _ => .done (.ok ())

/-- A reader that goes on after the end. -/
def insistent (xs : List Json) : ReadScript xs Unit :=
  .read (fun w _ => Leaf.decode .bool w) fun _ =>
    .read (fun w _ => Leaf.decode .bool w) fun _ =>
      .read (fun w _ => Leaf.decode .bool w) fun _ => .done (.ok ())

/-- What fails to be pushed leaves no gap and what fails to be read is passed over;
    a reader that stops too early is found out, and one that does not stop does no
    harm. -/
theorem arity_exact_pair :
    (∃ s w, stubborn.After (ElementWriter.new "Pair") [.ok (.bool true)] s w ∧
      w.push (.error (.bare .missing)) = (.error (.malformed "Pair[1]" .missing), w)) ∧
    Tuple.encode "Pair" 2 stubborn = .ok (.arr [.bool true, .bool false]) ∧
    (∃ r, ReadScript.After (insistent [.null, .bool true]) (ElementReader.new "Pair" _) 1
        (.read (fun w _ => Leaf.decode .bool w) fun _ =>
          .read (fun w _ => Leaf.decode .bool w) fun _ => .done (.ok ())) r ∧
      r.read (fun w _ => Leaf.decode .bool w) = (.ofExcept (.ok true), ⟨"Pair", 2⟩)) ∧
    (Tuple.decode "Pair" 2 (.arr [.null, .bool true]) fun xs _ => insistent xs).result = .ok () ∧
    (Tuple.decode "Pair" 2 (.arr [.null, .bool true]) fun xs _ => hasty xs).result =
      .error (.malformed "Pair" (.unread 1)) ∧
    Tuple.decode "Pair" 2 (.arr [.null]) (fun xs _ => hasty xs) = .fail (.arity "Pair" 2 1) := by
  obtain ⟨⟨hpush, hencode⟩, hread, hdecode⟩ := Tuple.arity_exact "Pair" 2
  have hmoment : stubborn.After (ElementWriter.new "Pair") [.ok (.bool true)] _ _ :=
    .push (.start _ _)
  have hfirst : ReadScript.After (insistent [.null, .bool true]) (ElementReader.new "Pair" _) 1
      (.read (fun w _ => Leaf.decode .bool w) fun _ =>
        .read (fun w _ => Leaf.decode .bool w) fun _ => .done (.ok ())) _ := .read (.start _ _)
  have hsecond := (hread _ _ _ _ 1 _ hfirst).2.2 Bool fun w _ => Leaf.decode .bool w
  have hall := hdecode Unit (.arr [.null, .bool true]) fun xs _ => insistent xs
  have hearly := hdecode Unit (.arr [.null, .bool true]) fun xs _ => hasty xs
  have hshort := hdecode Unit (.arr [.null]) fun xs _ => hasty xs
  refine ⟨⟨_, _, hmoment, (hpush _ _ _ _ hmoment).2 _⟩, (hencode _ _).2 ?_, ⟨_, hfirst, ?_⟩,
    ?_, ?_, ?_⟩
  · exact ⟨_, ⟨_, .push (.push (.push (.start _ _)))⟩, rfl, rfl⟩
  · exact hsecond.1 (by decide)
  · exact (hall.1 ()).2 ⟨_, rfl, rfl, 3, by decide, _, .read (.read (.read (.start _ _)))⟩
  · exact hearly.2.2 _ rfl 1 () _ rfl (by decide) (.read (.start _ _))
  · exact hshort.2.1 _ rfl (by decide)

end Catalogue

end WireForm
