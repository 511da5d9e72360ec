/-
  WireForm — enumerations by discriminant, against enumerations by ordinal.

  Reading a discriminant goes through signed integers of 64 bits.  It finds the
  members whose constants fit these, and no others; among them it does what a
  scan of members with the same ordinals does.

  * `Discriminants.Fits`: the constant of a member fits;
  * `Discriminants.decode_encode_iff_fits`: such members are read from their
    documents, and nothing else is read;
  * `Discriminants.scanned`: an enumeration of the same name, whose members are
    found by a scan;
  * `Discriminants.decode_eq_scan`: the two read and write alike.
-/
import WireForm.Catalogue.Enumerations
import WireForm.Proofs.Leaf

namespace WireForm

namespace Discriminants

variable {e : Discriminants} {w : Json} {i : e.Index}

/-! ## Members that are read -/

/-- The constant of a member is a signed integer of 64 bits. -/
def Fits (i : e.Index) : Prop := (e.constants.get i).2.1 < 2 ^ 63

theorem decode_of_find?_eq_none (h : e.find? w = none) :
    (e.decode w).result = .error (.unknownOrdinal e.name w) := by
  unfold decode
  split
  · next h' => rw [h] at h'; cases h'
  · rfl

/-- What is not read as a member is the ordinal of none. -/
theorem decode_of_ne_ok (h : ∀ i, (e.decode w).result ≠ .ok i) :
    (e.decode w).result = .error (.unknownOrdinal e.name w) :=
  decode_of_find?_eq_none <| Option.eq_none_iff_forall_ne_some.2 fun i hi =>
    h i (decode_eq_ok.2 hi)

theorem fits_of_decode (h : (e.decode w).result = .ok i) : Fits i := by
  obtain ⟨n, hw, hi⟩ := find?_eq_some.1 (decode_eq_ok.1 h)
  obtain ⟨hlt, -⟩ := Json.asInt?_eq_some.1 hw
  have hn := (List.findFinIdx?_eq_some_iff.1 hi).1
  rw [decide_eq_true_eq] at hn
  show (e.constants[i]).2.1 < 2 ^ 63
  rw [hn]
  exact hlt

/-- **A member comes back iff its constant fits** the signed integers of 64 bits;
    otherwise its document is refused, as is the document of no member. -/
theorem decode_encode_iff_fits (hd : (e.constants.map (·.2)).Nodup) :
    (∀ i : e.Index, (e.decode (e.encode i)).result = .ok i ↔ Fits i) ∧
      (∀ i : e.Index, ¬ Fits i →
        (e.decode (e.encode i)).result = .error (.unknownOrdinal e.name (e.encode i))) ∧
      ∀ w, (∀ i, w ≠ e.encode i) → (e.decode w).result = .error (.unknownOrdinal e.name w) := by
  refine ⟨fun i => ⟨fits_of_decode, decode_encode hd⟩, fun i hi => ?_, fun w hw => ?_⟩
  · refine decode_of_ne_ok fun j hj => hi ?_
    -- another member with this document would have the same constant
    have hc : (e.constants.get j).2.1 = (e.constants.get i).2.1 := by
      have hij := encode_of_decode hj
      injection hij with hij
      injection hij
    have hfit : Fits j := fits_of_decode hj
    rwa [Fits, hc] at hfit
  · exact decode_of_ne_ok fun i hi => hw i (encode_of_decode hi).symm

end Discriminants

namespace Catalogue

/-- The last member of `huge` that fits the signed integers of 64 bits. -/
def edge : huge.Index := ⟨1, by decide⟩

/-- The first member of `huge` past them. -/
def beyond : huge.Index := ⟨2, by decide⟩

/-- The constants of `huge` are different, but not all of its members come back. -/
theorem huge_beyond_refused : (huge.constants.map (·.2)).Nodup ∧
    (huge.decode (huge.encode beyond)).result =
      .error (.unknownOrdinal huge.name (huge.encode beyond)) :=
  ⟨by decide, Discriminants.decode_of_find?_eq_none rfl⟩

theorem decode_encode_iff_fits_huge : (huge.constants.map (·.2)).Nodup ∧
    (huge.decode (huge.encode edge)).result = .ok edge ∧
    (huge.decode (huge.encode beyond)).result =
      .error (.unknownOrdinal huge.name (huge.encode beyond)) ∧
    (huge.decode .null).result = .error (.unknownOrdinal huge.name .null) := by
  have hd : (huge.constants.map (·.2)).Nodup := by decide
  obtain ⟨hfits, hover, hno⟩ := Discriminants.decode_encode_iff_fits hd
  refine ⟨hd, (hfits edge).2 ?_, hover beyond ?_, hno .null fun _ => nofun⟩
  · show (2 ^ 63 - 1 : Int) < 2 ^ 63
    decide
  · exact Int.lt_irrefl (2 ^ 63)

end Catalogue

/-! ## The scan -/

namespace Ordinal

/-- The integer of an ordinal. -/
def value : Ordinal .integer → Int
  | int n => n.1

theorem isWire_eq_value (o : Ordinal .integer) (w : Json) :
    o.isWire w = decide (w.asInt? = some o.value) := by
  cases o
  rfl

theorem toWire_eq_int {o : Ordinal .integer} {n : Int} {range : -2 ^ 63 ≤ n ∧ n < 2 ^ 64}
    (h : o.value = n) : o.toWire = .int n range := by
  subst h
  cases o
  rfl

end Ordinal

namespace Enumeration

variable {e : Enumeration}

/-- The outcome of a scan, with the member as a number. -/
theorem val_decode (w : Json) : (e.decode w).result.map Fin.val =
    ((e.members.findIdx? fun m => m.ordinal.isWire w).elim
      (.error (.unknownOrdinal e.name w)) .ok) := by
  rw [List.findIdx?_eq_map_findFinIdx?_val]
  unfold decode
  split
  · next h => rw [h]; rfl
  · next h => rw [h]; rfl

/-- A scan of integer ordinals looks for the integer of the document. -/
theorem findIdx?_isWire (members : List (Member .integer)) (w : Json) :
    (members.findIdx? fun m => m.ordinal.isWire w) =
      w.asInt?.bind fun n => (members.map (·.ordinal.value)).findIdx? (· = n) := by
  simp only [Ordinal.isWire_eq_value]
  cases w.asInt? with
  | none => exact List.findIdx?_eq_none_iff.2 fun _ _ => rfl
  | some n =>
    rw [Option.bind_some, List.findIdx?_map]
    congr 1
    funext m
    simp [eq_comm]

end Enumeration

namespace Discriminants

variable {e : Discriminants}

/-- The outcome of a look-up, with the member as a number. -/
theorem val_decode (w : Json) : (e.decode w).result.map Fin.val =
    (((e.find? w).map Fin.val).elim (.error (.unknownOrdinal e.name w)) .ok) := by
  unfold decode
  split
  · next h => rw [h]; rfl
  · next h => rw [h]; rfl

/-- A look-up finds the first constant that is the integer of the document; no
    constant is past the kind of the enumeration. -/
theorem val_find? (w : Json) : (e.find? w).map Fin.val =
    w.asInt?.bind fun n => (e.constants.map (·.2.1)).findIdx? (· = n) := by
  unfold find?
  cases w.asInt? with
  | none => rfl
  | some n =>
    simp only [Option.bind_eq_bind, Option.bind_some]
    split
    · next h =>
      rw [ofDiscriminant?, ← List.findIdx?_eq_map_findFinIdx?_val, List.findIdx?_map]
      congr 1
      funext c
      simp [Subtype.ext_iff]
    · next h =>
      refine (List.findIdx?_eq_none_iff.2 fun m hm => ?_).symm
      obtain ⟨c, -, rfl⟩ := List.mem_map.1 hm
      rw [decide_eq_false_iff_not]
      rintro rfl
      exact h c.2.2

/-- The enumeration of the same name with members of its own. -/
def scanned (e : Discriminants) (members : List (Member .integer)) : Enumeration :=
  ⟨e.name, .integer, members⟩

variable {members : List (Member .integer)}

theorem length_scanned (h : members.map (·.ordinal.value) = e.constants.map (·.2.1)) :
    e.constants.length = (e.scanned members).members.length := by
  have hn := congrArg List.length h
  rw [List.length_map, List.length_map] at hn
  exact hn.symm

theorem val_decode_eq_scan (h : members.map (·.ordinal.value) = e.constants.map (·.2.1))
    (w : Json) :
    (e.decode w).result.map Fin.val = ((e.scanned members).decode w).result.map Fin.val := by
  rw [val_decode, Enumeration.val_decode, val_find?, ← h]
  exact congrArg (Option.elim · _ _) (Enumeration.findIdx?_isWire members w).symm

/-- **A look-up by discriminant comes to what a scan of the same ordinals comes
    to**: the same member, or the same error.  The documents of the members are
    the same. -/
theorem decode_eq_scan (h : members.map (·.ordinal.value) = e.constants.map (·.2.1)) :
    (∀ w i, (e.decode w).result = .ok i ↔
      ((e.scanned members).decode w).result = .ok (i.cast (length_scanned h))) ∧
    (∀ w, (∀ i, (e.decode w).result ≠ .ok i) →
      (e.decode w).result = .error (.unknownOrdinal e.name w) ∧
      ((e.scanned members).decode w).result = .error (.unknownOrdinal e.name w)) ∧
    ∀ i, e.encode i = (e.scanned members).encode (i.cast (length_scanned h)) := by
  refine ⟨fun w i => ⟨fun hi => ?_, fun hi => ?_⟩, fun w hw => ?_, fun i => ?_⟩
  · have hval := val_decode_eq_scan h w
    rw [hi] at hval
    obtain ⟨j, hj, hij⟩ := Except.map_eq_ok.1 hval.symm
    rw [hj, show j = i.cast _ from Fin.ext hij]
  · have hval := val_decode_eq_scan h w
    rw [hi] at hval
    obtain ⟨j, hj, hij⟩ := Except.map_eq_ok.1 hval
    rw [hj, show j = i from Fin.ext hij]
  · have hw := decode_of_ne_ok hw
    have hval := val_decode_eq_scan h w
    rw [hw] at hval
    exact ⟨hw, Except.map_eq_error.1 hval.symm⟩
  · obtain ⟨i, hi⟩ := i
    have hd := List.getElem_of_eq h (i := i) (by rw [h, List.length_map]; exact hi)
    simp only [List.getElem_map] at hd
    exact (Ordinal.toWire_eq_int hd).symm

end Discriminants

namespace Catalogue

theorem contains_i64_of_i8 {n : Int} (h : IntKind.i8.Contains n) : IntKind.i64.Contains n := by
  simp only [IntKind.Contains, IntKind.min, IntKind.max] at h ⊢
  omega

/-- Members with the constants of `tiny` for ordinals. -/
def tinyMembers : List (Member .integer) :=
  tiny.constants.map fun c => ⟨c.1, .int ⟨c.2.1, contains_i64_of_i8 c.2.2⟩⟩

theorem decode_eq_scan_tiny :
    ∃ h : tinyMembers.map (·.ordinal.value) = tiny.constants.map (·.2.1),
      ∀ w i, (tiny.decode w).result = .ok i ↔
        ((tiny.scanned tinyMembers).decode w).result =
          .ok (i.cast (Discriminants.length_scanned h)) :=
  ⟨rfl, (Discriminants.decode_eq_scan rfl).1⟩

end Catalogue

end WireForm
