/-
  WireForm — bytes and their texts, one to one.

  Bytes are cut into sextets and sextets are put together to bytes in the same
  groups.  What a text spells is said as a relation with one rule per group, and
  both directions are shown to be that relation.

  * `Base64.bits?_eq_some`: the alphabet, both ways;
  * `Base64.Spells`: a text spells bytes;
  * `Base64.spells_iff`, `Base64.decodeBytes_eq_ok`: it is what is written, and
    what is read;
  * `Base64.Canonical`, `Base64.exists_spells_iff`: the texts that spell something,
    said without the bytes;
  * `Leaf.bytes_spelled_once`: the two directions undo each other, and any other text
    is refused.
-/
import WireForm.Proofs.Bytes
import WireForm.Proofs.Leaf

namespace WireForm

namespace Base64

/-! ## The alphabet -/

variable {n : Nat} {x : UInt8} {bs text : List UInt8}

theorem toNat_ofNat (hn : n < 256) : (UInt8.ofNat n).toNat = n := UInt8.toNat_ofNat_of_lt' hn

theorem bits?_symbol : ∀ n < 64, bits? (symbol n) = some n := by decide

/-- Each number below 64 has one symbol. -/
theorem bits?_eq_some : bits? x = some n ↔ n < 64 ∧ symbol n = x := by
  constructor
  · intro h
    have hx : ∀ k < 256, ∀ n ∈ bits? (UInt8.ofNat k), n < 64 ∧ symbol n = UInt8.ofNat k := by
      decide +kernel
    have hx := hx x.toNat x.toNat_lt n
    rw [UInt8.ofNat_toNat] at hx
    exact hx h
  · rintro ⟨hn, rfl⟩
    exact bits?_symbol n hn

theorem symbol_ne_pad : ∀ n < 64, symbol n ≠ pad := by decide

theorem bits_eq_ok {offset : Nat} : bits offset x = .ok n ↔ n < 64 ∧ symbol n = x := by
  rw [← bits?_eq_some, bits]
  cases bits? x <;> simp

/-! ## Groups -/

/-- The text spells the bytes: groups of four symbols spell three bytes each, and
    the last group may spell two or one. -/
inductive Spells : List UInt8 → List UInt8 → Prop
  | nil : Spells [] []
  | one {a b : Nat} : a < 64 → b < 64 → b % 16 = 0 →
      Spells [UInt8.ofNat (a * 4 + b / 16)] [symbol a, symbol b, pad, pad]
  | two {a b c : Nat} : a < 64 → b < 64 → c < 64 → c % 4 = 0 →
      Spells [UInt8.ofNat (a * 4 + b / 16), UInt8.ofNat (b % 16 * 16 + c / 4)]
        [symbol a, symbol b, symbol c, pad]
  | group {a b c d : Nat} {bs text : List UInt8} : a < 64 → b < 64 → c < 64 → d < 64 →
      Spells bs text →
      Spells (UInt8.ofNat (a * 4 + b / 16) :: UInt8.ofNat (b % 16 * 16 + c / 4) ::
        UInt8.ofNat (c % 4 * 64 + d) :: bs) (symbol a :: symbol b :: symbol c :: symbol d :: text)

/-- Bytes are written as a text that spells them. -/
theorem spells_symbols (bs : List UInt8) : Spells bs (symbols bs) := by
  induction bs using symbols.induct with
  | case1 => exact .nil
  | case2 x =>
    have hx := x.toNat_lt
    have h := Spells.one (a := x.toNat / 4) (b := x.toNat % 4 * 16) (by omega) (by omega) (by omega)
    rwa [show x.toNat / 4 * 4 + x.toNat % 4 * 16 / 16 = x.toNat by omega, UInt8.ofNat_toNat] at h
  | case3 x y =>
    have hx := x.toNat_lt
    have hy := y.toNat_lt
    have h := Spells.two (a := x.toNat / 4) (b := x.toNat % 4 * 16 + y.toNat / 16)
      (c := y.toNat % 16 * 4) (by omega) (by omega) (by omega) (by omega)
    rwa [show x.toNat / 4 * 4 + (x.toNat % 4 * 16 + y.toNat / 16) / 16 = x.toNat by omega,
      show (x.toNat % 4 * 16 + y.toNat / 16) % 16 * 16 + y.toNat % 16 * 4 / 4 = y.toNat by omega,
      UInt8.ofNat_toNat, UInt8.ofNat_toNat] at h
  | case4 x y z bs ih =>
    have hx := x.toNat_lt
    have hy := y.toNat_lt
    have hz := z.toNat_lt
    have h := Spells.group (a := x.toNat / 4) (b := x.toNat % 4 * 16 + y.toNat / 16)
      (c := y.toNat % 16 * 4 + z.toNat / 64) (d := z.toNat % 64) (by omega) (by omega) (by omega)
      (by omega) ih
    rwa [show x.toNat / 4 * 4 + (x.toNat % 4 * 16 + y.toNat / 16) / 16 = x.toNat by omega,
      show (x.toNat % 4 * 16 + y.toNat / 16) % 16 * 16 + (y.toNat % 16 * 4 + z.toNat / 64) / 4 =
        y.toNat by omega,
      show (y.toNat % 16 * 4 + z.toNat / 64) % 4 * 64 + z.toNat % 64 = z.toNat by omega,
      UInt8.ofNat_toNat, UInt8.ofNat_toNat, UInt8.ofNat_toNat] at h

/-- A text that spells bytes is the one they are written as. -/
theorem Spells.symbols_eq (h : Spells bs text) : symbols bs = text := by
  induction h with
  | nil => rfl
  | @one a b ha hb h0 =>
    rw [symbols, toNat_ofNat (by omega), show (a * 4 + b / 16) / 4 = a by omega,
      show (a * 4 + b / 16) % 4 * 16 = b by omega]
  | @two a b c ha hb hc h0 =>
    rw [symbols, toNat_ofNat (by omega), toNat_ofNat (by omega),
      show (a * 4 + b / 16) / 4 = a by omega,
      show (a * 4 + b / 16) % 4 * 16 + (b % 16 * 16 + c / 4) / 16 = b by omega,
      show (b % 16 * 16 + c / 4) % 16 * 4 = c by omega]
  | @group a b c d bs text ha hb hc hd _ ih =>
    rw [symbols, toNat_ofNat (by omega), toNat_ofNat (by omega), toNat_ofNat (by omega), ih,
      show (a * 4 + b / 16) / 4 = a by omega,
      show (a * 4 + b / 16) % 4 * 16 + (b % 16 * 16 + c / 4) / 16 = b by omega,
      show (b % 16 * 16 + c / 4) % 16 * 4 + (c % 4 * 64 + d) / 64 = c by omega,
      show (c % 4 * 64 + d) % 64 = d by omega]

theorem spells_iff : Spells bs text ↔ symbols bs = text :=
  ⟨Spells.symbols_eq, fun h => h ▸ spells_symbols bs⟩

/-! ## The last group -/

theorem all_pad_iff : text.all (· = pad) = true ↔ text = List.replicate text.length pad := by
  rw [List.eq_replicate_iff, List.all_eq_true]
  simp

/-- The last group holds symbols and then, not before the third place, padding. -/
theorem lastBits_eq_ok {start position : Nat} {ns : List Nat} :
    lastBits start position text = .ok ns ↔ (∀ n ∈ ns, n < 64) ∧ ∃ k,
      text = ns.map symbol ++ List.replicate k pad ∧ (k ≠ 0 → 2 ≤ position + ns.length) := by
  induction text generalizing position ns with
  | nil =>
    rw [lastBits]
    constructor
    · intro h
      cases h
      exact ⟨List.forall_mem_nil _, 0, rfl, fun h => absurd rfl h⟩
    · rintro ⟨-, k, h, -⟩
      obtain ⟨hns, -⟩ := List.append_eq_nil_iff.1 h.symm
      rw [List.map_eq_nil_iff.1 hns]
  | cons x text ih =>
    rw [lastBits]
    split
    · next hpad =>
      obtain ⟨rfl, hposition⟩ := hpad
      constructor
      · intro h
        split at h
        · next htext =>
          cases h
          exact ⟨List.forall_mem_nil _, text.length + 1,
            congrArg (pad :: ·) (all_pad_iff.1 htext), fun _ => hposition⟩
        · cases h
      · rintro ⟨hns, k, h, -⟩
        rcases ns with _ | ⟨n, ns⟩
        · obtain ⟨-, htext⟩ := List.eq_replicate_iff.1 h
          exact if_pos (all_pad_iff.2 (List.eq_replicate_iff.2
            ⟨rfl, fun c hc => htext c (List.mem_cons_of_mem _ hc)⟩))
        · have hn := symbol_ne_pad n (hns n List.mem_cons_self)
          exact absurd (List.cons.inj h).1.symm hn
    · next hpad =>
      simp only [Except.bind_eq_ok, bits_eq_ok, ih]
      constructor
      · rintro ⟨n, ⟨hn, rfl⟩, ns', ⟨hns, k, rfl, hk⟩, h⟩
        cases h
        refine ⟨List.forall_mem_cons.2 ⟨hn, hns⟩, k, rfl, fun h => ?_⟩
        rw [List.length_cons]
        have := hk h
        omega
      · rintro ⟨hns, k, h, hk⟩
        rcases ns with _ | ⟨n, ns⟩
        · rcases k with _ | k
          · cases h
          · exact absurd ⟨(List.cons.inj h).1, hk (Nat.succ_ne_zero k)⟩ hpad
        · obtain ⟨rfl, rfl⟩ := List.cons.inj h
          obtain ⟨hn, hns⟩ := List.forall_mem_cons.1 hns
          refine ⟨n, ⟨hn, rfl⟩, ns, ⟨hns, k, rfl, fun h => ?_⟩, rfl⟩
          have := hk h
          rw [List.length_cons] at this
          omega

/-- The last group is read as what it spells. -/
theorem lastGroup_eq_ok {start : Nat} (h0 : text ≠ []) (h4 : text.length ≤ 4) :
    lastGroup start text = .ok bs ↔ Spells bs text := by
  constructor
  · intro h
    obtain ⟨ns, hns, h⟩ := Except.bind_eq_ok.1 h
    obtain ⟨hlt, k, rfl, -⟩ := lastBits_eq_ok.1 hns
    have hlen : (ns.map symbol ++ List.replicate k pad).length = ns.length + k := by simp
    rw [hlen] at h h4
    split at h
    · cases h
    · next h2 =>
      split at h
      · cases h
      · next hmod =>
        rcases ns with _ | ⟨a, _ | ⟨b, _ | ⟨c, _ | ⟨d, ns⟩⟩⟩⟩
        · exact absurd (Nat.zero_lt_two) h2
        · exact absurd (Nat.one_lt_two) h2
        · obtain rfl : k = 2 := by simp only [List.length_cons, List.length_nil] at hmod h4; omega
          change (if b % 16 = 0 then Except.ok _ else _) = _ at h
          split at h
          · next hb =>
            cases h
            exact .one (hlt a (by simp)) (hlt b (by simp)) hb
          · cases h
        · obtain rfl : k = 1 := by simp only [List.length_cons, List.length_nil] at hmod h4; omega
          change (if c % 4 = 0 then Except.ok _ else _) = _ at h
          split at h
          · next hc =>
            cases h
            exact .two (hlt a (by simp)) (hlt b (by simp)) (hlt c (by simp)) hc
          · cases h
        · obtain rfl : ns = [] := List.eq_nil_of_length_eq_zero (by
            simp only [List.length_cons] at h4; omega)
          obtain rfl : k = 0 := by simp only [List.length_cons] at h4; omega
          cases h
          exact .group (hlt a (by simp)) (hlt b (by simp)) (hlt c (by simp)) (hlt d (by simp)) .nil
  · intro h
    cases h with
    | nil => exact absurd rfl h0
    | @one a b ha hb hb0 =>
      have hbits : lastBits start 0 [symbol a, symbol b, pad, pad] = .ok [a, b] :=
        lastBits_eq_ok.2 ⟨by simp [ha, hb], 2, rfl, fun _ => Nat.le_refl 2⟩
      simp [lastGroup, hbits, hb0, bind, Except.bind]
    | @two a b c ha hb hc hc0 =>
      have hbits : lastBits start 0 [symbol a, symbol b, symbol c, pad] = .ok [a, b, c] :=
        lastBits_eq_ok.2 ⟨by simp [ha, hb, hc], 1, rfl, fun _ => Nat.le_succ 2⟩
      simp [lastGroup, hbits, hc0, bind, Except.bind]
    | @group a b c d bs text ha hb hc hd h =>
      obtain rfl : text = [] := List.eq_nil_of_length_eq_zero (by
        simp only [List.length_cons] at h4; omega)
      obtain rfl : bs = [] := by cases h; rfl
      have hbits : lastBits start 0 [symbol a, symbol b, symbol c, symbol d] = .ok [a, b, c, d] :=
        lastBits_eq_ok.2 ⟨by simp [ha, hb, hc, hd], 0, rfl, fun h => absurd rfl h⟩
      simp [lastGroup, hbits, bind, Except.bind]

/-! ## All groups -/

theorem groups_eq_ok {start : Nat} : groups start text = .ok bs ↔ Spells bs text := by
  induction start, text using groups.induct generalizing bs with
  | case1 start x y z w v text ih =>
    simp only [groups, Except.bind_eq_ok, bits_eq_ok, ih]
    constructor
    · rintro ⟨a, ⟨ha, rfl⟩, b, ⟨hb, rfl⟩, c, ⟨hc, rfl⟩, d, ⟨hd, rfl⟩, bs', hspells, h⟩
      cases h
      exact .group ha hb hc hd hspells
    · intro h
      cases h with
      | @group a b c d bs' _ ha hb hc hd h =>
        exact ⟨a, ⟨ha, rfl⟩, b, ⟨hb, rfl⟩, c, ⟨hc, rfl⟩, d, ⟨hd, rfl⟩, bs', h, rfl⟩
  | case2 start =>
    constructor
    · intro h
      cases h
      exact .nil
    · intro h
      cases h
      rfl
  | case3 start text hlong h0 =>
    rw [groups.eq_3 start text hlong h0]
    refine lastGroup_eq_ok h0 ?_
    rcases text with _ | ⟨x, _ | ⟨y, _ | ⟨z, _ | ⟨w, _ | ⟨v, text⟩⟩⟩⟩⟩
    · exact Nat.zero_le _
    · simp
    · simp
    · simp
    · simp
    · exact absurd rfl (hlong x y z w v text)

theorem Spells.length_mod (h : Spells bs text) : text.length % 4 = 0 := by
  induction h with
  | nil => rfl
  | one | two => simp
  | group _ _ _ _ _ ih =>
    simp only [List.length_cons]
    omega

/-- **A text is read as what it spells.**  A lone byte after complete groups is
    looked at first, but no text that spells something has one. -/
theorem decodeBytes_eq_ok : decodeBytes text = .ok bs ↔ Spells bs text := by
  have hgroups : groups 0 text = .ok bs ↔ Spells bs text := groups_eq_ok
  rw [← hgroups, decodeBytes]
  split
  · next x hx =>
    split
    · next hlone =>
      refine iff_of_false (fun h => by cases h) fun h => ?_
      have hmod := (groups_eq_ok.1 h).length_mod
      omega
    · rfl
  · next hnone =>
    rw [List.getLast?_eq_none_iff.1 hnone]
    rfl

/-! ## Canonical texts -/

/-- A text in canonical form: symbols and then at most two padding signs, in
    groups of four, and the bits of the last symbol that no byte takes are zero. -/
def Canonical (text : List UInt8) : Prop :=
  ∃ (ns : List Nat) (padding : Nat), text = ns.map symbol ++ List.replicate padding pad ∧
    (∀ n ∈ ns, n < 64) ∧ padding ≤ 2 ∧ text.length % 4 = 0 ∧
      ∀ n ∈ ns.getLast?, n % 4 ^ padding = 0

theorem Spells.canonical (h : Spells bs text) : Canonical text := by
  induction h with
  | nil => exact ⟨[], 0, rfl, List.forall_mem_nil _, Nat.zero_le 2, rfl, by simp⟩
  | @one a b ha hb h0 => exact ⟨[a, b], 2, rfl, by simp [ha, hb], Nat.le_refl 2, by simp, by simp [h0]⟩
  | @two a b c ha hb hc h0 =>
    exact ⟨[a, b, c], 1, rfl, by simp [ha, hb, hc], Nat.le_succ 1, by simp, by simp [h0]⟩
  | @group a b c d bs text ha hb hc hd _ ih =>
    obtain ⟨ns, padding, rfl, hns, hpadding, hlen, hlast⟩ := ih
    refine ⟨a :: b :: c :: d :: ns, padding, rfl, by simpa [ha, hb, hc, hd] using hns, hpadding,
      ?_, ?_⟩
    · simp only [List.length_cons]
      omega
    rcases ns with _ | ⟨n, ns⟩
    · -- Nothing but padding is left, and that cannot be a group.
      have hlen : padding % 4 = 0 := by simpa using hlen
      obtain rfl : padding = 0 := by omega
      simp [Nat.mod_one]
    · simpa [List.getLast?_cons_cons] using hlast

/-- A text in canonical form spells something, group by group. -/
theorem Canonical.exists_spells (h : Canonical text) : ∃ bs, Spells bs text := by
  obtain ⟨ns, padding, rfl, hns, hpadding, hlen, hlast⟩ := h
  rw [List.length_append, List.length_map, List.length_replicate] at hlen
  induction hn : ns.length using Nat.strong_induction_on generalizing ns with
  | _ len ih =>
  subst hn
  rcases ns with _ | ⟨a, _ | ⟨b, _ | ⟨c, _ | ⟨d, ns⟩⟩⟩⟩
  · obtain rfl : padding = 0 := by simp only [List.length_nil] at hlen; omega
    exact ⟨_, .nil⟩
  · simp only [List.length_cons, List.length_nil] at hlen
    omega
  · obtain rfl : padding = 2 := by simp only [List.length_cons, List.length_nil] at hlen; omega
    exact ⟨_, .one (hns a (by simp)) (hns b (by simp)) (hlast b (by simp))⟩
  · obtain rfl : padding = 1 := by simp only [List.length_cons, List.length_nil] at hlen; omega
    exact ⟨_, .two (hns a (by simp)) (hns b (by simp)) (hns c (by simp)) (hlast c (by simp))⟩
  · simp only [List.forall_mem_cons] at hns
    obtain ⟨ha, hb, hc, hd, hns⟩ := hns
    simp only [List.length_cons] at hlen ih
    have hlast' : ∀ n ∈ ns.getLast?, n % 4 ^ padding = 0 := by
      rcases ns with _ | ⟨m, ns⟩
      · simp
      · simpa [List.getLast?_cons_cons] using hlast
    obtain ⟨bs, hbs⟩ := ih ns.length (by omega) ns hns (by omega) hlast' rfl
    exact ⟨_, .group ha hb hc hd hbs⟩

/-- **The texts that spell something are those in canonical form.** -/
theorem exists_spells_iff : (∃ bs, Spells bs text) ↔ Canonical text :=
  ⟨fun ⟨_, h⟩ => h.canonical, Canonical.exists_spells⟩

/-! ## Texts as strings -/

theorem symbol_lt : ∀ n < 64, (symbol n).toNat < 128 := by decide

theorem Canonical.ascii (h : Canonical text) : ∀ x ∈ text, x.toNat < 128 := by
  obtain ⟨ns, padding, rfl, hns, -⟩ := h
  intro x hx
  rcases List.mem_append.1 hx with hx | hx
  · obtain ⟨n, hn, rfl⟩ := List.mem_map.1 hx
    exact symbol_lt n (hns n hn)
  · rw [List.eq_of_mem_replicate hx]
    decide

/-- A character of ASCII is written as its own number. -/
theorem bytes_ascii (h : ∀ x ∈ text, x.toNat < 128) :
    bytes (text.map fun x => Char.ofNat x.toNat) = text := by
  have hbyte : ∀ k < 128, String.utf8EncodeChar (Char.ofNat k) = [UInt8.ofNat k] := by decide
  induction text with
  | nil => rfl
  | cons x text ih =>
    obtain ⟨hx, htext⟩ := List.forall_mem_cons.1 h
    rw [List.map_cons, bytes_cons, ih htext, hbyte _ hx, UInt8.ofNat_toNat, List.singleton_append]

theorem toList_toUTF8_encode (bs : List UInt8) : (encode bs).toUTF8.toList = symbols bs := by
  rw [encode, toList_toUTF8_ofList]
  exact bytes_ascii (spells_symbols bs).canonical.ascii

/-- **Reading and writing are inverse to each other.** -/
theorem decode_eq_ok {s : String} : decode s = .ok bs ↔ s = encode bs := by
  rw [decode, decodeBytes_eq_ok, spells_iff, ← toList_toUTF8_encode, toList_toUTF8_inj, eq_comm]

end Base64

namespace Leaf

/-- **Bytes have one spelling.**  All bytes have a text and come back from it; a
    text is read as some bytes iff it is the one that is written for them; and a
    text that is not in canonical form is refused for a reason of its own. -/
theorem bytes_spelled_once :
    (∀ bs : List UInt8, ∃ w, encode .bytes bs = .ok w ∧ (decode .bytes w).result = .ok bs) ∧
    (∀ (s : String) (bs : List UInt8),
      (decode .bytes (.str s)).result = .ok bs ↔ encode .bytes bs = .ok (.str s)) ∧
    ∀ s : String,
      (Base64.Canonical s.toUTF8.toList ∧ ∃ bs, (decode .bytes (.str s)).result = .ok bs) ∨
      (¬ Base64.Canonical s.toUTF8.toList ∧
        ∃ e, (decode .bytes (.str s)).result = .error (.malformed placeholder (.base64 e))) := by
  have hread (s : String) : (decode .bytes (.str s)).result =
      (Base64.decode s).mapError fun e => .bare (.base64 e) := rfl
  have hok (s : String) (bs : List UInt8) :
      (decode .bytes (.str s)).result = .ok bs ↔ s = Base64.encode bs :=
    Except.mapError_eq_ok.trans Base64.decode_eq_ok
  refine ⟨fun bs => ⟨_, rfl, (hok _ bs).2 rfl⟩, fun s bs => ?_, fun s => ?_⟩
  · rw [hok]
    exact ⟨fun h => h ▸ rfl, fun h => by cases h; rfl⟩
  · have hcanonical : (∃ bs, Base64.decode s = .ok bs) ↔ Base64.Canonical s.toUTF8.toList := by
      simp only [Base64.decode, Base64.decodeBytes_eq_ok, Base64.exists_spells_iff]
    cases hs : Base64.decode s with
    | ok bs => exact .inl ⟨hcanonical.1 ⟨bs, hs⟩, bs, by rw [hread, hs]; rfl⟩
    | error e =>
      refine .inr ⟨fun h => ?_, e, by rw [hread, hs]; rfl⟩
      obtain ⟨bs, hbs⟩ := hcanonical.2 h
      rw [hs] at hbs
      cases hbs

/-- Four bytes, of which the last stands alone in its group. -/
theorem bytes_spelled_once_fourBytes :
    encode .bytes [0xDE, 0xAD, 0xBE, 0xEF] = .ok (.str "3q2+7w==") ∧
      (decode .bytes (.str "3q2+7w==")).result = .ok [0xDE, 0xAD, 0xBE, 0xEF] :=
  have hencode : encode .bytes [0xDE, 0xAD, 0xBE, 0xEF] = .ok (.str "3q2+7w==") := rfl
  ⟨hencode, (bytes_spelled_once.2.1 _ _).2 hencode⟩

end Leaf

end WireForm
