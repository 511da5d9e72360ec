/-
  WireForm — sound declarations.

  A declaration is free to be inconsistent.  What makes it sound is said here,
  for one declaration at a time and then for everything that a type reaches,
  which for recursive declarations may lead back to the type.

  * `Leaf.Sound`, `TupleDecl.Sound`, `RecordDecl.Sound`, `InterfaceDecl.Sound`;
  * `Schema.Part`, `Schema.Reaches`, `Schema.Everywhere`: the parts of a type;
  * `Schema.Readable`, `Schema.Writable`, `Schema.Sound`: what decoding,
    encoding and both together rely on at one type, and `Schema.Regular`, what
    is left of the last if members may be confused;
  * `Schema.ForeignFree`: types without foreign leaves;
  * `Everywhere.of_list`: a way to check what a type reaches.
-/
import Mathlib.Logic.Relation
import WireForm.Catalogue.Schema
import WireForm.Variant

namespace WireForm

/-! ## Single declarations -/

/-- The members of an enumeration must be told apart, and a discriminant must
    be one that is read. -/
def Leaf.Sound : Leaf → Prop
  | .enumeration e => e.verify = .ok ()
  | .discriminants e => (e.constants.map (·.2)).Nodup ∧ ∀ c ∈ e.constants, c.2.1 < 2 ^ 63
  | .bool | .string | .int _ | .float64 | .float32 | .any | .bytes | .datetime | .foreign _ => True

variable {N : Names}

/-- The tuple handles as many elements as it declares. -/
structure TupleDecl.Sound (d : TupleDecl N) : Prop where
  arity : d.arity = d.elements.length
  plain : d.echoes = []

/-- The tuple pushes as many elements as it declares. -/
structure TupleDecl.Closed (d : TupleDecl N) : Prop where
  arity : d.arity = d.elements.length + d.echoes.length

theorem TupleDecl.Sound.closed {d : TupleDecl N} (h : d.Sound) : d.Closed :=
  ⟨by rw [h.arity, h.plain]; rfl⟩

/-- The record writes its fields only, and declares them. -/
structure RecordDecl.Writable (d : RecordDecl N) : Prop where
  declared : ∀ f ∈ d.fields, f.key ∈ d.keys
  plain : d.constants = []

/-- All keys that the record writes are declared. -/
structure RecordDecl.Closed (d : RecordDecl N) : Prop where
  fields : ∀ f ∈ d.fields, f.key ∈ d.keys
  constants : ∀ c ∈ d.constants, c.1 ∈ d.keys

theorem RecordDecl.Writable.closed {d : RecordDecl N} (h : d.Writable) : d.Closed where
  fields := h.declared
  constants := by rw [h.plain]; exact List.forall_mem_nil _

/-- The record writes what it declares, and each field under a key of its own. -/
structure RecordDecl.Sound (d : RecordDecl N) : Prop extends d.Writable where
  distinct : (d.fields.map (·.key)).Nodup

/-- The interface declares the discriminants of its variants, all different. -/
structure InterfaceDecl.Sound (d : InterfaceDecl N) : Prop where
  tags : d.tags = d.variants.map (·.tag)
  verified : Variant.verifyTags d.name d.tags = .ok ()

/-! ## Parts -/

namespace Schema

variable {S : Schema N} {P Q : Ty N → Prop} {t u : Ty N}

/-- A type is a part of another: its values occur in those of the other. -/
inductive Part (S : Schema N) : Ty N → Ty N → Prop
  | option (t : Ty N) : Part S (.option t) t
  | list (t : Ty N) : Part S (.list t) t
  | map (t : Ty N) : Part S (.map t) t
  | box (t : Ty N) : Part S (.box t) t
  | element (i : N.Tuple) {t : Ty N} : t ∈ (S.tuple i).elements → Part S (.tuple i) t
  | field (i : N.Record) {f : Field N} : f ∈ (S.record i).fields → Part S (.record i) f.valueType
  | variant (i : N.Interface) {v : VariantDecl N} : v ∈ (S.interface i).variants →
      Part S (.interface i) (.record v.record)

theorem Part.element_get {i : N.Tuple} (k : Fin (S.tuple i).elements.length) :
    S.Part (.tuple i) ((S.tuple i).elements.get k) :=
  .element i (List.get_mem _ k)

theorem Part.field_get {i : N.Record} (k : Fin (S.record i).fields.length) :
    S.Part (.record i) ((S.record i).fields.get k).valueType :=
  .field i (List.get_mem _ k)

theorem Part.variant_get {i : N.Interface} (v : Fin (S.interface i).variants.length) :
    S.Part (.interface i) (.record ((S.interface i).variants.get v).record) :=
  .variant i (List.get_mem _ v)

/-- A type is reached from another through any number of parts. -/
def Reaches (S : Schema N) : Ty N → Ty N → Prop := Relation.ReflTransGen S.Part

/-- Something holds of all types that a type reaches. -/
def Everywhere (S : Schema N) (P : Ty N → Prop) (t : Ty N) : Prop := ∀ u, S.Reaches t u → P u

theorem Everywhere.here (h : S.Everywhere P t) : P t := h t .refl

theorem Everywhere.part (h : S.Everywhere P t) (hu : S.Part t u) : S.Everywhere P u :=
  fun v hv => h v (.head hu hv)

theorem Everywhere.mono (h : S.Everywhere P t) (hPQ : ∀ u, P u → Q u) : S.Everywhere Q t :=
  fun u hu => hPQ u (h u hu)

/-- The parts of a type, listed. -/
def parts (S : Schema N) : Ty N → List (Ty N)
  | .leaf _ => []
  | .option t | .list t | .map t | .box t => [t]
  | .tuple i => (S.tuple i).elements
  | .record i => (S.record i).fields.map (·.valueType)
  | .interface i => (S.interface i).variants.map fun v => .record v.record

theorem Part.mem_parts (h : S.Part t u) : u ∈ S.parts t := by
  cases h with
  | option | list | map | box => exact List.mem_singleton.2 rfl
  | element _ h => exact h
  | field _ h => exact List.mem_map_of_mem h
  | variant _ h => exact List.mem_map_of_mem h

/-- What holds of the types of a list that contains their parts holds
    everywhere. -/
theorem Everywhere.of_list {l : List (Ty N)} (hP : ∀ u ∈ l, P u)
    (hl : ∀ u ∈ l, ∀ v ∈ S.parts u, v ∈ l) (ht : t ∈ l) : S.Everywhere P t := by
  suffices ∀ u, S.Reaches t u → u ∈ l from fun u hu => hP u (this u hu)
  intro u hu
  induction hu with
  | refl => exact ht
  | tail _ hp ih => exact hl _ ih _ hp.mem_parts

/-! ## Types -/

/-- Tuples handle what they declare. -/
def Exact (S : Schema N) : Ty N → Prop
  | .tuple i => (S.tuple i).Sound
  | .leaf _ | .option _ | .list _ | .map _ | .box _ | .record _ | .interface _ => True

/-- What decoding relies on at a type. -/
def Readable (S : Schema N) : Ty N → Prop
  | .tuple i => (S.tuple i).Sound
  | .interface i => (S.interface i).Sound
  | .leaf _ | .option _ | .list _ | .map _ | .box _ | .record _ => True

/-- What encoding relies on at a type: in a variant, the key of the
    discriminant must be left free. -/
def Writable (S : Schema N) : Ty N → Prop
  | .tuple i => (S.tuple i).Sound
  | .record i => (S.record i).Writable
  | .interface i => ∀ v ∈ (S.interface i).variants, typeKey ∉ (S.record v.record).keys
  | .leaf _ | .option _ | .list _ | .map _ | .box _ => True

/-- What the checks of encoding ask of a type: that it writes what it declares,
    and in a variant leaves the key of the discriminant free. -/
def Closed (S : Schema N) : Ty N → Prop
  | .tuple i => (S.tuple i).Closed
  | .record i => (S.record i).Closed
  | .interface i => ∀ v ∈ (S.interface i).variants, typeKey ∉ (S.record v.record).keys
  | .leaf _ | .option _ | .list _ | .map _ | .box _ => True

/-- What decoding and encoding rely on at a type so that what is read is written
    and read again.  Members that are confused do not matter: they are confused
    the first time. -/
def Regular (S : Schema N) : Ty N → Prop
  | .tuple i => (S.tuple i).Sound
  | .record i => (S.record i).Sound
  | .interface i => (S.interface i).Sound ∧
      ∀ v ∈ (S.interface i).variants, typeKey ∉ (S.record v.record).keys
  | .leaf _ | .option _ | .list _ | .map _ | .box _ => True

/-- What encoding and decoding rely on at a type so that they agree. -/
def Sound (S : Schema N) : Ty N → Prop
  | .leaf l => l.Sound
  | .tuple i => (S.tuple i).Sound
  | .record i => (S.record i).Sound
  | .interface i => (S.interface i).Sound ∧
      ∀ v ∈ (S.interface i).variants, typeKey ∉ (S.record v.record).keys
  | .option _ | .list _ | .map _ | .box _ => True

theorem Readable.exact (h : S.Readable t) : S.Exact t := by
  cases t with
  | tuple i => exact h
  | leaf | option | list | map | box | record | interface => trivial

theorem Writable.exact (h : S.Writable t) : S.Exact t := by
  cases t with
  | tuple i => exact h
  | leaf | option | list | map | box | record | interface => trivial

theorem Writable.closed (h : S.Writable t) : S.Closed t := by
  cases t with
  | tuple i => exact h.closed
  | record i => exact h.closed
  | interface i => exact h
  | leaf | option | list | map | box => trivial

theorem Sound.readable (h : S.Sound t) : S.Readable t := by
  cases t with
  | tuple i => exact h
  | interface i => exact h.1
  | leaf | option | list | map | box | record => trivial

theorem Sound.writable (h : S.Sound t) : S.Writable t := by
  cases t with
  | tuple i => exact h
  | record i => exact h.toWritable
  | interface i => exact h.2
  | leaf | option | list | map | box => trivial

theorem Sound.regular (h : S.Sound t) : S.Regular t := by
  cases t with
  | tuple i => exact h
  | record i => exact h
  | interface i => exact h
  | leaf | option | list | map | box => trivial

theorem Regular.writable (h : S.Regular t) : S.Writable t := by
  cases t with
  | tuple i => exact h
  | record i => exact h.toWritable
  | interface i => exact h.2
  | leaf | option | list | map | box => trivial

/-- No foreign leaf is reached from the type. -/
def ForeignFree (S : Schema N) (t : Ty N) : Prop :=
  S.Everywhere (fun u => ∀ s, u ≠ .leaf (.foreign s)) t

end Schema

/-! ## Shapes -/

namespace Catalogue

/-- The types that shapes are made of. -/
def shapeTypes : List (Ty names) :=
  [.interface .shape, .record .circle, .record .square, .record .group, .tuple .point,
    .list (.interface .shape), .option string, float64, string, enum color]

/-- What shapes reach is listed: they recur in groups. -/
theorem everywhere_shape {P : Ty names → Prop} (hP : ∀ u ∈ shapeTypes, P u) :
    schema.Everywhere P (.interface .shape) := by
  refine .of_list hP ?_ (by simp [shapeTypes])
  simp [shapeTypes, Schema.parts, schema, interfaceDecl, InterfaceDecl.plain, recordDecl,
    RecordDecl.plain, tupleDecl, TupleDecl.plain, required, optional, Field.valueType, float64,
    string, enum]

theorem shape_foreignFree : schema.ForeignFree (.interface .shape) :=
  everywhere_shape (by simp [shapeTypes, float64, string, enum])

/-- The shapes of the sample schema are declared soundly. -/
theorem shape_sound : schema.Everywhere schema.Sound (.interface .shape) := by
  refine everywhere_shape ?_
  simp only [shapeTypes, List.forall_mem_cons]
  refine ⟨⟨⟨rfl, rfl⟩, by decide⟩, ⟨⟨by decide, rfl⟩, by decide⟩, ⟨⟨by decide, rfl⟩, by decide⟩,
    ⟨⟨by decide, rfl⟩, by decide⟩, ⟨rfl, rfl⟩, trivial, trivial, trivial, trivial, rfl, ?_⟩
  exact List.forall_mem_nil _

end Catalogue

end WireForm
