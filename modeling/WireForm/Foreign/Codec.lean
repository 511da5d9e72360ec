/-
  WireForm — foreign values to documents and back.

  A foreign value follows the rules of its own type: numbers that are not
  finite are written as `null`, floats too large for 32 bits are read as
  infinities, surplus entries of a structure are skipped, and a structure may
  also be written as an array.  A map is written in the order of its keys and
  read in any order.  A union is the name of an alternative, alone or as the only
  key of a mapping.

  * `Foreign.encode`, `Foreign.decode`: the two directions.
-/
import WireForm.Family
import WireForm.Foreign.Error
import WireForm.Foreign.Shape

namespace WireForm

namespace Foreign

/-- The float document of a number, or `null` if it is not finite. -/
def floatOrNull (x : Binary64) : Json :=
  if h : x.isFinite = true then .num (.float x h) else .null

/-- Entries with their keys kept and their values taken further, in order. -/
def mapValues {α β : Type} (f : α → Except Error β) (es : List (String × α)) :
    Except Error (List (String × β)) :=
  es.mapM fun e => Prod.mk e.1 <$> f e.2

/-! ## Encoding -/

mutual

/-- The document of a foreign value. -/
def encode : (s : Shape) → s.Carrier → Except Error Json
  | .bool, b => .ok (.bool b)
  | .text, s => .ok (.str s)
  | .int _, n => .ok (.int n.1 n.2.range)
  | .float32, x => .ok (floatOrNull (x.convert .double))
  | .float64, x => .ok (floatOrNull x)
  | .option _, none => .ok .null
  | .option s, some x => encode s x
  | .list s, xs => .arr <$> xs.mapM (encode s)
  | .map s, m => .obj <$> mapValues (encode s) m.entries
  | .pairs, [] => .ok (.obj [])
  | .pairs, _ :: _ => .error .keyNotText
  | .struct _ fields shape, xs => do
    let ws ← Family.traverse fun i => encode (shape i) (xs i)
    return .obj (List.ofFn fun i => (fields[i], ws i))
  | .union _ alternatives payload, ⟨i, x⟩ => encodeAlternative alternatives[i] (payload i) x

/-- The document of an alternative with what it carries. -/
def encodeAlternative (name : String) : (p : Payload) → p.Carrier → Except Error Json
  | .unit, _ => .ok (.str name)
  | .single s, x => do
    let w ← encode s x
    return .obj [(name, w)]
  | .tuple _ shape, xs => do
    let ws ← Family.traverse fun i => encode (shape i) (xs i)
    return .obj [(name, .arr (List.ofFn ws))]
  | .struct fields shape, xs => do
    let ws ← Family.traverse fun i => encode (shape i) (xs i)
    return .obj [(name, .obj (List.ofFn fun i => (fields[i], ws i)))]

end

/-! ## Decoding -/

/-- A document of another kind than expected. -/
def mismatch {α : Type} (w : Json) (expected : String) : Except Error α :=
  .error (.type (.document w) expected)

/-- How many elements a structure or tuple has, in words. -/
def withElements (what : String) (n : Nat) : String :=
  what ++ " with " ++ toString n ++ (if n = 1 then " element" else " elements")

/-- What a field reads as when its entry is missing: an option is absent. -/
def absent (name : String) : (s : Shape) → Except Error s.Carrier
  | .option _ => .ok none
  | .bool | .text | .int _ | .float32 | .float64 | .list _ | .map _ | .pairs | .struct ..
  | .union .. =>
    .error (.missingField name)

/-- The members of a positional form, each read by its own reader: all of them,
    and no more. -/
def positional {n : Nat} {β : Fin n → Type} (what : String) (xs : List Json)
    (read : ∀ i, Json → Except Error (β i)) : Except Error (∀ i, β i) := do
  let values ← Family.traverse fun i =>
    match xs[i.val]? with
    | some x => read i x
    | none => .error (.length i (withElements what n))
  if n < xs.length then .error (.length xs.length "fewer elements in array") else .ok values

/-- Read the entries of a mapping in the order of the document, for their
    failures alone; an entry that names no member is skipped. -/
def readEntries {fields : List String} {β : Fin fields.length → Type}
    (read : ∀ i, Json → Except Error (β i)) : Mapping → Except Error Unit
  | [] => .ok ()
  | (key, v) :: m =>
    match fields.findFinIdx? (· = key) with
    | some i => do
      let _ ← read i v
      readEntries read m
    | none => readEntries read m

/-- The members of a mapping by name.  A bad entry is reported before a missing
    one, and missing members in the order of declaration. -/
def named {fields : List String} {β : Fin fields.length → Type} (m : Mapping)
    (read : ∀ i, Json → Except Error (β i)) (missing : ∀ i, Except Error (β i)) :
    Except Error (∀ i, β i) := do
  readEntries read m
  Family.traverse fun i =>
    match m.get? fields[i] with
    | some v => read i v
    | none => missing i

mutual

/-- The foreign value of a document. -/
def decode : (s : Shape) → Json → Except Error s.Carrier
  | .bool, w =>
    match w with
    | .bool b => .ok b
    | w => mismatch w "a boolean"
  | .text, w =>
    match w with
    | .str s => .ok s
    | w => mismatch w "a string"
  | .int k, w =>
    match w with
    | .num (.int n _) =>
      if h : k.Contains n then .ok ⟨n, h⟩ else .error (.value (.document w) k.name)
    | w => mismatch w k.name
  | .float32, w =>
    match w with
    | .num (.int n _) => .ok (Binary.ofInt n)
    | .num (.float x _) => .ok (x.convert .single)
    | w => mismatch w "f32"
  | .float64, w =>
    match w with
    | .num n => .ok n.toFloat
    | w => mismatch w "f64"
  | .option s, w =>
    match w with
    | .null => .ok none
    | w => some <$> decode s w
  | .list s, w =>
    match w with
    | .arr xs => xs.mapM (decode s)
    | w => mismatch w "a sequence"
  | .map s, w =>
    match w with
    | .obj m => .ofEntries <$> mapValues (decode s) m
    | w => mismatch w "a map"
  | .pairs, w =>
    match w with
    | .obj [] => .ok []
    | .obj ((key, _) :: _) => .error (.type (.text key) "a tuple of size 2")
    | w => mismatch w "a map"
  | .struct name fields shape, w =>
    match w with
    | .arr xs => positional ("struct " ++ name) xs fun i => decode (shape i)
    | .obj m => named m (fun i => decode (shape i)) fun i => absent fields[i] (shape i)
    | w => mismatch w ("struct " ++ name)
  | .union name alternatives payload, w =>
    match w with
    | .str tag =>
      match alternatives.findFinIdx? (· = tag) with
      | some i => Sigma.mk i <$> decodeBare (payload i)
      | none => .error (.unknownVariant tag alternatives)
    | .obj [(tag, v)] =>
      match alternatives.findFinIdx? (· = tag) with
      | some i => Sigma.mk i <$> decodeAlternative (name ++ "::" ++ tag) (payload i) v
      | none => .error (.unknownVariant tag alternatives)
    | .obj _ => .error (.value (.document w) "map with a single key")
    | w => mismatch w "string or map"

/-- An alternative named alone carries nothing. -/
def decodeBare : (p : Payload) → Except Error p.Carrier
  | .unit => .ok ()
  | .single _ => .error (.type .bareName "newtype variant")
  | .tuple _ _ => .error (.type .bareName "tuple variant")
  | .struct _ _ => .error (.type .bareName "struct variant")

/-- What an alternative carries. -/
def decodeAlternative (name : String) : (p : Payload) → Json → Except Error p.Carrier
  | .unit, w =>
    match w with
    | .null => .ok ()
    | w => mismatch w "unit"
  | .single s, w => decode s w
  | .tuple _ shape, w =>
    match w with
    | .arr [] => mismatch .null ("tuple variant " ++ name)
    | .arr xs => positional ("tuple variant " ++ name) xs fun i => decode (shape i)
    | w => mismatch w "tuple variant"
  | .struct fields shape, w =>
    match w with
    | .obj m => named m (fun i => decode (shape i)) fun i => absent fields[i] (shape i)
    | w => mismatch w "struct variant"

end

end Foreign

end WireForm
