/-
# Phrasebook.Shape.Decode -- from data to typed values

`decode` compares a value with a shape at a path and gives the typed value, or the first fault with
the path at which it was found.  Nothing is converted: a truth value is no integer and an integer no
real number.  Lists of tuples' shape become tuples, and mappings of a record's shape become records
with their defaults filled in.

The order of evaluation is fixed.  A record first refuses unknown keys and then looks at its fields
in the order of their declaration; a list goes by position and a mapping by entry, the key before the
value.  A choice takes the first alternative that accepts and otherwise fails like the last one.

The keys that a message or a path has to name are written out.  A key that cannot be written ends
the decoding at once, also inside a choice: no other alternative is tried after that.
-/
import Phrasebook.Shape

namespace Phrasebook

/-! ## Faults -/

/-- What is wrong with a value. -/
inductive Mismatch where
  | expected (what : Text) (found : Text)
  | notOfClass (found : Text) (name : Text)
  | unknownKeys (names : List Text)
  | unwritableKeys
  | missingField
  | invalidModel (name : Text) (faults : List ModelFault)
  | noAlternative
deriving DecidableEq, Repr

/-- A mismatch in words. -/
def Mismatch.message : Mismatch → Text
  | .expected what found => "expected " ++ what ++ ", got " ++ found
  | .notOfClass found name => "cannot coerce " ++ found ++ " → " ++ name
  | .unknownKeys names => "unknown key(s): " ++ Text.join ", " names
  | .unwritableKeys => "unknown key(s)"
  | .missingField => "required field missing"
  | .invalidModel name faults =>
    Text.ofNat faults.length ++ " validation error(s) for " ++ name
  | .noAlternative => "union alternatives exhausted"

/-- A mismatch and the path at which it was found. -/
structure DecodeFault where
  path : List Text
  mismatch : Mismatch
deriving DecidableEq, Repr

/-- A fault in words, after its path if that is not empty. -/
def DecodeFault.message (f : DecodeFault) : Text :=
  if f.path.isEmpty then f.mismatch.message
  else Text.join "." f.path ++ ": " ++ f.mismatch.message

/-- The outcome of decoding. -/
abbrev Decoded (α : Type) := Except DecodeFault α

/-- A fault at a path. -/
def mismatch {α : Type} (path : List Text) (m : Mismatch) : Decoded α := .error ⟨path, m⟩

/-- The step of a path that stands for a key of a mapping. -/
def keyStep : Text := "<key>"

/-- The step of a path that stands for the value at a key. -/
def valueStep (path : List Text) (key : Value) : Decoded Text :=
  if key.isWritable then .ok key.display else mismatch path .unwritableKeys

/-! ## Decoding -/

/-- Decodes the items of a list from a position on. -/
def decodeEach {α β : Type} (f : Nat → α → Decoded β) : Nat → List α → Decoded (List β)
  | _, [] => .ok []
  | i, a :: as => do
    let b ← f i a
    let bs ← decodeEach f (i + 1) as
    return b :: bs

/-- The keys of a mapping that no field has. -/
def unknownKeys (fields : List FieldShape) (entries : List (Value × Value)) : List Value :=
  let isKnown (key : Value) : Bool := fields.any fun f => key.sameKey (.text f.name)
  (entries.filter fun entry => !isKnown entry.1).map Prod.fst

/-- Unknown keys as a mismatch, which names them in ascending order. -/
def Mismatch.ofUnknown (keys : List Value) : Mismatch :=
  if keys.all Value.isWritable then .unknownKeys (Text.sort (keys.map Value.display))
  else .unwritableKeys

mutual

/-- Decodes a value as a shape, a path saying where the value is. -/
def Shape.decode : Shape → List Text → Value → Decoded Value
  | .any, _, v => .ok v
  | .unchecked, _, v => .ok v
  | .primitive p, path, v =>
    if p.accepts v then .ok v else mismatch path (.expected p.name v.typeName)
  | .bare b, path, v =>
    if b.accepts v then .ok v else mismatch path (.notOfClass v.typeName b.name)
  | .listOf item, path, v =>
    match v with
    | .list items => do
      let items ← decodeEach (fun i v => item.decode (path ++ [Text.ofNat i]) v) 0 items
      return .list items
    | _ => mismatch path (.expected "list" v.typeName)
  | .tupleOf item, path, v =>
    match v with
    | .list items | .tuple items => do
      let items ← decodeEach (fun i v => item.decode (path ++ [Text.ofNat i]) v) 0 items
      return .tuple items
    | _ => mismatch path (.expected "list" v.typeName)
  | .mapOf key value, path, v =>
    match v with
    | .map entries => do
      let entries ← decodeEach (fun _ (k, w) => do
        let k' ← key.decode (path ++ [keyStep]) k
        let step ← valueStep path k
        let w' ← value.decode (path ++ [step]) w
        return (k', w')) 0 entries
      return .map entries
    | _ => mismatch path (.expected "mapping" v.typeName)
  | .oneOf shapes, path, v =>
    match v with
    | .null =>
      if shapes.any Shape.isNull then .ok .null
      else decodeFirst shapes path .null ⟨path, .noAlternative⟩
    | v => decodeFirst shapes path v ⟨path, .noAlternative⟩
  | .record _ name fields, path, v =>
    match v with
    | .map entries =>
      let unknown := unknownKeys fields entries
      if unknown.isEmpty then do
        let fields ← decodeFields fields path entries
        return .record name fields
      else mismatch path (.ofUnknown unknown)
    | _ => mismatch path (.expected "mapping" v.typeName)
  | .model m, path, v =>
    match v with
    | .map entries => (m.read entries).mapError fun faults => ⟨path, .invalidModel m.name faults⟩
    | _ => mismatch path (.expected ("mapping for " ++ m.name) v.typeName)

/-- Decodes a value as the first shape but null that accepts it; a fault is given for the case that
none is left. -/
def decodeFirst : List Shape → List Text → Value → DecodeFault → Decoded Value
  | [], _, _, fault => .error fault
  | s :: ss, path, v, fault =>
    if s.isNull then decodeFirst ss path v fault
    else match s.decode path v with
      | .ok w => .ok w
      | .error fault =>
        if fault.mismatch = .unwritableKeys then .error fault else decodeFirst ss path v fault

/-- Decodes the fields of a record from the entries of a mapping. -/
def decodeFields : List FieldShape → List Text → List (Value × Value) →
    Decoded (List (Text × Value))
  | [], _, _ => .ok []
  | ⟨name, shape, default⟩ :: fields, path, entries => do
    let value ← match Value.atText entries name with
      | some v => shape.decode (path ++ [name]) v
      | none => match default with
        | some v => .ok v
        | none => mismatch (path ++ [name]) .missingField
    let rest ← decodeFields fields path entries
    return (name, value) :: rest

end

/-! ## The records that decoding builds -/

/-- A record that has been built, and the path at which it was. -/
abbrev Built := Text × List Text

/-- What is built on the way through a list, up to the first item that is not accepted. -/
def builtEach {α : Type} (built : Nat → α → List Built) (accepts : Nat → α → Bool) :
    Nat → List α → List Built
  | _, [] => []
  | i, a :: as =>
    built i a ++ if accepts i a then builtEach built accepts (i + 1) as else []

mutual

/-- The records built while a value is decoded, in order; what was built stays built when the
decoding fails later on. -/
def Shape.built : Shape → List Text → Value → List Built
  | .listOf item, path, v =>
    match v with
    | .list items =>
      builtEach (fun i v => item.built (path ++ [Text.ofNat i]) v)
        (fun i v => (item.decode (path ++ [Text.ofNat i]) v).isOk) 0 items
    | _ => []
  | .tupleOf item, path, v =>
    match v with
    | .list items | .tuple items =>
      builtEach (fun i v => item.built (path ++ [Text.ofNat i]) v)
        (fun i v => (item.decode (path ++ [Text.ofNat i]) v).isOk) 0 items
    | _ => []
  | .mapOf key value, path, v =>
    match v with
    | .map entries =>
      builtEach
        (fun _ (k, w) =>
          key.built (path ++ [keyStep]) k ++
            if (key.decode (path ++ [keyStep]) k).isOk && k.isWritable then
              value.built (path ++ [k.display]) w
            else [])
        (fun _ (k, w) =>
          (key.decode (path ++ [keyStep]) k).isOk && k.isWritable &&
            (value.decode (path ++ [k.display]) w).isOk)
        0 entries
    | _ => []
  | .oneOf shapes, path, v =>
    match v with
    | .null => if shapes.any Shape.isNull then [] else builtFirst shapes path .null
    | v => builtFirst shapes path v
  | .record _ name fields, path, v =>
    match v with
    | .map entries =>
      if (unknownKeys fields entries).isEmpty then
        builtFields fields path entries ++
          if (decodeFields fields path entries).isOk then [(name, path)] else []
      else []
    | _ => []
  | _, _, _ => []

/-- The records built while the alternatives of a choice are tried. -/
def builtFirst : List Shape → List Text → Value → List Built
  | [], _, _ => []
  | s :: ss, path, v =>
    if s.isNull then builtFirst ss path v
    else s.built path v ++ match s.decode path v with
      | .ok _ => []
      | .error fault => if fault.mismatch = .unwritableKeys then [] else builtFirst ss path v

/-- The records built while the fields of a record are decoded. -/
def builtFields : List FieldShape → List Text → List (Value × Value) → List Built
  | [], _, _ => []
  | ⟨name, shape, default⟩ :: fields, path, entries =>
    match Value.atText entries name with
    | some v =>
      shape.built (path ++ [name]) v ++
        if (shape.decode (path ++ [name]) v).isOk then builtFields fields path entries else []
    | none => if default.isSome then builtFields fields path entries else []

end

end Phrasebook
