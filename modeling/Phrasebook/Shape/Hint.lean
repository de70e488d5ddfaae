/-
# Phrasebook.Shape.Hint -- types as they are written

The type of a field is written as a hint, and the shape is what the hint means for data.
There are two ways to write a choice: as a union, which tries its alternatives, and with bars between
classes, which lets everything pass.  Either way nested choices are spliced, repeated alternatives are
dropped, and a choice of one is that one; a bar beside anything but a class makes a union.

A whole value is compared with a class: a record or a model decodes it, and any other class only says
whether the value belongs to it.  A choice asks its alternatives for that.  Hints with
parameters are no classes and cannot be asked.
-/
import Phrasebook.Shape.Decode

namespace Phrasebook

/-- A type as it is written.  A `family` is a type of collections whose parameters are left out, and
`parametrised` stands for the types that have parameters. -/
inductive Hint where
  | any
  | primitive (p : Primitive)
  | bare (b : Bare)
  | family (b : Bare)
  | parametrised (s : Shape)
  | literal
  | declared (fullName : Text) (s : Shape)
  | union (alternatives : List Hint)
  | bar (alternatives : List Hint)

instance : Inhabited Hint := ⟨.any⟩

namespace Hint

/-! ## Choices -/

/-- Whether two alternatives of a choice are the same. -/
def same : Hint → Hint → Bool
  | any, any => true
  | primitive p, primitive q => p = q
  | bare b, bare c => b = c
  | family b, family c => b = c
  | parametrised s, parametrised t => s.same t
  | literal, literal => true
  | declared _ s, declared _ t => s.same t
  | _, _ => false

/-- Whether a hint is something else than a class or a choice with bars. -/
def isGeneric : Hint → Bool
  | family _ | parametrised _ | literal | union _ => true
  | _ => false

/-- The alternatives a hint offers. -/
def alternatives : Hint → List Hint
  | union as => as
  | bar as => as
  | a => [a]

/-- The different alternatives of some hints, in order. -/
def distinct (as : List Hint) : List Hint :=
  (as.flatMap alternatives).foldl (fun acc a => if acc.any (same a) then acc else acc ++ [a]) []

/-- A choice that is written as a union. -/
def unionOf (as : List Hint) : Hint :=
  match distinct as with
  | [a] => a
  | as => .union as

/-- A hint or null. -/
def optional (a : Hint) : Hint := unionOf [a, .bare .null]

/-- Two hints with a bar between them. -/
def either (a b : Hint) : Hint :=
  if a.isGeneric || b.isGeneric then unionOf [a, b]
  else match distinct [a, b] with
    | [a] => a
    | as => .bar as

/-! ## Meaning -/

mutual

/-- The shape that a hint means. -/
def shape : Hint → Shape
  | any => .any
  | primitive p => .primitive p
  | bare b => .bare b
  | family .null => .null
  | family .list => .listOf .any
  | family .tuple => .tupleOf .any
  | family .map => .mapOf .any .any
  | parametrised s => s
  | literal => .unchecked
  | declared _ s => s
  | union as => .oneOf (shapes as)
  | bar _ => .unchecked

/-- The shapes that hints mean. -/
def shapes : List Hint → List Shape
  | [] => []
  | a :: as => shape a :: shapes as

end

/-! ## Whole values -/

/-- Why a hint cannot be asked whether a value belongs to it. -/
inductive Unaskable where
  | any
  | generic
deriving DecidableEq, Repr

/-- The reason in words. -/
def Unaskable.message : Unaskable → Text
  | .any => "typing.Any cannot be used with isinstance()"
  | .generic => "Subscripted generics cannot be used with class and instance checks"

/-- Why a whole value is refused. -/
inductive WholeFault where
  | mismatch (fault : DecodeFault)
  | unaskable (reason : Unaskable)
deriving DecidableEq, Repr

/-- The name of a class among alternatives with bars. -/
def nameInBar : Hint → Text
  | any => "typing.Any"
  | primitive p => p.name
  | bare .null => "None"
  | bare b => b.name
  | declared fullName _ => fullName
  | _ => []

/-- The name of a hint in messages about whole values. -/
def name : Hint → Text
  | family .list => "List"
  | family .tuple => "Tuple"
  | family .map => "Dict"
  | bare b => b.name
  | union as => if as.length = 2 && as.any (same (.bare .null)) then "Optional" else "Union"
  | bar as => Text.join " | " (as.map nameInBar)
  | a => a.nameInBar

/-- Whether a value passes as one of a primitive type; a truth value passes as an integer, as the
check is by class alone. -/
def includes (p : Primitive) (v : Value) : Bool :=
  p.accepts v || (p = .int && Primitive.bool.accepts v)

/-- Whether a value belongs to a class.  Data never belongs to a record or a model. -/
def contains (a : Hint) (v : Value) : Except Unaskable Bool :=
  match a with
  | primitive p => .ok (includes p v)
  | bare b | family b => .ok (b.accepts v)
  | any => .error .any
  | parametrised _ | literal => .error .generic
  | declared _ _ | union _ | bar _ => .ok false

/-- Whether a value belongs to the first alternative that accepts it. -/
def containsAny : List Hint → Value → Except Unaskable Bool
  | [], _ => .ok false
  | a :: as, v => do if ← a.contains v then return true else containsAny as v

/-- The alternatives of a union that are asked, which does not hold of anything. -/
def asked (as : List Hint) : List Hint := as.filter fun a => !a.same .any

/-- Decodes a whole value as what a hint means. -/
def decodeWhole (a : Hint) (v : Value) : Except WholeFault Value :=
  match a with
  | declared _ s => (s.decode [] v).mapError .mismatch
  | a =>
    let answer := match a with
      | union as => containsAny (asked as) v
      | bar as => containsAny as v
      | a => a.contains v
    match answer with
    | .ok true => .ok v
    | .ok false => .error (.mismatch ⟨[], .notOfClass v.typeName a.name⟩)
    | .error reason => .error (.unaskable reason)

end Hint

end Phrasebook
