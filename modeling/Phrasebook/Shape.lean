/-
# Phrasebook.Shape -- the types that data is compared with

A shape says which values are accepted and what is made of them: primitives, lists, tuples and
mappings of shapes, a choice between shapes, records with named fields, and models.  A choice that
offers null accepts it directly.

`Shape.oneOf` keeps its alternatives as they are given.  `Shape.choice` is how a choice is formed:
nested choices are spliced, repeated alternatives are dropped, and a choice of one is that one.
Records of one name may be different types, which a number tells apart.

A record is plain: it is made of the values of its fields and of nothing else.  Dataclasses that leave
fields out of their initializer (`init=False`) or act after it (`__post_init__`) are outside the model,
and so are recursive ones: a shape is a finite tree.
-/
import Phrasebook.Shape.Model

namespace Phrasebook

/-- The types of scalars that are accepted as they are. -/
inductive Primitive where
  | text
  | int
  | real
  | bool
deriving DecidableEq, Repr

/-- The name of a primitive type in messages. -/
def Primitive.name : Primitive → Text
  | .text => "str"
  | .int => "int"
  | .real => "float"
  | .bool => "bool"

/-- Whether a value has a primitive type; a truth value is no integer. -/
def Primitive.accepts : Primitive → Value → Bool
  | .text, .text _ => true
  | .int, .int _ => true
  | .real, .real _ => true
  | .bool, .bool _ => true
  | _, _ => false

/-- The types that are recognised without a look at what is inside. -/
inductive Bare where
  | null
  | list
  | tuple
  | map
deriving DecidableEq, Repr

/-- The name of such a type in messages. -/
def Bare.name : Bare → Text
  | .null => "NoneType"
  | .list => "list"
  | .tuple => "tuple"
  | .map => "dict"

/-- Whether a value has such a type. -/
def Bare.accepts : Bare → Value → Bool
  | .null, .null => true
  | .list, .list _ => true
  | .tuple, .tuple _ => true
  | .map, .map _ => true
  | _, _ => false

mutual

/-- A type that values are decoded to. -/
inductive Shape where
  | any
  | primitive (p : Primitive)
  | bare (b : Bare)
  | listOf (item : Shape)
  | tupleOf (item : Shape)
  | mapOf (key value : Shape)
  | oneOf (alternatives : List Shape)
  | record (number : Nat) (name : Text) (fields : List FieldShape)
  | model (m : Model)
  | unchecked

/-- A field of a record; without a default it is required. -/
structure FieldShape where
  name : Text
  shape : Shape
  default : Option Value := none

end

instance : Inhabited Shape := ⟨.any⟩

namespace Shape

/-- The shape of null alone. -/
def null : Shape := .bare .null

/-- Whether a shape is null alone. -/
def isNull : Shape → Bool
  | .bare .null => true
  | _ => false

mutual

/-- Whether two shapes are the same.  Records and models are compared by name, and choices without
regard to order. -/
def same : Shape → Shape → Bool
  | any, any => true
  | primitive p, primitive q => p = q
  | bare b, bare c => b = c
  | listOf s, listOf t => same s t
  | tupleOf s, tupleOf t => same s t
  | mapOf k v, mapOf k' v' => same k k' && same v v'
  | oneOf ss, oneOf ts => ss.length = ts.length && allIn ss ts
  | record number name _, record number' name' _ => number = number' && name = name'
  | model m, model m' => m.name = m'.name
  | unchecked, unchecked => true
  | _, _ => false

/-- Whether all shapes of a list are the same as one of another. -/
def allIn : List Shape → List Shape → Bool
  | [], _ => true
  | s :: ss, ts => ts.any (same s) && allIn ss ts

end

/-- The alternatives a shape offers. -/
def alternatives : Shape → List Shape
  | oneOf ss => ss
  | s => [s]

/-- A choice between shapes. -/
def choice (shapes : List Shape) : Shape :=
  let flat := shapes.flatMap alternatives
  let distinct := flat.foldl (fun acc s => if acc.any (same s) then acc else acc ++ [s]) []
  match distinct with
  | [s] => s
  | ss => .oneOf ss

/-- A shape or null. -/
def optional (s : Shape) : Shape := choice [s, null]

end Shape

end Phrasebook
