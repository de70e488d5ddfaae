/-
# Phrasebook.Proofs.Java.Declared -- the names that a source file declares

A source file is well named if a compiler finds nothing to object to in its names: the package and
every declared name are legal, and within one type no two nested types, methods or constructors
clash.  Nested types clash with each other and with the type around them by name; methods, and
likewise constructors, clash if they share the name and the list of parameter types.
-/
import Phrasebook.Java.Node
import Phrasebook.Proofs.Java.Legal

namespace Phrasebook.Java

/-! ## What a tree declares -/

mutual

/-- The names that a node declares: of types, methods, constructors, fields and parameters. -/
def declaredNames : Node → List Text
  | .type head members => head.name :: declaredNamesOf members
  | .method head _ => head.name :: head.params.map Param.name
  | .field f => [f.name]
  | .param p => [p.name]
  | _ => []

/-- The names that the members of a type declare. -/
def declaredNamesOf : List Node → List Text
  | [] => []
  | node :: nodes => declaredNames node ++ declaredNamesOf nodes

end

mutual

/-- The types of a tree, itself and those nested in it, with their members. -/
def declaredTypes : Node → List (TypeHead × List Node)
  | .type head members => (head, members) :: declaredTypesOf members
  | _ => []

/-- The types nested in the members of a type. -/
def declaredTypesOf : List Node → List (TypeHead × List Node)
  | [] => []
  | node :: nodes => declaredTypes node ++ declaredTypesOf nodes

end

/-- The names of the types that are members. -/
def nestedNames (members : List Node) : List Text :=
  members.filterMap fun
    | .type head _ => some head.name
    | _ => none

/-- A name with the types of its parameters. -/
abbrev Signature := Text × List Text

/-- The signature of a method or constructor. -/
def MethodHead.signature (m : MethodHead) : Signature := (m.name, m.params.map Param.type)

/-- The signatures of the methods or, if asked for, of the constructors among members. -/
def signatures (constructors : Bool) (members : List Node) : List Signature :=
  members.filterMap fun
    | .method head _ => if head.isConstructor = constructors then some head.signature else none
    | _ => none

/-! ## Names without clashes -/

/-- The members of a type do not clash. -/
structure DistinctMembers (head : TypeHead) (members : List Node) : Prop where
  nested : (nestedNames members).Nodup
  enclosing : head.name ∉ nestedNames members
  methods : (signatures false members).Nodup
  constructors : (signatures true members).Nodup

/-- All names of a file are legal, and none of its types has members that clash. -/
structure SourceFile.WellNamed (file : SourceFile) : Prop where
  package : LegalPackage file.package
  names : ∀ type, file.type = some type → ∀ n ∈ declaredNames type.toNode, LegalIdentifier n
  distinct : ∀ type, file.type = some type →
    ∀ t ∈ declaredTypes type.toNode, DistinctMembers t.1 t.2

/-! ## Members one after the other -/

theorem declaredNamesOf_append (xs ys : List Node) :
    declaredNamesOf (xs ++ ys) = declaredNamesOf xs ++ declaredNamesOf ys := by
  induction xs with
  | nil => rfl
  | cons x xs ih => rw [List.cons_append, declaredNamesOf, ih, declaredNamesOf, List.append_assoc]

theorem declaredTypesOf_append (xs ys : List Node) :
    declaredTypesOf (xs ++ ys) = declaredTypesOf xs ++ declaredTypesOf ys := by
  induction xs with
  | nil => rfl
  | cons x xs ih => rw [List.cons_append, declaredTypesOf, ih, declaredTypesOf, List.append_assoc]

theorem declaredNamesOf_map {α : Type} (f : α → Node) (xs : List α) :
    declaredNamesOf (xs.map f) = xs.flatMap fun x => declaredNames (f x) := by
  induction xs with
  | nil => rfl
  | cons x xs ih => rw [List.map_cons, declaredNamesOf, ih, List.flatMap_cons]

theorem declaredTypesOf_map {α : Type} (f : α → Node) (xs : List α) :
    declaredTypesOf (xs.map f) = xs.flatMap fun x => declaredTypes (f x) := by
  induction xs with
  | nil => rfl
  | cons x xs ih => rw [List.map_cons, declaredTypesOf, ih, List.flatMap_cons]

theorem nestedNames_append (xs ys : List Node) :
    nestedNames (xs ++ ys) = nestedNames xs ++ nestedNames ys := List.filterMap_append

theorem signatures_append (constructors : Bool) (xs ys : List Node) :
    signatures constructors (xs ++ ys) = signatures constructors xs ++ signatures constructors ys :=
  List.filterMap_append

end Phrasebook.Java
