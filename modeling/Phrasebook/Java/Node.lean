/-
# Phrasebook.Java.Node -- the declaration tree of a generated source file

A source file holds a package, an optional header comment, imports and at most one type; types hold
fields, methods and further types; methods hold statements and comments.  Nothing here says how a
tree is laid out.

The slots for members and for body items hold arbitrary nodes, `Node.absent` being the empty slot.
Which nodes a slot supports is decided when the tree is printed (`Phrasebook.Java.Printer`), and a
tree built by `Phrasebook.Emission` has only supported ones.
-/
import Phrasebook.Java.Modifier

namespace Phrasebook.Java

/-- A formal parameter. -/
structure Param where
  type : Text
  name : Text
deriving DecidableEq, Repr

/-- A field declaration. -/
structure Field where
  type : Text
  name : Text
  modifiers : List Modifier := []
deriving DecidableEq, Repr

/-- A method declaration without its body.  A constructor has no return type. -/
structure MethodHead where
  name : Text
  returnType : Option Text := none
  modifiers : List Modifier := []
  params : List Param := []
  javadoc : Option Text := none
deriving DecidableEq, Repr

/-- A method without a return type is a constructor of the enclosing type. -/
def MethodHead.isConstructor (m : MethodHead) : Bool := m.returnType.isNone

/-- A type declaration without its members. -/
structure TypeHead where
  name : Text
  kind : Text := "class"
  modifiers : List Modifier := []
  base : Option Text := none
deriving DecidableEq, Repr

/-- What a source file holds beside its type. -/
structure FileHead where
  package : Text
  header : Option Text := none
  imports : List Text := []
deriving DecidableEq, Repr

/-- Any node of a declaration tree, or the empty slot. -/
inductive Node where
  | absent
  | javadoc (text : Text)
  | comment (text : Text)
  | statement (code : Text)
  | param (p : Param)
  | field (f : Field)
  | method (head : MethodHead) (body : List Node)
  | type (head : TypeHead) (members : List Node)
  | file (head : FileHead) (type : Node)
deriving Inhabited, Repr

namespace Node

/-- The name of a node's sort in messages. -/
def sort : Node → Text
  | absent => "NoneType"
  | javadoc _ => "Javadoc"
  | comment _ => "LineComment"
  | statement _ => "Statement"
  | param _ => "Param"
  | field _ => "FieldDecl"
  | method _ _ => "MethodDecl"
  | type _ _ => "TypeDecl"
  | file _ _ => "JavaFile"

/-- Whether a node is a field declaration. -/
def isField : Node → Bool
  | field _ => true
  | _ => false

end Node

/-- A type declaration with its members in order. -/
structure TypeDecl extends TypeHead where
  members : List Node := []

/-- The node of a type declaration. -/
def TypeDecl.toNode (t : TypeDecl) : Node := .type t.toTypeHead t.members

/-- A source file with at most one type. -/
structure SourceFile extends FileHead where
  type : Option TypeDecl := none

end Phrasebook.Java
