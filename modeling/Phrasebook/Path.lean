/-
# Phrasebook.Path -- paths in normal form

A path is an anchor and a list of parts.  Repeated slashes and the parts `.` are gone, while `..` is
kept, since without the file tree nobody knows where it leads.  Two slashes at the beginning are an
anchor of their own; three or more count as one.

`Path.ofText` reads a path and `Path.text` writes one; the path without any part is written `.`.
-/
import Phrasebook.Text

namespace Phrasebook

/-- Where a path starts. -/
inductive Anchor where
  | relative
  | root
  | doubleRoot
deriving DecidableEq, Repr, Inhabited

/-- The slashes of an anchor. -/
def Anchor.text : Anchor → Text
  | .relative => []
  | .root => "/"
  | .doubleRoot => "//"

/-- A path in normal form. -/
structure Path where
  anchor : Anchor := .relative
  parts : List Text := []
deriving DecidableEq, Repr, Inhabited

namespace Path

/-- The slash between the parts of a path. -/
def slash : CodePoint := .scalar '/'

/-- The part that stands for the directory itself. -/
def here : Text := "."

/-- The part that stands for the directory above. -/
def up : Text := ".."

/-- The anchor of a path that is written in a given way. -/
def anchorOf (t : Text) : Anchor :=
  match (t.takeWhile (· = slash)).length with
  | 0 => .relative
  | 2 => .doubleRoot
  | _ => .root

/-- Whether a piece between slashes is a part of the path. -/
def isPart (piece : Text) : Bool := !piece.isEmpty && piece ≠ here

/-- Reads a path. -/
def ofText (t : Text) : Path where
  anchor := anchorOf t
  parts := (Text.split slash t).filter isPart

/-- Writes a path. -/
def text (p : Path) : Text :=
  match p.anchor, p.parts with
  | .relative, [] => here
  | anchor, parts => anchor.text ++ Text.join [slash] parts

/-- Whether a path has an anchor. -/
def isAbsolute (p : Path) : Bool := p.anchor ≠ .relative

/-- A path taken from another one; an absolute path stands for itself. -/
def append (p q : Path) : Path :=
  if q.isAbsolute then q else { p with parts := p.parts ++ q.parts }

instance : Append Path := ⟨append⟩

/-- A part below a path. -/
def child (p : Path) (name : Text) : Path := { p with parts := p.parts ++ [name] }

/-- The path without its last part. -/
def parent (p : Path) : Path := { p with parts := p.parts.dropLast }

/-- The last part. -/
def fileName (p : Path) : Text := p.parts.getLast?.getD []

/-- The path of a sibling. -/
def sibling (p : Path) (name : Text) : Path := p.parent.child name

@[simp] theorem parent_child (p : Path) (name : Text) : (p.child name).parent = p := by
  simp [parent, child]

@[simp] theorem sibling_child (p : Path) (name other : Text) :
    (p.child name).sibling other = p.child other := by
  simp [sibling]

@[simp] theorem fileName_child (p : Path) (name : Text) : (p.child name).fileName = name := by
  simp [fileName, child]

end Path

end Phrasebook
