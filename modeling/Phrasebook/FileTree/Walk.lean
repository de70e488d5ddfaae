/-
# Phrasebook.FileTree.Walk -- where a path leads

A path is walked part by part from a directory.  `..` leads to the directory above, whatever way the
walk came by.  A symbolic link on the way is replaced by its destination; the link at the end is
followed only if the operation follows links.  A walk passes through forty links at most, so that it
always ends.

A walk ends at an entry or, if only the last part is missing, at a vacancy in a directory.  A slash
after the last part asks for a directory there, which a file about to be written cannot be.
-/
import Phrasebook.FileTree
import Phrasebook.FileTree.Error
import Phrasebook.Text.Encoding

namespace Phrasebook

/-- Where a walk ends. -/
inductive Arrival where
  | present (place : Place) (entry : Entry)
  | vacant (directory : Place) (name : Text)
deriving Inhabited

/-- What a walk is for: the entry at the end of the path itself, what that leads to, or a file to be
written there. -/
inductive Purpose where
  | entry
  | target
  | writing
deriving DecidableEq, Repr

/-- The number of links a walk may pass through. -/
def linkLimit : Nat := 40

/-- The greatest number of bytes of one part of a path. -/
def partLimit : Nat := 255

/-- The number of bytes from which on a path is too long. -/
def pathLimit : Nat := 4096

/-- The parts of a link's destination.  A slash at its end becomes an empty part. -/
def destinationParts (destination : Text) : List Text :=
  (Text.split Path.slash destination).filter (fun piece => !piece.isEmpty) ++
    if destination.getLast? = some Path.slash then [[]] else []

namespace FileTree

/-- Walks along parts from a directory; `onward` goes on from where a link leads. -/
def walkWith (tree : FileTree) (purpose : Purpose)
    (onward : Place → List Text → Except FileError Arrival) (directory : Place)
    (parts : List Text) : Except FileError Arrival :=
  match parts with
  | [] => .ok (.present directory .directory)
  | part :: rest =>
    if part.isEmpty || part = Path.here then tree.walkWith purpose onward directory rest
    else if part = Path.up then tree.walkWith purpose onward directory.dropLast rest
    else if purpose = .writing && rest = [[]] then .error .isDirectory
    else if partLimit < part.byteLength then .error .nameTooLong
    else
      let place := directory ++ [part]
      match tree.at? place with
      | none => if rest.isEmpty then .ok (.vacant directory part) else .error .notFound
      | some .directory => tree.walkWith purpose onward place rest
      | some (.file content) =>
        if rest.isEmpty then .ok (.present place (.file content)) else .error .notDirectory
      | some (.link destination) =>
        if rest.isEmpty && purpose = .entry then .ok (.present place (.link destination))
        else
          let start := if destination.head? = some Path.slash then [] else directory
          onward start (destinationParts destination ++ rest)

/-- Walks along parts from a directory, passing through a number of links at most. -/
def walk (tree : FileTree) (purpose : Purpose) : Nat → Place → List Text → Except FileError Arrival
  | 0 => tree.walkWith purpose fun _ _ => .error .tooManyLinks
  | links + 1 => tree.walkWith purpose (tree.walk purpose links)

end FileTree

/-! ## Paths as they are handed to the system -/

/-- A lone surrogate that stands for a byte of a file name which is no text. -/
def isByteSurrogate : CodePoint → Bool
  | .scalar _ => false
  | .surrogate u => 0x480 ≤ u.val && u.val < 0x500

/-- Why a path cannot be handed to the system, or is refused by it for its length. -/
def pathError? (path : Text) : Option FileError :=
  if path.any fun c => c.toChar?.isNone && !isByteSurrogate c then some .surrogateInPath
  else if path.contains (.scalar '\x00') then some .zeroInPath
  else if pathLimit ≤ path.byteLength then some .nameTooLong
  else none

namespace FileTree

/-- Where a path leads that is taken from a working directory. -/
def arrive (tree : FileTree) (purpose : Purpose) (directory : Place) (path : Path) :
    Except FileError Arrival :=
  match pathError? path.text with
  | some e => .error e
  | none => tree.walk purpose linkLimit (if path.isAbsolute then [] else directory) path.parts

end FileTree

end Phrasebook
