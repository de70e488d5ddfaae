/-
# Phrasebook.Host -- what surrounds a file tree

A file tree allows what its entries allow.  The host on which it stands may refuse more: to read a file,
to change a directory, to write when its disk is full.  A `Host` says what is refused and with which
error.  It also reads documents and owns standard output.

What is refused depends on what stands where, so that no error comes and goes by itself.  Every
directory can be searched: what a path leads to is never refused.  Standard output takes every text that
has a form in bytes.
-/
import Phrasebook.FileTree.Edit
import Phrasebook.Text.Encoding
import Phrasebook.Yaml

namespace Phrasebook

/-! ## Changes -/

/-- The changes of a file tree that commands make. -/
inductive Change where
  | makeDirectory (path : Path)
  | write (path : Path) (content : ByteArray)
  | rename (source target : Path)
  | remove (path : Path)

/-- Makes a change, as far as the entries of the tree allow it. -/
def Change.apply (c : Change) (tree : FileTree) (directory : Place) : Except FileError FileTree :=
  match c with
  | .makeDirectory path => tree.makeDirectory directory path
  | .write path content => tree.write directory path content
  | .rename source target => tree.rename directory source target
  | .remove path => tree.remove directory path

/-! ## Refusals -/

/-- Why something is refused: the number of an error and its words. -/
structure Refusal where
  number : Nat
  words : Text
  /-- What a file holds if writing it is broken off; without it the file has not been opened. -/
  written : Option ByteArray := none

namespace Refusal

/-- The error of a refusal. -/
def error (r : Refusal) : FileError := .other r.number r.words

/-- The tree that a refused change leaves.  Only writing can have begun. -/
def leaves (r : Refusal) (c : Change) (tree : FileTree) (directory : Place) : FileTree :=
  match c, r.written with
  | .write path _, some content =>
    match tree.write directory path content with
    | .ok tree => tree
    | .error _ => tree
  | _, _ => tree

end Refusal

/-! ## Hosts -/

/-- What surrounds a file tree. -/
structure Host where
  /-- Whether the file at a place must not be read. -/
  unreadable : Place → Option Refusal
  /-- Whether a change of a tree is refused. -/
  refuses : FileTree → Change → Option Refusal
  /-- The value of the document that a text holds. -/
  load : Text → Except Yaml.Fault Value
  /-- Whether standard output takes a text. -/
  takes : Text → Bool
  /-- What may be moved away may be removed, then and later: both change its directory. -/
  removes : ∀ {tree source target}, refuses tree (.rename source target) = none →
    ∀ tree, refuses tree (.remove source) = none
  takes_encoded : ∀ {text}, text.encode?.isSome = true → takes text = true

namespace Host

/-- The host that refuses nothing, and prints the texts that have a form in bytes. -/
def standard : Host where
  unreadable _ := none
  refuses _ _ := none
  load := Yaml.load
  takes text := text.encode?.isSome
  removes _ _ := rfl
  takes_encoded h := h

/-- Reads the file at a place. -/
def readAt (host : Host) (place : Place) (content : ByteArray) : Except FileError ByteArray :=
  match host.unreadable place with
  | some refusal => .error refusal.error
  | none => .ok content

/-- The content of the file that a path leads to. -/
def read (host : Host) (tree : FileTree) (directory : Place) (path : Path) :
    Except FileError ByteArray :=
  match tree.arrive .target directory path with
  | .ok (.present place (.file content)) => host.readAt place content
  | _ => tree.read directory path

end Host

end Phrasebook
