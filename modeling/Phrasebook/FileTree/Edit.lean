/-
# Phrasebook.FileTree.Edit -- reading and changing a file tree by paths

Reading a file and writing one follow links to the end, so that a file is written through a link and
even through a link that leads nowhere yet.  Making a directory, moving and removing act on the last
part of the path itself.

All paths are taken from a working directory.
-/
import Phrasebook.FileTree.Walk

namespace Phrasebook

namespace FileTree

/-- What a path leads to in the end. -/
def status (tree : FileTree) (directory : Place) (path : Path) : Except FileError Entry := do
  match ← tree.arrive .target directory path with
  | .present _ entry => return entry
  | .vacant _ _ => throw .notFound

/-- The content of a file. -/
def read (tree : FileTree) (directory : Place) (path : Path) : Except FileError ByteArray := do
  match ← tree.status directory path with
  | .file content => return content
  | _ => throw .isDirectory

/-- Makes a directory where nothing stands. -/
def makeDirectory (tree : FileTree) (directory : Place) (path : Path) :
    Except FileError FileTree := do
  match ← tree.arrive .entry directory path with
  | .present _ _ => throw .alreadyExists
  | .vacant parent name => return tree.put (parent ++ [name]) .directory

/-- Makes a symbolic link where nothing stands. -/
def makeLink (tree : FileTree) (directory : Place) (path : Path) (destination : Text) :
    Except FileError FileTree := do
  if destination.isEmpty then throw .notFound
  if let some e := pathError? destination then throw e
  match ← tree.arrive .entry directory path with
  | .present _ _ => throw .alreadyExists
  | .vacant parent name => return tree.put (parent ++ [name]) (.link destination)

/-- Writes a file, making it if need be. -/
def write (tree : FileTree) (directory : Place) (path : Path) (content : ByteArray) :
    Except FileError FileTree := do
  match ← tree.arrive .writing directory path with
  | .present place (.file _) => return tree.put place (.file content)
  | .present _ _ => throw .isDirectory
  | .vacant parent name => return tree.put (parent ++ [name]) (.file content)

/-- Moves a file or a link to a place where no directory stands. -/
def rename (tree : FileTree) (directory : Place) (source target : Path) :
    Except FileError FileTree := do
  match ← tree.arrive .entry directory source with
  | .vacant _ _ => throw .notFound
  | .present place entry =>
    match ← tree.arrive .entry directory target with
    | .present other there =>
      if there.isDirectory then throw .isDirectory
      if other = place then return tree
      return (tree.erase place).put other entry
    | .vacant parent name => return (tree.erase place).put (parent ++ [name]) entry

/-- Removes a file or a link. -/
def remove (tree : FileTree) (directory : Place) (path : Path) : Except FileError FileTree := do
  match ← tree.arrive .entry directory path with
  | .vacant _ _ => throw .notFound
  | .present place entry =>
    if entry.isDirectory then throw .isDirectory
    return tree.erase place

end FileTree

end Phrasebook
