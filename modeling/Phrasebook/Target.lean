/-
# Phrasebook.Target -- where the file of a batch is written

The dots of a package become slashes, and the resulting path is taken from the output root.  The file
is first written beside its place, under a name with another ending.
-/
import Phrasebook.Path
import Phrasebook.Phrase

namespace Phrasebook

/-- A package as a path. -/
def packagePath (package : Text) : Path :=
  Path.ofText (package.map fun c => if c = .scalar '.' then Path.slash else c)

/-- The directory of a package under an output root. -/
def packageDirectory (root : Path) (package : Text) : Path := root ++ packagePath package

/-- The source file of a package under an output root. -/
def targetPath (root : Path) (package : Text) : Path :=
  (packageDirectory root package).child sourceFileName

/-- What a temporary file has after the name of the file it becomes. -/
def temporaryEnding : Text := ".tmp"

/-- The temporary file beside a file. -/
def temporaryPath (target : Path) : Path := target.sibling (target.fileName ++ temporaryEnding)

end Phrasebook
