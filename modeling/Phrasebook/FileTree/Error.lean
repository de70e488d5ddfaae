/-
# Phrasebook.FileTree.Error -- what a file tree refuses

An operation on a file tree fails for one of these reasons.  Each has a number and words of its own,
which are the ones users of such systems know.  A path that cannot be handed to the system at all is
refused before any operation.
-/
import Phrasebook.Text.Quoted

namespace Phrasebook

/-- The reasons for which an operation on files fails. -/
inductive FileError where
  | notFound
  | alreadyExists
  | notDirectory
  | isDirectory
  | notEmpty
  | nameTooLong
  | tooManyLinks
  | zeroInPath
  | surrogateInPath
  | other (number : Nat) (words : Text)
deriving DecidableEq, Repr

namespace FileError

/-- The number of a reason. -/
def number : FileError → Nat
  | notFound => 2
  | alreadyExists => 17
  | notDirectory => 20
  | isDirectory => 21
  | nameTooLong => 36
  | notEmpty => 39
  | tooManyLinks => 40
  | zeroInPath => 22
  | surrogateInPath => 22
  | other number _ => number

/-- A reason in words. -/
def words : FileError → Text
  | notFound => "No such file or directory"
  | alreadyExists => "File exists"
  | notDirectory => "Not a directory"
  | isDirectory => "Is a directory"
  | nameTooLong => "File name too long"
  | notEmpty => "Directory not empty"
  | tooManyLinks => "Too many levels of symbolic links"
  | zeroInPath => "embedded null byte"
  | surrogateInPath => "surrogates not allowed"
  | other _ words => words

/-- Whether the system itself gave the reason; otherwise the path was not handed to it. -/
def isFromSystem : FileError → Bool
  | zeroInPath | surrogateInPath => false
  | _ => true

/-- A reason in words, with its number and the path of the operation. -/
def describe (e : FileError) (path : Text) : Text :=
  "[Errno " ++ Text.ofNat e.number ++ "] " ++ e.words ++ ": " ++ path.quoted

end FileError

end Phrasebook
