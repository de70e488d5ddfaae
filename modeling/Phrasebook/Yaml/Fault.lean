/-
# Phrasebook.Yaml.Fault -- why a document cannot be read

Nearly every fault of a document is one of its form and is reported as such, with what is wrong.  A
few come up only when a scalar is given its value: a character, a number, a day or a truth value that
the scalar does not denote, or one that is out of all range, and a key that no mapping can hold.  A
document may also be nested too deeply to be read.

Readers of documents differ in the words they have for malformed ones, and another reader may fail in
ways of its own, which are known here by their names.
-/
import Phrasebook.Text

namespace Phrasebook.Yaml

/-- The faults of a document. -/
inductive Fault where
  | malformed (problem : Text)
  | badScalar
  | outOfRange
  | emptyNumber
  | badTruth
  | compositeKey (typeName : Text)
  | tooDeep
  | other (name : Text)
deriving DecidableEq, Repr

/-- What is told about a fault beside its sort. -/
def Fault.message? : Fault → Option Text
  | .compositeKey typeName => some ("unhashable type: '" ++ typeName ++ "'")
  | _ => none

/-- The fault of a reading that takes more steps than it is given.  The numbers of steps are chosen so
that they suffice. -/
def Fault.outOfSteps : Fault := .malformed "reading does not end"

end Phrasebook.Yaml
