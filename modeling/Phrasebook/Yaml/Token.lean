/-
# Phrasebook.Yaml.Token -- the tokens of a document

The tokens say what stands in a document without its layout: where block collections begin and end is
told by tokens of their own, and so is the key of a simple pair.
-/
import Phrasebook.Yaml.Fault

namespace Phrasebook.Yaml

/-- A tag as it is written: a suffix after a handle, or a whole tag. -/
structure WrittenTag where
  handle : Option Text
  suffix : Text
deriving DecidableEq, Repr

/-- A directive. -/
inductive Directive where
  | version (major : Nat)
  | handle (handle start : Text)
  | other
deriving DecidableEq, Repr

/-- A token. -/
inductive Token where
  | directive (d : Directive)
  | documentStart
  | documentEnd
  | streamEnd
  | blockSequence
  | blockMapping
  | blockEnd
  | entry
  | key
  | value
  | openSequence
  | closeSequence
  | openMapping
  | closeMapping
  | comma
  | alias (name : Text)
  | anchor (name : Text)
  | tag (t : WrittenTag)
  | scalar (text : Text) (plain : Bool)
deriving DecidableEq, Repr

end Phrasebook.Yaml
