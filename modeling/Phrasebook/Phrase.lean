/-
# Phrasebook.Phrase -- phrases and batches

A phrase has a name, optional documentation, and the tokens that are filled in when it is used.  The
order of the tokens is significant: it is the order of the keys handed to the generated builder and
the order of the stored values.  A batch is a package with its phrases, and becomes one source file.

`Phrase.slots` gives every distinct token its first position, in order of first appearance.
-/
import Phrasebook.Text

namespace Phrasebook

/-! ## Names of the generated interface -/

/-- The class that holds everything generated for a batch. -/
def phraseClassName : Text := "Phrase"

/-- The base class of all builders. -/
def basePhraseClassName : Text := "AbstractPhrase"

/-- What precedes a phrase name in the name of its builder class. -/
def builderNameStart : Text := "Phrase_"

/-- The name of a generated source file. -/
def sourceFileName : Text := phraseClassName ++ ".java"

/-! ## Phrases -/

/-- A phrase with its tokens in order. -/
structure Phrase where
  name : Text
  documentation : Option Text := none
  tokens : List Text := []
deriving DecidableEq, Repr

/-- The distinct tokens of a list that starts at a position, each with its first position. -/
def firstPositions : Nat → List Text → List (Text × Nat)
  | _, [] => []
  | i, t :: ts => (t, i) :: (firstPositions (i + 1) ts).filter fun slot => slot.1 ≠ t

namespace Phrase

/-- The name of the builder class of a phrase. -/
def className (p : Phrase) : Text := builderNameStart ++ p.name

/-- The position of every distinct token, a repeated token keeping its first one. -/
def slots (p : Phrase) : List (Text × Nat) := firstPositions 0 p.tokens

end Phrase

/-- A package with its phrases in order. -/
structure Batch where
  package : Text
  phrases : List Phrase := []
deriving DecidableEq, Repr

end Phrasebook
