/-
# Phrasebook.Validation -- the names of a batch

A batch is accepted if the source generated from it declares only legal and distinct names.  The
check goes in reading order and stops at the first fault: the package, then for each phrase its own
name (its form before its repetition) and after that its tokens (again form before repetition).

Phrase names are compared within the batch and tokens within their phrase; a token may equal a phrase
name or a token of another phrase.
-/
import Phrasebook.Phrase
import Phrasebook.Java.Identifier

namespace Phrasebook

open Java (NameFault Flaw checkIdentifier checkPackage phraseRole tokenRole)

/-- Checks a name in its role, then that it is not among those already seen. -/
def checkFresh (role : Text) (repeated : Flaw) (seen : List Text) (name : Text) :
    Except NameFault Unit := do
  let _ ← checkIdentifier role name
  if seen.contains name then throw ⟨role, name, repeated⟩

/-- Checks the tokens of a phrase that follow the ones already seen. -/
def checkTokens (phrase : Text) : List Text → List Text → Except NameFault Unit
  | _, [] => .ok ()
  | seen, t :: ts => do
    checkFresh tokenRole (.repeatedIn phrase) seen t
    checkTokens phrase (t :: seen) ts

/-- Checks the phrases that follow the ones whose names have been seen. -/
def checkPhrases : List Text → List Phrase → Except NameFault Unit
  | _, [] => .ok ()
  | seen, p :: ps => do
    checkFresh phraseRole .redeclared seen p.name
    checkTokens p.name [] p.tokens
    checkPhrases (p.name :: seen) ps

/-- Accepts a batch or gives its first fault in reading order. -/
def Batch.check (b : Batch) : Except NameFault Unit := do
  let _ ← checkPackage b.package
  checkPhrases [] b.phrases

end Phrasebook
