/-
# Phrasebook.Phrase.Placeholder -- the tokens of a phrase text

A phrase may give its text, such as `Hello, {name}!`, in place of a list of tokens.  A placeholder is
a plain name between braces, wherever it stands; braces around anything else are ordinary text.  The
tokens of the text are its placeholders in order of first appearance, each once.

A placeholder holds no opening brace, so placeholders never overlap, and looking at every position
finds each of them once.
-/
import Phrasebook.Java.Identifier

namespace Phrasebook

/-- The name of the placeholder that stands at the start of a text. -/
def placeholder? : Text → Option Text
  | .scalar '{' :: cs =>
    match cs.dropWhile Java.isIdentifierPart with
    | .scalar '}' :: _ =>
      let name := cs.takeWhile Java.isIdentifierPart
      if Java.isPlainName name then some name else none
    | _ => none
  | _ => none

/-- The names of the placeholders of a text in order. -/
def placeholders : Text → List Text
  | [] => []
  | c :: cs =>
    match placeholder? (c :: cs) with
    | some name => name :: placeholders cs
    | none => placeholders cs

/-- The tokens of a phrase text. -/
def tokensOfText (text : Text) : List Text := (placeholders text).eraseDups

/-- A placeholder has the shape of an identifier. -/
theorem isPlainName_of_placeholder? {t name : Text} (h : placeholder? t = some name) :
    Java.isPlainName name = true := by
  unfold placeholder? at h
  split at h
  · split at h
    · simp only at h
      split at h
      · simp_all
      · simp at h
    · simp at h
  · simp at h

end Phrasebook
