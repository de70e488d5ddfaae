/-
# Phrasebook.Proofs.PhraseFile.RoundTrip -- batches as the content of a file

Every list of batches has a file: the form with a list of batches, in which the tokens of a phrase
are listed and a phrase without documentation has an explicit null.  It is a phrase file by the
grammar, and it holds the batches it was made of.  So whatever a file says in its own way, a single
package, a text in place of tokens, an entry that is left out, can be said in this form as well.
-/
import Phrasebook.Proofs.PhraseFile

namespace Phrasebook

namespace PhraseFile

/-! ## The file of a list of batches -/

/-- A text, or null for none. -/
def ofOptionalText : Option Text → Value
  | some t => .text t
  | none => .null

/-- A list of texts. -/
def ofTexts (ts : List Text) : Value := .list (ts.map .text)

/-- The mapping that describes a phrase, with its tokens listed. -/
def ofPhrase (p : Phrase) : Value := .map [
  (.text "name", .text p.name),
  (.text "doc", ofOptionalText p.documentation),
  (.text "tokens", ofTexts p.tokens)]

/-- The mapping that describes a batch. -/
def ofBatch (b : Batch) : Value := .map [
  (.text "package", .text b.package),
  (.text "phrases", .list (b.phrases.map ofPhrase))]

/-- The file that describes a list of batches. -/
def ofBatches (bs : List Batch) : Value := .map [
  (.text "batches", .list (bs.map ofBatch))]

/-! ## It holds the batches -/

/-- A list of things, each described by a value, is described by the list of the values. -/
theorem isList_map {α : Type} {R : Value → α → Prop} {describe : α → Value}
    (h : ∀ a, R (describe a) a) (as : List α) : IsList R (.list (as.map describe)) as := by
  apply IsList.list
  rw [List.forall₂_map_left_iff, List.forall₂_same]
  exact fun a _ => h a

theorem isList_ofTexts (ts : List Text) : IsList IsText (ofTexts ts) ts :=
  isList_map IsText.text ts

theorem nullable_ofOptionalText (t : Option Text) :
    Nullable IsText (some (ofOptionalText t)) t := by
  cases t with
  | none => exact .null
  | some t => exact .given (.text t)

theorem isPhrase_ofPhrase (p : Phrase) : IsPhrase (ofPhrase p) p := by
  show IsPhrase (ofPhrase p) ⟨p.name, p.documentation, tokensFrom (some p.tokens) none⟩
  refine .mapping ?_ (.given (.text p.name)) (nullable_ofOptionalText p.documentation)
    (.given (isList_ofTexts p.tokens)) .absent
  exact onlyKeys_cons (by decide) _ (onlyKeys_cons (by decide) _ (onlyKeys_cons (by decide) _
    (onlyKeys_nil _)))

theorem isBatch_ofBatch (b : Batch) : IsBatch (ofBatch b) b := by
  show IsBatch (ofBatch b) ⟨b.package, b.phrases⟩
  refine .mapping ?_ (.given (.text b.package)) (.given (isList_map isPhrase_ofPhrase b.phrases))
  exact onlyKeys_cons (by decide) _ (onlyKeys_cons (by decide) _ (onlyKeys_nil _))

theorem isPhraseFile_ofBatches (bs : List Batch) : IsPhraseFile (ofBatches bs) bs := by
  refine .several ?_ (.given (isList_map isBatch_ofBatch bs)) (.inl rfl) (.inl rfl)
  exact onlyKeys_cons (by decide) _ (onlyKeys_nil _)

theorem read_ofBatches (bs : List Batch) : read (ofBatches bs) = .ok bs :=
  read_eq_ok_iff.mpr (isPhraseFile_ofBatches bs)

/-- The file of some batches is read as these batches, whatever they are.  So what has been read,
from a file of any form, is read again from the file of it. -/
theorem read_roundTrip :
    (∀ bs, read (ofBatches bs) = .ok bs) ∧
      ∀ v, (read v >>= fun bs => read (ofBatches bs)) = read v := by
  refine ⟨read_ofBatches, fun v => ?_⟩
  cases read v with
  | ok bs => exact read_ofBatches bs
  | error flaw => rfl

end PhraseFile

end Phrasebook
