/-
# Phrasebook.Proofs.Java.Legal -- what a legal name is, spelled out

`LegalIdentifier` and `LegalPackage` say in the terms of the language definition which names may
stand in a source file: an identifier opens with a letter, `_` or `$`, goes on with these and
digits, and is no reserved word; a package is a dotted sequence of identifiers.  The checks of
`Phrasebook.Java.Identifier` decide exactly these predicates.

The second half collects what a legal name cannot hold.  Every separator of the generated source
(quote, comma, semicolon, brace, space, line feed) and of paths (slash, dot) is outside of it, and
this is what makes generated lines and paths readable again.
-/
import Phrasebook.Java.Identifier
import Phrasebook.Proofs.Text.Split

namespace Phrasebook.Java

/-! ## Legal names -/

/-- A Latin letter, the underscore or the dollar sign. -/
def LegalStart (c : CodePoint) : Prop :=
  ∃ ch : Char, c = .scalar ch ∧
    ('A' ≤ ch ∧ ch ≤ 'Z' ∨ 'a' ≤ ch ∧ ch ≤ 'z' ∨ ch = '_' ∨ ch = '$')

/-- A character that may open an identifier, or a decimal digit. -/
def LegalPart (c : CodePoint) : Prop :=
  LegalStart c ∨ ∃ ch : Char, c = .scalar ch ∧ '0' ≤ ch ∧ ch ≤ '9'

/-- A non-empty name of legal characters that is no reserved word. -/
def LegalIdentifier (name : Text) : Prop :=
  ∃ c cs, name = c :: cs ∧ LegalStart c ∧ (∀ d ∈ cs, LegalPart d) ∧ name ∉ reservedWords

/-- A non-empty sequence of identifiers with dots between them. -/
def LegalPackage (package : Text) : Prop :=
  ∃ segments : List Text, segments ≠ [] ∧ package = Text.join "." segments ∧
    ∀ s ∈ segments, LegalIdentifier s

/-! ## The checks are exact -/

theorem legalStart_iff (c : CodePoint) : LegalStart c ↔ isIdentifierStart c = true := by
  cases c with
  | surrogate u => simp [LegalStart, isIdentifierStart, CodePoint.isLetter]
  | scalar ch =>
    have hletter : (CodePoint.scalar ch).isLetter =
        (decide (ch.val ≥ 'A'.val ∧ ch.val ≤ 'Z'.val) ||
          decide (ch.val ≥ 'a'.val) && decide (ch.val ≤ 'z'.val)) := rfl
    simp only [LegalStart, isIdentifierStart, hletter, CodePoint.scalar.injEq, exists_eq_left',
      Bool.or_eq_true, Bool.and_eq_true, decide_eq_true_eq, Char.le_def, ge_iff_le, or_assoc]

theorem legalPart_iff (c : CodePoint) : LegalPart c ↔ isIdentifierPart c = true := by
  rw [LegalPart, legalStart_iff, isIdentifierPart, Bool.or_eq_true]
  refine or_congr Iff.rfl ?_
  cases c with
  | surrogate u => simp [CodePoint.isDigit]
  | scalar ch =>
    simp [CodePoint.isDigit, Char.isDigit, Char.le_def, UInt32.le_iff_toNat_le]

/-- The check of identifiers accepts the legal ones. -/
theorem legalIdentifier_iff (name : Text) : LegalIdentifier name ↔ isIdentifier name = true := by
  cases name with
  | nil => simp [LegalIdentifier, isIdentifier, isPlainName]
  | cons c cs =>
    simp only [LegalIdentifier, isIdentifier, isPlainName, List.cons.injEq, ← legalStart_iff,
      ← legalPart_iff, Bool.and_eq_true, List.all_eq_true, Bool.not_eq_true',
      List.contains_eq_mem, decide_eq_false_iff_not]
    constructor
    · rintro ⟨d, ds, ⟨rfl, rfl⟩, hc, hcs, hr⟩
      exact ⟨⟨hc, hcs⟩, hr⟩
    · rintro ⟨⟨hc, hcs⟩, hr⟩
      exact ⟨c, cs, ⟨rfl, rfl⟩, hc, hcs, hr⟩

/-! ## What a legal name cannot hold -/

/-- A character that is no identifier part does not occur in an identifier. -/
theorem not_mem_of_isIdentifier {name : Text} {c : CodePoint} (h : isIdentifier name = true)
    (hc : isIdentifierPart c = false) : c ∉ name := by
  intro hm
  have hplain : isPlainName name = true := (Bool.and_eq_true_iff.mp h).1
  rw [isIdentifierPart_of_mem hplain c hm] at hc
  exact Bool.noConfusion hc

theorem isIdentifier_ne_nil {name : Text} (h : isIdentifier name = true) : name ≠ [] :=
  isPlainName_ne_nil (Bool.and_eq_true_iff.mp h).1

/-- The check of packages accepts the legal ones. -/
theorem legalPackage_iff (package : Text) :
    LegalPackage package ↔ isPackageName package = true := by
  rw [isPackageName, List.all_eq_true]
  constructor
  · rintro ⟨segments, hne, rfl, hs⟩
    have hdot : ∀ s ∈ segments, (.scalar '.' : CodePoint) ∉ s := fun s hm =>
      not_mem_of_isIdentifier ((legalIdentifier_iff s).mp (hs s hm)) (by decide)
    rw [show Text.join "." segments = Text.join [.scalar '.'] segments from rfl,
      Text.split_join hne hdot]
    exact fun s hm => (legalIdentifier_iff s).mp (hs s hm)
  · intro h
    refine ⟨Text.split '.' package, Text.split_ne_nil _ _, (Text.join_split '.' package).symm, ?_⟩
    exact fun s hm => (legalIdentifier_iff s).mpr (h s hm)

/-- A character that is neither a dot nor an identifier part does not occur in a package. -/
theorem not_mem_of_isPackageName {package : Text} {c : CodePoint}
    (h : isPackageName package = true) (hdot : c ≠ .scalar '.') (hc : isIdentifierPart c = false) :
    c ∉ package := by
  rw [isPackageName, List.all_eq_true] at h
  intro hm
  rcases Text.eq_or_mem_piece '.' hm with rfl | ⟨piece, hp, hcp⟩
  · exact hdot rfl
  · exact not_mem_of_isIdentifier (h piece hp) hc hcp

end Phrasebook.Java
