/-
# Phrasebook.Proofs.Emission.Code -- what the lines of code are made of

Outside of its comments the source of a batch consists of names, numbers, separators, and string
literals that hold a name.  `PlainCode` is this form of a text.  It is kept when texts are put
together, so that it is shown of a line by showing it of the parts the line is written with; and
whatever character is neither part of a name nor a separator is thereby kept out of the line.

A line of code is therefore a single line, and so is a line of a comment, which is cut out of its
text at the line breaks.  Imports are the only text that is printed as it is given.
-/
import Phrasebook.Proofs.Emission.Listing
import Phrasebook.Proofs.Text.Closing

namespace Phrasebook

open Java

/-! ## Plain code -/

namespace Java

/-- The space, the brackets and the other separators of code. -/
def separators : List CodePoint :=
  [' ', '(', ')', '\x7b', '\x7d', '[', ']', ';', ',', '=', '.'].map .scalar

/-- A character that stands in code for itself: a part of a name or a separator. -/
def isCodeChar (c : CodePoint) : Bool := isIdentifierPart c || separators.contains c

/-- The character around a string literal. -/
def quote : CodePoint := .scalar '"'

/-- Code without comments, whose string literals hold nothing that has to be escaped. -/
inductive PlainCode : Text → Prop
  | nil : PlainCode []
  | cons {c : CodePoint} {t : Text} (hc : isCodeChar c = true) (ht : PlainCode t) :
      PlainCode (c :: t)
  | literal {content t : Text} (hcontent : ∀ c ∈ content, isCodeChar c = true)
      (ht : PlainCode t) : PlainCode (quote :: (content ++ quote :: t))

/-- A character of code differs from one that is none. -/
theorem ne_of_isCodeChar {c d : CodePoint} (hc : isCodeChar c = true) (hd : isCodeChar d = false) :
    c ≠ d := by
  rintro rfl
  rw [hc] at hd
  exact Bool.noConfusion hd

/-- Characters that stand for themselves are plain code. -/
theorem plainCode_of_all {t : Text} (h : t.all isCodeChar = true) : PlainCode t := by
  rw [List.all_eq_true] at h
  induction t with
  | nil => exact PlainCode.nil
  | cons c t ih =>
    have hrest : PlainCode t := ih fun d hd => h d (List.mem_cons_of_mem c hd)
    exact PlainCode.cons (h c (List.mem_cons_self ..)) hrest

theorem PlainCode.append {s t : Text} (hs : PlainCode s) (ht : PlainCode t) :
    PlainCode (s ++ t) := by
  induction hs with
  | nil => exact ht
  | cons hc _ ih => exact PlainCode.cons hc ih
  | literal hcontent _ ih =>
    rw [List.cons_append, List.append_assoc, List.cons_append]
    exact PlainCode.literal hcontent ih

/-- Pieces of plain code with plain code between them. -/
theorem PlainCode.join {sep : Text} (hsep : PlainCode sep) {pieces : List Text}
    (h : ∀ p ∈ pieces, PlainCode p) : PlainCode (Text.join sep pieces) :=
  Text.join_of_append PlainCode.nil PlainCode.append hsep h

/-- Every character of plain code stands for itself or is a quote. -/
theorem PlainCode.eq_quote_or_isCodeChar {t : Text} (h : PlainCode t) {c : CodePoint}
    (hc : c ∈ t) : c = quote ∨ isCodeChar c = true := by
  induction h with
  | nil => exact absurd hc List.not_mem_nil
  | cons hd _ ih =>
    rcases List.mem_cons.mp hc with rfl | hm
    · exact Or.inr hd
    · exact ih hm
  | literal hcontent _ ih =>
    simp only [List.mem_cons, List.mem_append] at hc
    rcases hc with hquote | hm | hquote | hm
    · exact Or.inl hquote
    · exact Or.inr (hcontent c hm)
    · exact Or.inl hquote
    · exact ih hm

/-- Any other character is kept out. -/
theorem PlainCode.not_mem {t : Text} (h : PlainCode t) {c : CodePoint}
    (hc : isCodeChar c = false) (hquote : c ≠ quote) : c ∉ t := by
  intro hm
  rcases h.eq_quote_or_isCodeChar hm with heq | hcode
  · exact hquote heq
  · exact ne_of_isCodeChar hcode hc rfl

/-- No character of code ends a line. -/
theorem isLineBreak_of_isCodeChar {c : CodePoint} (h : isCodeChar c = true) :
    c.isLineBreak = false := by
  rcases Bool.or_eq_true_iff.mp h with hpart | hother
  · -- the characters of names have numbers from 36 to 122
    have hrange : ∃ ch : Char, c = .scalar ch ∧ 36 ≤ ch.toNat ∧ ch.toNat ≤ 122 := by
      rcases (legalPart_iff c).mpr hpart with ⟨ch, rfl, hch⟩ | ⟨ch, rfl, hch⟩
      · refine ⟨ch, rfl, ?_⟩
        rcases hch with ⟨hlow, hhigh⟩ | ⟨hlow, hhigh⟩ | rfl | rfl
        · exact ⟨Nat.le_trans (by decide) hlow, Nat.le_trans hhigh (by decide)⟩
        · exact ⟨Nat.le_trans (by decide) hlow, Nat.le_trans hhigh (by decide)⟩
        · decide
        · decide
      · exact ⟨ch, rfl, Nat.le_trans (by decide) hch.1, Nat.le_trans hch.2 (by decide)⟩
    obtain ⟨ch, rfl, hlow, hhigh⟩ := hrange
    simp only [CodePoint.isLineBreak, Bool.or_eq_false_iff, Bool.and_eq_false_iff,
      decide_eq_false_iff_not, beq_eq_false_iff_ne]
    omega
  · have hall : ∀ d ∈ separators, d.isLineBreak = false := by decide
    exact hall c (List.contains_iff_mem.mp hother)

/-- Plain code is on one line. -/
theorem PlainCode.unbroken {t : Text} (h : PlainCode t) : t.Unbroken := by
  intro c hc
  rcases h.eq_quote_or_isCodeChar hc with rfl | hcode
  · decide
  · exact isLineBreak_of_isCodeChar hcode

/-! ## Names and numbers -/

theorem isCodeChar_of_isIdentifierPart {c : CodePoint} (h : isIdentifierPart c = true) :
    isCodeChar c = true :=
  Bool.or_eq_true_iff.mpr (Or.inl h)

theorem isCodeChar_of_mem_identifier {name : Text} (h : isIdentifier name = true) {c : CodePoint}
    (hc : c ∈ name) : isCodeChar c = true :=
  isCodeChar_of_isIdentifierPart
    (isIdentifierPart_of_mem (Bool.and_eq_true_iff.mp h).1 c hc)

theorem plainCode_of_isIdentifier {name : Text} (h : isIdentifier name = true) : PlainCode name :=
  plainCode_of_all (List.all_eq_true.mpr fun _ hc => isCodeChar_of_mem_identifier h hc)

/-- The name of a package is made of names and dots. -/
theorem plainCode_of_isPackageName {package : Text} (h : isPackageName package = true) :
    PlainCode package := by
  refine plainCode_of_all (List.all_eq_true.mpr fun c hc => ?_)
  rw [isPackageName, List.all_eq_true] at h
  rcases Text.eq_or_mem_piece '.' hc with rfl | ⟨piece, hp, hcp⟩
  · decide
  · exact isCodeChar_of_mem_identifier (h piece hp) hcp

theorem plainCode_ofNat (n : Nat) : PlainCode (Text.ofNat n) := by
  refine plainCode_of_all (List.all_eq_true.mpr fun c hc => ?_)
  obtain ⟨d, hd, rfl⟩ := List.mem_map.mp hc
  have hdigit : d.isDigit = true := Nat.isDigit_of_mem_toDigits (by decide) (by decide) hd
  exact isCodeChar_of_isIdentifierPart (Bool.or_eq_true_iff.mpr (Or.inr hdigit))

end Java

/-! ## The lines of a batch -/

namespace Listing

/-- A name between quotes. -/
theorem plainCode_literal {token : Text} (h : isIdentifier token = true) :
    PlainCode (literal token) := by
  rw [literal, List.append_assoc]
  exact PlainCode.literal (fun _ hc => isCodeChar_of_mem_identifier h hc) PlainCode.nil

theorem plainCode_packageLine {package : Text} (h : isPackageName package = true) :
    PlainCode (packageLine package) :=
  ((plainCode_of_all (by decide)).append (plainCode_of_isPackageName h)).append
    (plainCode_of_all (by decide))

theorem plainCode_importLine {i : Text} (h : isPackageName i = true) :
    PlainCode (importLine i) :=
  ((plainCode_of_all (by decide)).append (plainCode_of_isPackageName h)).append
    (plainCode_of_all (by decide))

theorem plainCode_factoryLines {p : Phrase} (hp : p.Legal) :
    ∀ l ∈ factoryLines p, PlainCode l := by
  have hname := plainCode_of_isIdentifier hp.name
  have hfixed : ∀ {t : Text}, t.all isCodeChar = true → PlainCode t := plainCode_of_all
  intro l hl
  simp only [factoryLines, List.mem_cons, List.not_mem_nil, or_false] at hl
  rcases hl with rfl | rfl | rfl
  · exact ((((hfixed (by decide)).append hname).append (hfixed (by decide))).append hname).append
      (hfixed (by decide))
  · exact ((hfixed (by decide)).append hname).append (hfixed (by decide))
  · exact hfixed (by decide)

theorem plainCode_setterLines {p : Phrase} (hp : p.Legal) (position : Nat) {token : Text}
    (ht : isIdentifier token = true) : ∀ l ∈ setterLines p position token, PlainCode l := by
  have hname := plainCode_of_isIdentifier hp.name
  have htoken := plainCode_of_isIdentifier ht
  have hfixed : ∀ {t : Text}, t.all isCodeChar = true → PlainCode t := plainCode_of_all
  intro l hl
  simp only [setterLines, List.mem_cons, List.not_mem_nil, or_false] at hl
  rcases hl with rfl | rfl | rfl | rfl
  · exact (((((hfixed (by decide)).append hname).append (hfixed (by decide))).append
      htoken).append (hfixed (by decide))).append htoken |>.append (hfixed (by decide))
  · exact ((((hfixed (by decide)).append (plainCode_ofNat position)).append
      (hfixed (by decide))).append htoken).append (hfixed (by decide))
  · exact hfixed (by decide)
  · exact hfixed (by decide)

theorem plainCode_settersLines {p : Phrase} (hp : p.Legal) {i : Nat} {tokens : List Text}
    (ht : ∀ t ∈ tokens, isIdentifier t = true) : ∀ l ∈ settersLines p i tokens, PlainCode l := by
  induction tokens generalizing i with
  | nil => exact fun l hl => absurd hl List.not_mem_nil
  | cons t ts ih =>
    intro l hl
    rw [settersLines, List.cons_append, List.mem_cons, List.mem_append] at hl
    rcases hl with rfl | hl | hl
    · exact PlainCode.nil
    · exact plainCode_setterLines hp i (ht t (List.mem_cons_self ..)) l hl
    · exact ih (fun x hx => ht x (List.mem_cons_of_mem t hx)) l hl

theorem plainCode_builderLines {p : Phrase} (hp : p.Legal) :
    ∀ l ∈ builderLines p, PlainCode l := by
  have hname := plainCode_of_isIdentifier hp.name
  have hfixed : ∀ {t : Text}, t.all isCodeChar = true → PlainCode t := plainCode_of_all
  have hliterals : PlainCode (Text.join ", " (p.tokens.map literal)) := by
    refine PlainCode.join (hfixed (by decide)) fun l hl => ?_
    obtain ⟨t, ht, rfl⟩ := List.mem_map.mp hl
    exact plainCode_literal (hp.tokens t ht)
  intro l hl
  simp only [builderLines, List.mem_cons, List.not_mem_nil, or_false] at hl
  rcases hl with rfl | rfl | rfl | rfl
  · exact ((hfixed (by decide)).append hname).append (hfixed (by decide))
  · exact ((hfixed (by decide)).append hname).append (hfixed (by decide))
  · exact ((hfixed (by decide)).append hliterals).append (hfixed (by decide))
  · exact hfixed (by decide)

theorem plainCode_builderBlock {p : Phrase} (hp : p.Legal) :
    ∀ l ∈ builderBlock p, PlainCode l := by
  intro l hl
  simp only [builderBlock, List.mem_append, List.mem_cons, List.not_mem_nil, or_false] at hl
  rcases hl with (hl | hl) | rfl | rfl
  · exact plainCode_builderLines hp l hl
  · exact plainCode_settersLines hp hp.tokens l hl
  · exact plainCode_of_all (by decide)
  · exact PlainCode.nil

/-- The number of lines in front of the comment in the ending. -/
def endingBreak : Nat := 19

/-- The line of the comment in the ending. -/
def endingComment : Text := "      // TODO do actual replacement"

/-- Apart from one comment the ending is plain code. -/
theorem plainCode_ending :
    ∀ l ∈ ending.take endingBreak ++ ending.drop (endingBreak + 1), PlainCode l := by
  have hstring : ∀ {before content behind : Text}, before.all isCodeChar = true →
      content.all isCodeChar = true → behind.all isCodeChar = true →
        PlainCode (before ++ quote :: (content ++ quote :: behind)) := fun hbefore hcontent hbehind =>
    (plainCode_of_all hbefore).append
      (PlainCode.literal (List.all_eq_true.mp hcontent) (plainCode_of_all hbehind))
  have hreturn : PlainCode ("      return " ++ quote :: ([] ++ quote :: Text.ofString ";")) :=
    hstring (by decide) (by decide) (by decide)
  have hthrow : PlainCode ("    throw new AssertionError(" ++
      quote :: (Text.ofString "No instances." ++ quote :: Text.ofString ");")) :=
    hstring (by decide) (by decide) (by decide)
  have hlines : ∀ l ∈ ending.take endingBreak ++ ending.drop (endingBreak + 1),
      l.all isCodeChar = true ∨ l = "      return \"\";" ∨
        l = "    throw new AssertionError(\"No instances.\");" := by
    decide +kernel
  intro l hl
  rcases hlines l hl with h | rfl | rfl
  · exact plainCode_of_all h
  · exact hreturn
  · exact hthrow

theorem mem_ending {l : Text} (h : l ∈ ending) : PlainCode l ∨ l = endingComment := by
  have hsplit : ending =
      ending.take endingBreak ++ endingComment :: ending.drop (endingBreak + 1) := rfl
  rw [hsplit, List.mem_append, List.mem_cons] at h
  rcases h with h | h | h
  · exact Or.inl (plainCode_ending l (List.mem_append_left _ h))
  · exact Or.inr h
  · exact Or.inl (plainCode_ending l (List.mem_append_right _ h))

/-! ## Single lines -/

theorem unbroken_headerLine {header l : Text} (h : l ∈ header.commentLines) :
    (headerLine l).Unbroken := by
  unfold headerLine
  split
  · decide
  · exact Text.Unbroken.append (by decide) (Text.unbroken_of_mem_commentLines h)

theorem unbroken_docLines (doc : Text) : ∀ l ∈ docLines doc, l.Unbroken := by
  intro l hl
  simp only [docLines, List.cons_append, List.mem_cons, List.mem_append, List.mem_map,
    List.not_mem_nil, or_false] at hl
  rcases hl with rfl | ⟨m, hm, rfl⟩ | rfl
  · decide
  · unfold docLine
    split
    · decide
    · exact Text.Unbroken.append (by decide) (Text.unbroken_of_mem_commentLines hm)
  · decide

theorem unbroken_factoryBlock {p : Phrase} (hp : p.Legal) :
    ∀ l ∈ factoryBlock p, l.Unbroken := by
  intro l hl
  simp only [factoryBlock, List.mem_append, List.mem_singleton] at hl
  rcases hl with (hl | hl) | rfl
  · cases hd : p.documentation with
    | none =>
      rw [hd] at hl
      exact absurd hl List.not_mem_nil
    | some doc =>
      rw [hd] at hl
      exact unbroken_docLines doc l hl
  · exact (plainCode_factoryLines hp l hl).unbroken
  · decide

/-- The blocks of all phrases. -/
def blocks (phrases : List Phrase) : List Text :=
  phrases.flatMap factoryBlock ++ phrases.flatMap builderBlock

theorem unbroken_blocks {phrases : List Phrase} (h : ∀ p ∈ phrases, p.Legal) :
    ∀ l ∈ blocks phrases, l.Unbroken := by
  intro l hl
  rcases List.mem_append.mp hl with hl | hl
  · obtain ⟨p, hp, hl⟩ := List.mem_flatMap.mp hl
    exact unbroken_factoryBlock (h p hp) l hl
  · obtain ⟨p, hp, hl⟩ := List.mem_flatMap.mp hl
    exact (plainCode_builderBlock (h p hp) l hl).unbroken

/-- The lines of the imports, and the empty line after them. -/
theorem mem_importLines {imports : List Text} {l : Text} (h : l ∈ importLines imports) :
    l = [] ∨ ∃ i ∈ imports, l = importLine i := by
  cases imports with
  | nil => exact absurd h List.not_mem_nil
  | cons i is =>
    rcases List.mem_append.mp h with h | h
    · obtain ⟨j, hj, rfl⟩ := List.mem_map.mp h
      exact Or.inr ⟨j, hj, rfl⟩
    · exact Or.inl (List.mem_singleton.mp h)

/-- A character that ends a line comes into a line of the source only with an import. -/
theorem not_mem_lines {batch : Batch} {settings : Settings} (hb : batch.Legal) {c : CodePoint}
    (hc : c.isLineBreak = true) (himports : ∀ i ∈ settings.imports, c ∉ i) :
    ∀ l ∈ lines batch settings, c ∉ l := by
  intro l hl
  simp only [lines, opening, List.append_assoc, List.cons_append, List.nil_append, List.mem_append,
    List.mem_cons, List.mem_map] at hl
  rcases hl with ⟨m, hm, rfl⟩ | rfl | rfl | hl | rfl | hl | hl | hl
  · exact (unbroken_headerLine hm).not_mem hc
  · exact (plainCode_packageLine hb.package).unbroken.not_mem hc
  · exact List.not_mem_nil
  · rcases mem_importLines hl with rfl | ⟨i, hi, rfl⟩
    · exact List.not_mem_nil
    · have hfixed : ∀ {t : Text}, t.Unbroken → c ∉ t := fun ht => ht.not_mem hc
      simp only [importLine, List.mem_append, not_or]
      exact ⟨⟨hfixed (by decide), himports i hi⟩, hfixed (by decide)⟩
  · exact Text.Unbroken.not_mem (by decide) hc
  · exact (unbroken_blocks hb.phrases l (List.mem_append_left _ hl)).not_mem hc
  · exact (unbroken_blocks hb.phrases l (List.mem_append_right _ hl)).not_mem hc
  · rcases mem_ending hl with hcode | rfl
    · exact hcode.unbroken.not_mem hc
    · exact Text.Unbroken.not_mem (by decide) hc

end Listing

end Phrasebook
