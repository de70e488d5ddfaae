/-
# Phrasebook.Proofs.Emission.Escapes -- what becomes of generated source when escapes are translated

The generated source of a batch is put together from plain code and comments, and only the comments
hold text that was not checked.  So the source survives the translation of Unicode escapes if every
line of the header and of the documentation does, and not otherwise
(`survivesEscapes_sourceText_iff`).

This can fail in both ways.  The documentation `C:\users` has no translation at all, and
documentation that spells the slash behind a star as an escape ends its comment, although the
printer exchanges every end of a comment that is spelled out.
-/
import Phrasebook.Proofs.Emission.Comments
import Phrasebook.Proofs.Java.Pieces

namespace Phrasebook

open Java

/-! ## Texts that fit into a comment after the translation -/

namespace Java.CommentKind

/-- A character between two texts that has no part in the end of a comment or in an escape. -/
def Neutral (kind : CommentKind) (c : CodePoint) : Prop :=
  EndsEscapes c ∧ match kind with
    | line => endsLine c = false
    | block => c ≠ Text.star ∧ c ≠ Text.slash

theorem fits_seam {kind : CommentKind} {c : CodePoint} (hc : kind.Neutral c) {s t : Text} :
    kind.Fits (s ++ c :: t) ↔ kind.Fits s ∧ kind.Fits t := by
  cases kind with
  | line =>
    show (∀ d ∈ s ++ c :: t, endsLine d = false) ↔ _
    rw [List.forall_mem_append, List.forall_mem_cons]
    exact and_congr_right fun _ => and_iff_right hc.2
  | block =>
    obtain ⟨hstar, hslash⟩ : c ≠ Text.star ∧ c ≠ Text.slash := hc.2
    show Text.Unclosed (s ++ c :: t) ↔ _
    rw [Text.unclosed_append, Text.unclosed_cons]
    constructor
    · rintro ⟨hs, ⟨-, ht⟩, -⟩
      exact ⟨hs, ht⟩
    · rintro ⟨hs, ht⟩
      refine ⟨hs, ⟨fun d _ h => hstar h.1, ht⟩, ?_⟩
      rintro e - _ ⟨⟩ h
      exact hslash h.2

/-- Texts around such a character can be looked at one by one. -/
theorem stillFits_seam {kind : CommentKind} {c : CodePoint} (hc : kind.Neutral c) {s t : Text} :
    kind.StillFits (s ++ c :: t) ↔ kind.StillFits s ∧ kind.StillFits t := by
  unfold StillFits
  rw [translate_seam hc.1]
  constructor
  · rintro ⟨u, hu, hfits⟩
    obtain ⟨s', hs, hu⟩ := Option.bind_eq_some_iff.mp hu
    obtain ⟨t', ht, rfl⟩ := Option.map_eq_some_iff.mp hu
    obtain ⟨hfs, hft⟩ := (fits_seam hc).mp hfits
    exact ⟨⟨s', hs, hfs⟩, t', ht, hft⟩
  · rintro ⟨⟨s', hs, hfs⟩, t', ht, hft⟩
    refine ⟨s' ++ c :: t', ?_, (fits_seam hc).mpr ⟨hfs, hft⟩⟩
    rw [hs, ht]
    rfl

/-- Without a backslash nothing changes. -/
theorem stillFits_of_backslash_not_mem {kind : CommentKind} {t : Text} (h : backslash ∉ t)
    (hfits : kind.Fits t) : kind.StillFits t :=
  ⟨t, translate_of_backslash_not_mem h, hfits⟩

theorem stillFits_nil (kind : CommentKind) : kind.StillFits [] := by
  refine stillFits_of_backslash_not_mem List.not_mem_nil ?_
  cases kind with
  | line => exact fun c hc => absurd hc List.not_mem_nil
  | block => exact Text.unclosed_nil

/-- A line of text fits into a line comment. -/
theorem fits_line_of_unbroken {t : Text} (h : t.Unbroken) : line.Fits t := by
  intro c hc
  by_contra hend
  have hbreak : c.isLineBreak = true := by
    rw [Bool.not_eq_false, endsLine, Bool.or_eq_true, decide_eq_true_eq, decide_eq_true_eq] at hend
    rcases hend with rfl | rfl
    · decide
    · decide
  exact h.not_mem hbreak hc

theorem neutral_space (kind : CommentKind) : kind.Neutral (.scalar ' ') := by
  cases kind with
  | line => exact ⟨⟨by decide, by decide, rfl⟩, rfl⟩
  | block => exact ⟨⟨by decide, by decide, rfl⟩, by decide, by decide⟩

theorem neutral_lineFeed : block.Neutral (.scalar '\n') :=
  ⟨⟨by decide, by decide, rfl⟩, by decide, by decide⟩

end Java.CommentKind

namespace Listing

/-! ## The source in parts -/

/-- A line of code. -/
def codePart (l : Text) : Part := .code (l ++ [.scalar '\n'])

/-- A line of the header. -/
def headerPart (l : Text) : Part :=
  .comment .line (if l.isBlank then [] else .scalar ' ' :: l)

/-- What the comment of documentation says. -/
def docContent (doc : Text) : Text :=
  [Text.star] ++ .scalar '\n' ::
    (Text.unlines ((Text.replace "*/" "*&#47;" doc).commentLines.map docLine) ++ ("   " : Text))

/-- Documentation. -/
def docParts (doc : Text) : List Part :=
  [.code "  ", .comment .block (docContent doc), .code "\n"]

/-- The factory of a phrase with its documentation. -/
def factoryParts (p : Phrase) : List Part :=
  (p.documentation.map docParts).getD [] ++ (factoryLines p ++ [[]]).map codePart

/-- The ending, with a comment in the body of one method. -/
def endingParts : List Part :=
  (ending.take endingBreak).map codePart ++
    [.code "      ", .comment .line " TODO do actual replacement"] ++
      (ending.drop (endingBreak + 1)).map codePart

/-- The lines between the header and the factories. -/
def introLines (package : Text) (imports : List Text) : List Text :=
  packageLine package :: [] :: importLines imports ++ [("public final class Phrase \x7b" : Text)]

/-- The source of a batch. -/
def parts (batch : Batch) (settings : Settings) : List Part :=
  settings.header.commentLines.map headerPart ++
    ((introLines batch.package settings.imports).map codePart ++
      (batch.phrases.flatMap factoryParts ++
        ((batch.phrases.flatMap builderBlock).map codePart ++ endingParts)))

theorem text_codeParts (ls : List Text) :
    (ls.map codePart).flatMap Part.text = Text.unlines ls := by
  rw [List.flatMap_map]
  rfl

theorem text_headerPart (l : Text) : (headerPart l).text = headerLine l ++ "\n" := by
  unfold headerPart headerLine
  split <;> rfl

theorem text_docParts (doc : Text) :
    (docParts doc).flatMap Part.text = Text.unlines (docLines doc) := by
  have htext : (docParts doc).flatMap Part.text =
      ("  /**\n" : Text) ++ (Text.unlines
        ((Text.replace "*/" "*&#47;" doc).commentLines.map docLine) ++ ("   " : Text) ++
          ("*/" : Text)) ++ ("\n" : Text) := rfl
  rw [htext, docLines, List.cons_append, Text.unlines_cons, Text.unlines_append]
  simp only [List.append_assoc]
  rfl

theorem text_factoryParts (p : Phrase) :
    (factoryParts p).flatMap Part.text = Text.unlines (factoryBlock p) := by
  rw [factoryParts, List.flatMap_append, text_codeParts, factoryBlock, List.append_assoc,
    Text.unlines_append ((p.documentation.map docLines).getD [])]
  cases p.documentation with
  | none => rfl
  | some doc => exact congrArg (· ++ Text.unlines (factoryLines p ++ [[]])) (text_docParts doc)

/-- The parts make up the source. -/
theorem text_parts (batch : Batch) (settings : Settings) :
    (parts batch settings).flatMap Part.text = text batch settings := by
  have hheader : (settings.header.commentLines.map headerPart).flatMap Part.text =
      Text.unlines (settings.header.commentLines.map headerLine) := by
    rw [List.flatMap_map, Text.unlines, List.flatMap_map]
    exact congrArg (List.flatMap · _) (funext text_headerPart)
  have hfactories : (batch.phrases.flatMap factoryParts).flatMap Part.text =
      Text.unlines (batch.phrases.flatMap factoryBlock) := by
    rw [List.flatMap_assoc, Text.unlines_flatMap]
    exact congrArg (List.flatMap · _) (funext text_factoryParts)
  have hending : endingParts.flatMap Part.text = Text.unlines ending := rfl
  rw [parts, List.flatMap_append, List.flatMap_append, List.flatMap_append, List.flatMap_append,
    hheader, text_codeParts, hfactories, text_codeParts, hending, text, lines, opening, introLines]
  simp only [Text.unlines_append, List.append_assoc]

/-! ## The parts are read as what they are -/

theorem wellFormed_codePart {l : Text} (h : PlainCode l) : (codePart l).WellFormed := by
  have hfeed : CodeText [.scalar '\n'] :=
    codeText_singleton (by decide) (by decide) (by decide)
  refine ⟨h.codeText.append hfeed, ?_⟩
  rw [List.mem_append, not_or]
  exact ⟨h.not_mem (by decide) (by decide), by decide⟩

theorem wellFormed_codeParts {ls : List Text} (h : ∀ l ∈ ls, PlainCode l) :
    ∀ p ∈ ls.map codePart, p.WellFormed := by
  intro p hp
  obtain ⟨l, hl, rfl⟩ := List.mem_map.mp hp
  exact wellFormed_codePart (h l hl)

theorem wellFormed_headerPart {header l : Text} (h : l ∈ header.commentLines) :
    (headerPart l).WellFormed := by
  refine CommentKind.fits_line_of_unbroken ?_
  split
  · decide
  · have hline := Text.unbroken_of_mem_commentLines h
    exact Text.Unbroken.append (s := [.scalar ' ']) (by decide) hline

/-- A blank text holds nothing that shows. -/
theorem not_mem_of_isBlank {t : Text} (h : t.isBlank = true) {c : CodePoint}
    (hc : c.isBlank = false) : c ∉ t := by
  intro hm
  rw [List.all_eq_true.mp h c hm] at hc
  exact Bool.noConfusion hc

section DocContent

variable {Q : Text → Prop} (hplain : ∀ t : Text, t.Unclosed → backslash ∉ t → Q t)
  (hseam : ∀ {c : CodePoint} {s t : Text}, CommentKind.block.Neutral c →
    (Q (s ++ c :: t) ↔ Q s ∧ Q t))

include hplain hseam

/-- What can be asked part by part can be asked of a line of documentation without its margin. -/
theorem docLine_iff (l : Text) : Q (docLine l) ↔ Q l := by
  unfold docLine
  split
  · next hblank =>
    have hslash : Text.slash ∉ l := not_mem_of_isBlank hblank (by decide)
    exact iff_of_true (hplain _ (by decide) (by decide))
      (hplain l (Text.unclosed_of_slash_not_mem hslash) (not_mem_of_isBlank hblank (by decide)))
  · have hmargin : Q "   *" := hplain _ (by decide) (by decide)
    show Q (("   *" : Text) ++ .scalar ' ' :: l) ↔ Q l
    rw [hseam (CommentKind.neutral_space _)]
    exact and_iff_right hmargin

/-- And of the whole comment line by line. -/
theorem docContent_iff (doc : Text) :
    Q (docContent doc) ↔ ∀ l ∈ (Text.replace "*/" "*&#47;" doc).commentLines, Q l := by
  have hlines : ∀ ls : List Text,
      Q (Text.unlines (ls.map docLine) ++ ("   " : Text)) ↔ ∀ l ∈ ls, Q l := by
    intro ls
    induction ls with
    | nil => exact iff_of_true (hplain _ (by decide) (by decide)) nofun
    | cons l ls ih =>
      rw [List.map_cons, Text.unlines_cons, List.append_assoc, List.cons_append,
        hseam CommentKind.neutral_lineFeed, docLine_iff hplain hseam, ih, List.forall_mem_cons]
  have hstar : Q [Text.star] := hplain _ (by decide) (by decide)
  rw [docContent, hseam CommentKind.neutral_lineFeed, hlines]
  exact and_iff_right hstar

end DocContent

theorem wellFormed_docParts (doc : Text) : ∀ part ∈ docParts doc, part.WellFormed := by
  have hcode : ∀ {t : Text}, t.all isCodeChar = true → backslash ∉ t → (Part.code t).WellFormed :=
    fun hall hbackslash => ⟨(plainCode_of_all hall).codeText, hbackslash⟩
  have hcontent : (docContent doc).Unclosed := by
    have hseam : ∀ {c : CodePoint} {s t : Text}, CommentKind.block.Neutral c →
        (Text.Unclosed (s ++ c :: t) ↔ Text.Unclosed s ∧ Text.Unclosed t) :=
      fun hc => CommentKind.fits_seam hc
    rw [docContent_iff (fun _ h _ => h) hseam]
    exact fun l hl => (Text.unclosed_replace doc).of_part (Text.infix_of_mem_commentLines hl)
  intro part hpart
  simp only [docParts, List.mem_cons, List.not_mem_nil, or_false] at hpart
  rcases hpart with rfl | rfl | rfl
  · exact hcode (by decide) (by decide)
  · exact hcontent
  · exact ⟨codeText_singleton (by decide) (by decide) (by decide), by decide⟩

theorem wellFormed_factoryParts {p : Phrase} (hp : p.Legal) :
    ∀ part ∈ factoryParts p, part.WellFormed := by
  have hcode : ∀ l ∈ factoryLines p ++ [[]], PlainCode l := by
    intro l hl
    rcases List.mem_append.mp hl with hl | hl
    · exact plainCode_factoryLines hp l hl
    · rw [List.mem_singleton.mp hl]
      exact PlainCode.nil
  intro part hpart
  rcases List.mem_append.mp hpart with hpart | hpart
  · cases hd : p.documentation with
    | none =>
      rw [hd] at hpart
      exact absurd hpart List.not_mem_nil
    | some doc =>
      rw [hd] at hpart
      exact wellFormed_docParts doc part hpart
  · exact wellFormed_codeParts hcode part hpart

theorem wellFormed_endingParts : ∀ p ∈ endingParts, p.WellFormed := by
  intro p hp
  simp only [endingParts, List.mem_append, List.mem_cons, List.not_mem_nil, or_false] at hp
  rcases hp with (hp | rfl | rfl) | hp
  · exact wellFormed_codeParts (fun l hl => plainCode_ending l (List.mem_append_left _ hl)) p hp
  · exact ⟨(plainCode_of_all (by decide)).codeText, by decide⟩
  · exact CommentKind.fits_line_of_unbroken (by decide)
  · exact wellFormed_codeParts (fun l hl => plainCode_ending l (List.mem_append_right _ hl)) p hp

theorem plainCode_introLines {package : Text} {imports : List Text}
    (hpackage : isPackageName package = true) (himports : ∀ i ∈ imports, isPackageName i = true) :
    ∀ l ∈ introLines package imports, PlainCode l := by
  intro l hl
  simp only [introLines, List.cons_append, List.mem_cons, List.mem_append, List.not_mem_nil,
    or_false] at hl
  rcases hl with rfl | rfl | hl | rfl
  · exact plainCode_packageLine hpackage
  · exact PlainCode.nil
  · rcases mem_importLines hl with rfl | ⟨i, hi, rfl⟩
    · exact PlainCode.nil
    · exact plainCode_importLine (himports i hi)
  · exact plainCode_of_all (by decide)

theorem wellFormed_parts {batch : Batch} {settings : Settings} (hb : batch.Legal)
    (himports : ∀ i ∈ settings.imports, isPackageName i = true) :
    ∀ p ∈ parts batch settings, p.WellFormed := by
  intro part hpart
  simp only [parts, List.mem_append] at hpart
  rcases hpart with hpart | hpart | hpart | hpart | hpart
  · obtain ⟨l, hl, rfl⟩ := List.mem_map.mp hpart
    exact wellFormed_headerPart hl
  · exact wellFormed_codeParts (plainCode_introLines hb.package himports) part hpart
  · obtain ⟨p, hp, hpart⟩ := List.mem_flatMap.mp hpart
    exact wellFormed_factoryParts (hb.phrases p hp) part hpart
  · refine wellFormed_codeParts (fun l hl => ?_) part hpart
    obtain ⟨p, hp, hl⟩ := List.mem_flatMap.mp hl
    exact plainCode_builderBlock (hb.phrases p hp) l hl
  · exact wellFormed_endingParts part hpart

/-! ## Survival of the comments -/

theorem survives_headerPart {header l : Text} (h : l ∈ header.commentLines) :
    (headerPart l).Survives ↔ CommentKind.line.StillFits l := by
  show CommentKind.line.StillFits (if l.isBlank then [] else .scalar ' ' :: l) ↔ _
  have hnil := CommentKind.stillFits_nil .line
  split
  · next hblank =>
    have hfits := CommentKind.fits_line_of_unbroken (Text.unbroken_of_mem_commentLines h)
    exact iff_of_true hnil (CommentKind.stillFits_of_backslash_not_mem
      (not_mem_of_isBlank hblank (by decide)) hfits)
  · show CommentKind.line.StillFits ([] ++ .scalar ' ' :: l) ↔ _
    rw [CommentKind.stillFits_seam (CommentKind.neutral_space .line)]
    exact and_iff_right hnil

theorem survives_docParts (doc : Text) :
    (∀ part ∈ docParts doc, part.Survives) ↔
      ∀ l ∈ (Text.replace "*/" "*&#47;" doc).commentLines, CommentKind.block.StillFits l := by
  rw [← docContent_iff (Q := CommentKind.block.StillFits)
    (fun _ h hbackslash => CommentKind.stillFits_of_backslash_not_mem hbackslash h)
    (fun hc => CommentKind.stillFits_seam hc)]
  simp only [docParts, List.forall_mem_cons, Part.Survives, true_and, and_true,
    List.not_mem_nil, false_imp_iff, implies_true]

/-- Code survives anyhow. -/
theorem survives_codeParts (ls : List Text) : ∀ p ∈ ls.map codePart, p.Survives := by
  intro p hp
  obtain ⟨l, -, rfl⟩ := List.mem_map.mp hp
  trivial

theorem survives_factoryParts (p : Phrase) :
    (∀ part ∈ factoryParts p, part.Survives) ↔ ∀ doc ∈ p.documentation,
      ∀ l ∈ (Text.replace "*/" "*&#47;" doc).commentLines, CommentKind.block.StillFits l := by
  rw [factoryParts, List.forall_mem_append, and_iff_left (survives_codeParts _)]
  cases p.documentation with
  | none => exact iff_of_true nofun nofun
  | some doc =>
    rw [show ((some doc).map docParts).getD [] = docParts doc from rfl, survives_docParts]
    simp only [Option.mem_some_iff, forall_eq']

theorem survives_endingParts : ∀ p ∈ endingParts, p.Survives := by
  intro p hp
  simp only [endingParts, List.mem_append, List.mem_cons, List.not_mem_nil, or_false] at hp
  rcases hp with (hp | rfl | rfl) | hp
  · exact survives_codeParts _ p hp
  · trivial
  · exact CommentKind.stillFits_of_backslash_not_mem (by decide)
      (CommentKind.fits_line_of_unbroken (by decide))
  · exact survives_codeParts _ p hp

/-- The parts of a source survive if the lines of its header and of its documentation do. -/
theorem survives_parts (batch : Batch) (settings : Settings) :
    (∀ p ∈ parts batch settings, p.Survives) ↔
      (∀ l ∈ settings.header.commentLines, CommentKind.line.StillFits l) ∧
        ∀ p ∈ batch.phrases, ∀ doc ∈ p.documentation,
          ∀ l ∈ (Text.replace "*/" "*&#47;" doc).commentLines, CommentKind.block.StillFits l := by
  have hheader : (∀ part ∈ settings.header.commentLines.map headerPart, part.Survives) ↔
      ∀ l ∈ settings.header.commentLines, CommentKind.line.StillFits l := by
    rw [List.forall_mem_map]
    exact forall₂_congr fun l hl => survives_headerPart hl
  have hfactories : (∀ part ∈ batch.phrases.flatMap factoryParts, part.Survives) ↔
      ∀ p ∈ batch.phrases, ∀ doc ∈ p.documentation,
        ∀ l ∈ (Text.replace "*/" "*&#47;" doc).commentLines, CommentKind.block.StillFits l := by
    rw [List.forall_mem_flatMap]
    exact forall₂_congr fun p _ => survives_factoryParts p
  rw [parts, List.forall_mem_append, List.forall_mem_append, List.forall_mem_append,
    List.forall_mem_append, hheader, hfactories]
  simp only [and_iff_right (survives_codeParts _), and_iff_left survives_endingParts]

/-- The source of a batch survives exactly if the texts of its comments do. -/
theorem survivesEscapes_text {batch : Batch} {settings : Settings} (hb : batch.Legal)
    (himports : ∀ i ∈ settings.imports, isPackageName i = true) :
    SurvivesEscapes (text batch settings) ↔
      (∀ l ∈ settings.header.commentLines, CommentKind.line.StillFits l) ∧
        ∀ p ∈ batch.phrases, ∀ doc ∈ p.documentation,
          ∀ l ∈ (Text.replace "*/" "*&#47;" doc).commentLines, CommentKind.block.StillFits l := by
  rw [← text_parts, survivesEscapes_iff (wellFormed_parts hb himports), survives_parts]

end Listing

/-- The source of an accepted batch with imports that are dotted names survives the translation of
Unicode escapes, that is, it can be translated and its comments begin and end where they did and its
code is left as it was, exactly if each line of the header can be translated without ending there,
and each line of documentation, printed without the end of a comment, can be translated without
ending one. -/
theorem survivesEscapes_sourceText_iff {batch : Batch} {settings : Settings}
    (hb : batch.check = .ok ()) (himports : ∀ i ∈ settings.imports, isPackageName i = true) :
    ∃ text, sourceText batch settings = .ok text ∧
      (SurvivesEscapes text ↔
        (∀ l ∈ settings.header.commentLines, CommentKind.line.StillFits l) ∧
          ∀ p ∈ batch.phrases, ∀ doc ∈ p.documentation,
            ∀ l ∈ (Text.replace "*/" "*&#47;" doc).commentLines, CommentKind.block.StillFits l) :=
  ⟨_, Listing.sourceText_eq (Or.inr hb),
    Listing.survivesEscapes_text (Batch.check_eq_ok_iff.mp hb) himports⟩

/-- A phrase with a harmless escape in its documentation, and with one that is escaped itself. -/
def quotient : Phrase := ⟨"quotient", some "a \\uu00f7 b\n\\\\users", ["a", "b"]⟩

/-- Its source survives. -/
theorem survivesEscapes_quotient :
    Batch.check ⟨"app", [quotient]⟩ = .ok () ∧
      (∀ i ∈ ({ } : Settings).imports, isPackageName i = true) ∧
      ∃ text, sourceText ⟨"app", [quotient]⟩ { } = .ok text ∧ SurvivesEscapes text := by
  refine ⟨rfl, by decide, ?_⟩
  have himports : ∀ i ∈ ({ } : Settings).imports, isPackageName i = true := by decide
  have hcheck : Batch.check ⟨"app", [quotient]⟩ = .ok () := rfl
  obtain ⟨text, htext, hiff⟩ := survivesEscapes_sourceText_iff hcheck himports
  refine ⟨text, htext, hiff.mpr ⟨?_, ?_⟩⟩
  · have hheader : ∀ l ∈ ({ } : Settings).header.commentLines, backslash ∉ l ∧ l.Unbroken := by
      decide
    intro l hl
    exact CommentKind.stillFits_of_backslash_not_mem (hheader l hl).1
      (CommentKind.fits_line_of_unbroken (hheader l hl).2)
  · intro p hp doc hdoc l hl
    obtain rfl := List.mem_singleton.mp hp
    obtain rfl := Option.mem_some_iff.mp hdoc
    have hlines : l ∈ [("a \\uu00f7 b" : Text), ("\\\\users" : Text)] := hl
    simp only [List.mem_cons, List.not_mem_nil, or_false] at hlines
    rcases hlines with rfl | rfl
    · exact ⟨"a \u00f7 b", by decide, by decide⟩
    · exact ⟨"\\\\users", by decide, by decide⟩

/-- A phrase whose documentation names a directory. -/
def userDirectory : Phrase := ⟨"dir", some "Found in C:\\users.", []⟩

/-- A phrase whose documentation spells a slash as an escape. -/
def spelledSlash : Phrase := ⟨"slash", some "*\\u002f int leaked; /*", []⟩

/-- The source of the one cannot be translated, and that of the other goes on with code where its
comment was. -/
theorem not_survivesEscapes :
    (Batch.check ⟨"a", [userDirectory]⟩ = .ok () ∧
      ∃ text, sourceText ⟨"a", [userDirectory]⟩ { } = .ok text ∧ translate text = none) ∧
    (Batch.check ⟨"a", [spelledSlash]⟩ = .ok () ∧
      ∃ text text', sourceText ⟨"a", [spelledSlash]⟩ { } = .ok text ∧ translate text = some text' ∧
        ⟨false, " int leaked; "⟩ ∈ pieces text' ∧ ¬ SurvivesEscapes text) := by
  have hleak : (translate (Listing.text ⟨"a", [spelledSlash]⟩ { })).any
      (fun text' => decide (⟨false, " int leaked; "⟩ ∈ pieces text')) = true := by decide +kernel
  obtain ⟨text', htranslate, hmem⟩ := (Option.any_eq_true _ _).mp hleak
  refine ⟨⟨rfl, _, Listing.sourceText_eq (Or.inr rfl), by decide +kernel⟩, rfl,
    Listing.text ⟨"a", [spelledSlash]⟩ { }, text', Listing.sourceText_eq (Or.inr rfl), htranslate,
    of_decide_eq_true hmem, ?_⟩
  intro hsurvives
  have hlegal : Batch.Legal ⟨"a", [spelledSlash]⟩ := Batch.check_eq_ok_iff.mp rfl
  have hdocs := ((Listing.survivesEscapes_text hlegal (by decide)).mp hsurvives).2
  -- the only line of the documentation
  obtain ⟨t, ht, hunclosed⟩ := hdocs spelledSlash (List.mem_singleton_self _) _ rfl
    "*\\u002f int leaked; /*" (by decide)
  have hclosing : translate "*\\u002f int leaked; /*" = some ("*/ int leaked; /*" : Text) := by
    decide
  rw [hclosing] at ht
  obtain rfl := Option.some.inj ht
  exact absurd hunclosed (by decide)

end Phrasebook
