/-
# Phrasebook.Proofs.Emission.Comments -- what is documented does not become code

Documentation and the header are free text that is printed into comments.  Here the comments are
taken out of the source again, by a reader who knows lines only: the line comments at its beginning,
and every block from a line that opens a comment to the first line after it that closes one.  What
remains is the source of the same batch without documentation and header, whatever those were.

Two things carry this.  A line of documentation is indented under its comment and ends no comment,
so that the line which does is the one that was printed for it.  And no line of code opens a comment.
-/
import Phrasebook.Proofs.Emission.Determined

namespace Phrasebook

open Java

namespace Java

/-! ## Taking comments out -/

/-- A line on which only a block comment is opened. -/
def opensBlock (l : Text) : Bool := l.dropWhile (· = .scalar ' ') = "/**"

/-- A line on which a block comment ends. -/
def closesBlock (l : Text) : Bool := Text.occursIn "*/" l

/-- A line that begins with a line comment. -/
def startsComment (l : Text) : Bool := (Text.ofString "//").isPrefixOf l

/-- The lines outside of block comments, from inside or outside of one. -/
def outsideBlocks : Bool → List Text → List Text
  | _, [] => []
  | true, l :: ls => outsideBlocks (!closesBlock l) ls
  | false, l :: ls => if opensBlock l then outsideBlocks true ls else l :: outsideBlocks false ls

/-- The lines without the line comments at their beginning and without block comments. -/
def codeLines (ls : List Text) : List Text := outsideBlocks false (ls.dropWhile startsComment)

/-- Lines that open no comment are kept. -/
theorem outsideBlocks_append {ls : List Text} (h : ∀ l ∈ ls, opensBlock l = false)
    (rest : List Text) : outsideBlocks false (ls ++ rest) = ls ++ outsideBlocks false rest := by
  induction ls with
  | nil => rfl
  | cons l ls ih =>
    have hl : ¬ opensBlock l = true := by
      rw [h l (List.mem_cons_self ..)]
      exact Bool.false_ne_true
    have htail := ih fun m hm => h m (List.mem_cons_of_mem l hm)
    rw [List.cons_append, outsideBlocks, if_neg hl, htail]
    rfl

/-- A comment is passed over to the line that closes it. -/
theorem outsideBlocks_inside {ls : List Text} (h : ∀ l ∈ ls, closesBlock l = false) {last : Text}
    (hlast : closesBlock last = true) (rest : List Text) :
    outsideBlocks true (ls ++ last :: rest) = outsideBlocks false rest := by
  induction ls with
  | nil =>
    show outsideBlocks (!closesBlock last) rest = _
    rw [hlast]
    rfl
  | cons l ls ih =>
    have htail := ih fun m hm => h m (List.mem_cons_of_mem l hm)
    rw [List.cons_append, outsideBlocks, h l (List.mem_cons_self ..)]
    exact htail

/-- A line that opens a comment holds a slash. -/
theorem opensBlock_of_slash_not_mem {l : Text} (h : Text.slash ∉ l) : opensBlock l = false := by
  rw [opensBlock, decide_eq_false_iff_not]
  intro hopen
  have hmem : Text.slash ∈ l.dropWhile (· = .scalar ' ') := by
    rw [hopen]
    decide
  exact h ((List.dropWhile_sublist _).mem hmem)

/-- Code opens no comment. -/
theorem PlainCode.opensBlock {l : Text} (h : PlainCode l) : opensBlock l = false :=
  opensBlock_of_slash_not_mem (h.not_mem (by decide) (by decide))

end Java

namespace Listing

/-! ## Documentation -/

/-- No line of documentation closes its comment. -/
theorem closesBlock_docLine {doc l : Text}
    (hl : l ∈ (Text.replace "*/" "*&#47;" doc).commentLines) : closesBlock (docLine l) = false := by
  -- neither the text before the replacement nor the cut into lines matters any more
  have hline : l.Unclosed := (Text.unclosed_replace doc).of_part (Text.infix_of_mem_commentLines hl)
  have hprinted : (docLine l).Unclosed := by
    unfold docLine
    split
    · decide
    · refine Text.unclosed_append.mpr ⟨by decide, hline, ?_⟩
      -- the prefix ends with a space
      rintro _ ⟨⟩ d - ⟨hstar, -⟩
      exact absurd hstar (by decide)
  rw [closesBlock, ← Bool.not_eq_true, Text.occursIn_iff_not_unclosed, not_not]
  exact hprinted

/-- The comment of documentation is taken out as a whole. -/
theorem outsideBlocks_docLines (doc : Text) (rest : List Text) :
    outsideBlocks false (docLines doc ++ rest) = outsideBlocks false rest := by
  have hinside : ∀ l ∈ (Text.replace "*/" "*&#47;" doc).commentLines.map docLine,
      closesBlock l = false := by
    intro l hl
    obtain ⟨m, hm, rfl⟩ := List.mem_map.mp hl
    exact closesBlock_docLine hm
  show outsideBlocks true (_ ++ [("   */" : Text)] ++ rest) = _
  rw [List.append_assoc]
  exact outsideBlocks_inside hinside (by decide) rest

/-! ## The whole source -/

/-- A phrase without its documentation. -/
def undocumented (p : Phrase) : Phrase := { p with documentation := none }

/-- What remains of a factory is the factory of the phrase without documentation. -/
theorem outsideBlocks_factoryBlock {p : Phrase} (hp : p.Legal) (rest : List Text) :
    outsideBlocks false (factoryBlock p ++ rest) =
      factoryBlock (undocumented p) ++ outsideBlocks false rest := by
  have hcode : ∀ l ∈ factoryLines p ++ [[]], opensBlock l = false := by
    intro l hl
    rcases List.mem_append.mp hl with hl | hl
    · exact (plainCode_factoryLines hp l hl).opensBlock
    · rw [List.mem_singleton.mp hl]
      exact PlainCode.nil.opensBlock
  have hbare : factoryBlock (undocumented p) = factoryLines p ++ [[]] := rfl
  rw [hbare, factoryBlock, List.append_assoc, List.append_assoc]
  cases p.documentation with
  | none =>
    show outsideBlocks false (factoryLines p ++ ([[]] ++ rest)) = _
    rw [← List.append_assoc, outsideBlocks_append hcode]
  | some doc =>
    show outsideBlocks false (docLines doc ++ (factoryLines p ++ ([[]] ++ rest))) = _
    rw [outsideBlocks_docLines, ← List.append_assoc, outsideBlocks_append hcode]

/-- What remains of all factories. -/
theorem outsideBlocks_factories {phrases : List Phrase} (h : ∀ p ∈ phrases, p.Legal)
    (rest : List Text) :
    outsideBlocks false (phrases.flatMap factoryBlock ++ rest) =
      (phrases.map undocumented).flatMap factoryBlock ++ outsideBlocks false rest := by
  induction phrases with
  | nil => rfl
  | cons p ps ih =>
    have htail := ih fun q hq => h q (List.mem_cons_of_mem p hq)
    rw [List.flatMap_cons, List.append_assoc,
      outsideBlocks_factoryBlock (h p (List.mem_cons_self ..)), htail, List.map_cons,
      List.flatMap_cons, List.append_assoc]

/-- The lines of the header begin with a line comment, and the line after them does not. -/
theorem dropWhile_opening (package : Text) (settings : Settings) (rest : List Text) :
    (opening package settings ++ rest).dropWhile startsComment =
      packageLine package :: [] :: importLines settings.imports ++
        [("public final class Phrase \x7b" : Text)] ++ rest := by
  have hheader : ∀ l ∈ settings.header.commentLines.map headerLine, startsComment l = true := by
    intro l hl
    obtain ⟨m, -, rfl⟩ := List.mem_map.mp hl
    unfold headerLine
    split
    · rfl
    · rfl
  rw [opening, List.append_assoc, List.append_assoc, List.append_assoc,
    List.dropWhile_append_of_pos hheader]
  rfl

/-- Apart from comments, the source of a batch is that of the batch without documentation. -/
theorem codeLines_lines {batch : Batch} (hb : batch.Legal) (settings : Settings) :
    codeLines (lines batch settings ++ [[]]) =
      packageLine batch.package :: [] :: importLines settings.imports ++
        [("public final class Phrase \x7b" : Text)] ++
        ((batch.phrases.map undocumented).flatMap factoryBlock ++
          (batch.phrases.flatMap builderBlock ++ (ending ++ [[]]))) := by
  have hopening : ∀ l ∈ packageLine batch.package :: [] :: importLines settings.imports ++
      [("public final class Phrase \x7b" : Text)], opensBlock l = false := by
    intro l hl
    simp only [List.cons_append, List.mem_append, List.mem_cons, List.not_mem_nil,
      or_false] at hl
    rcases hl with rfl | rfl | hl | rfl
    · exact (plainCode_packageLine hb.package).opensBlock
    · rfl
    · rcases mem_importLines hl with rfl | ⟨i, -, rfl⟩
      · rfl
      · rfl
    · rfl
  have hbuilders : ∀ l ∈ batch.phrases.flatMap builderBlock, opensBlock l = false := by
    intro l hl
    obtain ⟨p, hp, hl⟩ := List.mem_flatMap.mp hl
    exact (plainCode_builderBlock (hb.phrases p hp) l hl).opensBlock
  have hending : ∀ l ∈ ending ++ [[]], opensBlock l = false := by
    intro l hl
    rcases List.mem_append.mp hl with hl | hl
    · rcases mem_ending hl with hcode | rfl
      · exact hcode.opensBlock
      · decide
    · rw [List.mem_singleton.mp hl]
      rfl
  have hrest : outsideBlocks false (ending ++ [[]]) = ending ++ [[]] := by
    have hall := outsideBlocks_append hending []
    rwa [List.append_nil, outsideBlocks, List.append_nil] at hall
  rw [codeLines, lines, List.append_assoc, List.append_assoc, List.append_assoc, dropWhile_opening,
    outsideBlocks_append hopening, outsideBlocks_factories hb.phrases,
    outsideBlocks_append hbuilders, hrest]

/-- The lines of the source without documentation and with an empty header, after the first. -/
theorem tail_lines_bare (batch : Batch) (settings : Settings) :
    (lines ⟨batch.package, batch.phrases.map undocumented⟩ { settings with header := [] }).tail =
      packageLine batch.package :: [] :: importLines settings.imports ++
        [("public final class Phrase \x7b" : Text)] ++
        ((batch.phrases.map undocumented).flatMap factoryBlock ++
          (batch.phrases.flatMap builderBlock ++ ending)) := by
  have hbuilder : ∀ p, builderBlock (undocumented p) = builderBlock p := fun p =>
    builderBlock_congr rfl rfl
  have hbuilders : (batch.phrases.map undocumented).flatMap builderBlock =
      batch.phrases.flatMap builderBlock := by
    rw [List.flatMap_map]
    exact congrArg (batch.phrases.flatMap ·) (funext hbuilder)
  rw [lines, hbuilders, List.append_assoc, List.append_assoc]
  rfl

/-- The text of a source is cut at its line feeds into the lines that were printed. -/
theorem split_text {batch : Batch} {settings : Settings} (hb : batch.Legal)
    (himports : ∀ i ∈ settings.imports, (.scalar '\n' : CodePoint) ∉ i) :
    Text.split '\n' (text batch settings) = lines batch settings ++ [[]] := by
  have hlines : ∀ l ∈ lines batch settings, Text.OneLine l := not_mem_lines hb (by decide) himports
  exact Text.split_unlines hlines

end Listing

/-- A batch is legal with or without documentation. -/
theorem Batch.Legal.undocumented {batch : Batch} (h : batch.Legal) :
    Batch.Legal ⟨batch.package, batch.phrases.map Listing.undocumented⟩ := by
  refine ⟨h.package, ?_, ?_⟩
  · intro p hp
    obtain ⟨q, hq, rfl⟩ := List.mem_map.mp hp
    exact ⟨(h.phrases q hq).name, (h.phrases q hq).tokens, (h.phrases q hq).distinct⟩
  · rw [List.map_map]
    exact h.distinct

/-- What is documented does not become code.  Every line of the source of an accepted batch was
printed as one line and holds no other end of a line, and with the comments taken out the source is
that of the batch without documentation and with an empty header, except for the empty comment in
the first line of the latter. -/
theorem codeLines_sourceText {batch : Batch} {settings : Settings} (hb : batch.check = .ok ())
    (himports : ∀ i ∈ settings.imports,
      (.scalar '\n' : CodePoint) ∉ i ∧ (.scalar '\r' : CodePoint) ∉ i) :
    ∃ text bare, sourceText batch settings = .ok text ∧
      sourceText ⟨batch.package, batch.phrases.map Listing.undocumented⟩
        { settings with header := [] } = .ok bare ∧
      Text.split '\n' text = Listing.lines batch settings ++ [[]] ∧
      (∀ l ∈ Listing.lines batch settings,
        (.scalar '\n' : CodePoint) ∉ l ∧ (.scalar '\r' : CodePoint) ∉ l) ∧
      codeLines (Text.split '\n' text) = (Text.split '\n' bare).tail := by
  have hlegal := Batch.check_eq_ok_iff.mp hb
  have hfeeds := fun i hi => (himports i hi).1
  have hreturns := fun i hi => (himports i hi).2
  have hsplit := Listing.split_text hlegal hfeeds
  have hbare : Text.split '\n' (Listing.text _ { settings with header := [] }) = _ :=
    Listing.split_text hlegal.undocumented hfeeds
  refine ⟨_, _, Listing.sourceText_eq (Or.inr hb),
    Listing.sourceText_eq (Or.inr (Batch.check_eq_ok_iff.mpr hlegal.undocumented)), hsplit, ?_, ?_⟩
  · intro l hl
    exact ⟨Listing.not_mem_lines hlegal (by decide) hfeeds l hl,
      Listing.not_mem_lines hlegal (by decide) hreturns l hl⟩
  · have hne : Listing.lines ⟨batch.package, batch.phrases.map Listing.undocumented⟩
        { settings with header := [] } ≠ [] := List.cons_ne_nil _ _
    rw [hsplit, hbare, Listing.codeLines_lines hlegal, List.tail_append_of_ne_nil hne,
      Listing.tail_lines_bare]
    simp only [List.append_assoc]

/-- A phrase whose documentation looks like the end of its comment, code, and another comment. -/
def intruder : Phrase := ⟨"hello", some "*/ int x;\r/**\n*/\x0b   */*/", ["name"]⟩

/-- Settings whose header looks like code. -/
def intrudingHeader : Settings := { header := "x\r\npackage evil;\u2028/**" }

/-- Neither of them gets out of its comment. -/
theorem codeLines_intruder :
    Batch.check ⟨"app", [intruder]⟩ = .ok () ∧
      (∀ i ∈ intrudingHeader.imports,
        (.scalar '\n' : CodePoint) ∉ i ∧ (.scalar '\r' : CodePoint) ∉ i) ∧
      ∃ text bare, sourceText ⟨"app", [intruder]⟩ intrudingHeader = .ok text ∧
        sourceText ⟨"app", [Listing.undocumented intruder]⟩ { intrudingHeader with header := [] } =
          .ok bare ∧
        codeLines (Text.split '\n' text) = (Text.split '\n' bare).tail := by
  refine ⟨rfl, by decide, ?_⟩
  have himports : ∀ i ∈ intrudingHeader.imports,
      (.scalar '\n' : CodePoint) ∉ i ∧ (.scalar '\r' : CodePoint) ∉ i := by decide
  have hcheck : Batch.check ⟨"app", [intruder]⟩ = .ok () := rfl
  obtain ⟨text, bare, htext, hbare, -, -, hcode⟩ := codeLines_sourceText hcheck himports
  exact ⟨text, bare, htext, hbare, hcode⟩

end Phrasebook
