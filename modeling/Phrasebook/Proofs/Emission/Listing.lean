/-
# Phrasebook.Proofs.Emission.Listing -- the generated text, written straight down

`Listing.lines` writes the source of a batch from top to bottom, without steps, trees or
indentation levels: every line stands here as it is printed.  The text of a phrase comes in two
blocks, its factory and its builder, each of which ends with an empty line.

The printer arrives at the same text (`sourceText_eq_listing`).  Its rule is another one, an empty
line before every member but the first; the two agree because no member of the outer class is a
field and the last one is always there.
-/
import Phrasebook.Proofs.Emission.File
import Phrasebook.Proofs.Java.Lines

namespace Phrasebook

open Java

namespace Listing

/-! ## Lines in order -/

/-- A line of the header as a comment. -/
def headerLine (l : Text) : Text := if l.isBlank then "//" else "// " ++ l

/-- The line of the package. -/
def packageLine (package : Text) : Text := "package " ++ package ++ ";"

/-- The line of an import. -/
def importLine (i : Text) : Text := "import " ++ i ++ ";"

/-- The import lines and an empty line, if there are any. -/
def importLines : List Text → List Text
  | [] => []
  | imports => imports.map importLine ++ [[]]

/-- Everything up to the opening line of the class. -/
def opening (package : Text) (settings : Settings) : List Text :=
  settings.header.commentLines.map headerLine ++ packageLine package :: [] ::
    importLines settings.imports ++ [("public final class Phrase \x7b" : Text)]

/-- A line of documentation. -/
def docLine (l : Text) : Text := if l.isBlank then "   *" else "   * " ++ l

/-- The lines of documentation, in which no comment can be closed. -/
def docLines (doc : Text) : List Text :=
  let content := (Text.replace "*/" "*&#47;" doc).commentLines
  ("  /**" : Text) :: content.map docLine ++ [("   */" : Text)]

/-- The factory of a phrase. -/
def factoryLines (p : Phrase) : List Text := [
  "  public static Phrase_" ++ p.name ++ " " ++ p.name ++ "() \x7b",
  "    return new Phrase_" ++ p.name ++ "();",
  "  \x7d"]

/-- The documentation, if there is any, and the factory of a phrase, and an empty line. -/
def factoryBlock (p : Phrase) : List Text :=
  (p.documentation.map docLines).getD [] ++ factoryLines p ++ [[]]

/-- The setter for the token at a position. -/
def setterLines (p : Phrase) (position : Nat) (token : Text) : List Text := [
  "    public Phrase_" ++ p.name ++ " " ++ token ++ "(String " ++ token ++ ") \x7b",
  "      values[" ++ Text.ofNat position ++ "] = " ++ token ++ ";",
  "      return this;",
  "    \x7d"]

/-- The setters for the tokens from a position on, each after an empty line. -/
def settersLines (p : Phrase) : Nat → List Text → List Text
  | _, [] => []
  | i, t :: ts => [] :: setterLines p i t ++ settersLines p (i + 1) ts

/-- A token as a string literal. -/
def literal (token : Text) : Text := "\"" ++ token ++ "\""

/-- The opening line of the builder of a phrase, and its constructor. -/
def builderLines (p : Phrase) : List Text := [
  "  public static final class Phrase_" ++ p.name ++ " extends AbstractPhrase \x7b",
  "    private Phrase_" ++ p.name ++ "() \x7b",
  "      super(" ++ Text.join ", " (p.tokens.map literal) ++ ");",
  "    \x7d"]

/-- The builder class of a phrase, and an empty line. -/
def builderBlock (p : Phrase) : List Text :=
  builderLines p ++ settersLines p 0 p.tokens ++ [("  \x7d" : Text), []]

/-- Everything after the blocks of the phrases. -/
def ending : List Text := List.map Text.ofString [
  "  public abstract static class AbstractPhrase \x7b",
  "    private final String[] keys;",
  "    final String[] values;",
  "",
  "    private AbstractPhrase(String... keys) \x7b",
  "      this.keys = keys;",
  "      this.values = new String[keys.length];",
  "    \x7d",
  "",
  "    public final String build(View view) \x7b",
  "      return build(view.getContext().getResources());",
  "    \x7d",
  "",
  "    public final String build(Context context) \x7b",
  "      return build(context.getResources());",
  "    \x7d",
  "",
  "    public final String build(Resources res) \x7b",
  "      return \"\";",
  "      // TODO do actual replacement",
  "    \x7d",
  "  \x7d",
  "",
  "  private Phrase() \x7b",
  "    throw new AssertionError(\"No instances.\");",
  "  \x7d",
  "\x7d"]

/-- All lines of the source of a batch. -/
def lines (batch : Batch) (settings : Settings) : List Text :=
  opening batch.package settings ++ batch.phrases.flatMap factoryBlock ++
    batch.phrases.flatMap builderBlock ++ ending

/-- The source of a batch. -/
def text (batch : Batch) (settings : Settings) : Text := Text.unlines (lines batch settings)

/-! ## The members of the outer class, line by line -/

theorem docLines_eq (doc : Text) : (javadocLines doc).map (Layout.atLevel 1) = docLines doc := by
  have hline : Layout.atLevel 1 ∘ javadocLine = docLine := by
    funext l
    show Layout.atLevel 1 (javadocLine l) = docLine l
    unfold javadocLine docLine
    split <;> rfl
  rw [javadocLines, List.map_append, List.map_cons, List.map_map, hline]
  rfl

theorem factoryLines_eq (p : Phrase) :
    (methodLines
      { name := p.name, returnType := some p.className, modifiers := [.isPublic, .isStatic] }
      [.statement ("return new " ++ p.className ++ "()")]).map (Layout.atLevel 1) =
      factoryLines p := by
  simp only [methodLines, MethodHead.opening, bodyItemLines, List.flatMap_cons, List.flatMap_nil,
    Phrase.className, List.append_assoc, factoryLines]
  rfl

/-- A factory inside the outer class. -/
theorem factoryBlock_eq (p : Phrase) :
    (memberLines (factoryMethod p) ++ [[]]).map (Layout.atLevel 1) = factoryBlock p := by
  rw [factoryMethod, memberLines, methodLines_eq, List.map_append, List.map_append, factoryLines_eq,
    factoryBlock]
  cases p.documentation with
  | none => rfl
  | some doc =>
    show (javadocLines doc).map (Layout.atLevel 1) ++ _ ++ _ = _
    rw [docLines_eq]
    rfl

theorem setterLines_eq (p : Phrase) (position : Nat) (token : Text) :
    (memberLines (setter p token position)).map (Layout.atLevel 2) =
      setterLines p position token := by
  simp only [setter, memberLines, methodLines, MethodHead.opening, bodyItemLines,
    List.flatMap_cons, List.flatMap_nil, Phrase.className, List.append_assoc, setterLines,
    List.map_cons, List.map_nil, Text.join, List.intercalate_singleton]
  rfl

theorem builderLines_eq (p : Phrase) :
    Layout.atLevel 1 (builderClass p).opening ::
      (memberLines (builderConstructor p)).map (Layout.atLevel 2) = builderLines p := by
  simp only [builderConstructor, builderClass, memberLines, methodLines, TypeHead.opening,
    MethodHead.opening, bodyItemLines, List.flatMap_cons, List.flatMap_nil, Phrase.className,
    List.append_assoc, builderLines]
  rfl

/-- The setters after another method, each after an empty line. -/
theorem settersLines_eq (p : Phrase) {prev : Node} (hprev : prev.isField = false) (i : Nat)
    (tokens : List Text) :
    (membersLines (some prev) (settersFrom p i tokens)).map (Layout.atLevel 2) =
      settersLines p i tokens := by
  induction tokens generalizing i prev with
  | nil => rfl
  | cons t ts ih =>
    have hnext : (setter p t i).isField = false := rfl
    rw [settersFrom_cons, membersLines, separated, hprev, List.map_append, List.map_append,
      setterLines_eq, ih hnext]
    rfl

/-- A builder class inside the outer class. -/
theorem builderBlock_eq (p : Phrase) :
    (memberLines (builderClass p).toNode ++ [[]]).map (Layout.atLevel 1) = builderBlock p := by
  -- The members of the builder are two levels in, once for each class around them.
  have htwice : Layout.atLevel 1 ∘ Layout.atLevel 1 = Layout.atLevel 2 :=
    funext fun t => (Layout.atLevel_add 1 1 t).symm
  have hconstructor : (builderConstructor p).isField = false := rfl
  rw [TypeDecl.toNode, memberLines, members_builderClass, membersLines, builderBlock,
    ← builderLines_eq, ← settersLines_eq p hconstructor]
  simp only [separated, List.map_append, List.map_cons, List.map_map, htwice, List.append_assoc,
    List.cons_append]
  rfl

theorem ofString_append (s t : String) :
    Text.ofString s ++ Text.ofString t = Text.ofString (s ++ t) := by
  simp [Text.ofString]

theorem isEmpty_ofString (s : String) : (Text.ofString s).isEmpty = s.isEmpty := by
  rw [Text.ofString, List.isEmpty_map, Bool.eq_iff_iff, List.isEmpty_iff, String.isEmpty_iff,
    String.toList_eq_nil_iff]

/-- The base class and the hidden constructor.  The literals are joined as strings, which is much
less to compute than joining the texts that they stand for. -/
theorem ending_eq :
    (memberLines basePhraseClass.toNode ++ [[]] ++ memberLines hiddenConstructor).map
      (Layout.atLevel 1) ++ [closing] = ending := by
  have hempty : Text.ofString "" = [] := rfl
  have hcomment : commentSourceLines (Text.ofString "TODO do actual replacement") =
      [Text.ofString "// TODO do actual replacement"] := rfl
  simp [basePhraseClass, hiddenConstructor, buildOverload, phraseClassName, basePhraseClassName,
    TypeDecl.toNode, memberLines, membersLines, methodLines, bodyItemLines, separated, Node.isField,
    MethodHead.opening, TypeHead.opening, Field.source, closing, Modifier.text, Modifier.sorted,
    Modifier.all, Modifier.keyword, Text.join, Layout.atLevel, indentation, indentUnit, ending,
    ofString_append, isEmpty_ofString, hempty, hcomment]

/-- The lines of the outer class. -/
theorem memberLines_outer (phrases : List Phrase) :
    memberLines (outerClass phrases).toNode =
      ("public final class Phrase \x7b" : Text) :: (phrases.flatMap factoryBlock ++
        phrases.flatMap builderBlock ++ ending) := by
  -- The hidden constructor is the last member, so that an empty line follows every other one.
  have hmembers : outerMembers phrases = phrases.map factoryMethod ++
      (phrases.map fun p => (builderClass p).toNode) ++ [basePhraseClass.toNode] ++
        [hiddenConstructor] := by
    rw [outerMembers, List.append_assoc (_ ++ _)]
    rfl
  have hnoFields : ∀ node ∈ phrases.map factoryMethod ++
      (phrases.map fun p => (builderClass p).toNode) ++ [basePhraseClass.toNode],
        node.isField = false := fun node hm => by
    apply isField_outerMembers phrases
    rw [hmembers]
    exact List.mem_append_left _ hm
  have hfactories : (phrases.flatMap fun p => memberLines (factoryMethod p) ++ [[]]).map
      (Layout.atLevel 1) = phrases.flatMap factoryBlock := by
    rw [List.map_flatMap]
    exact congrArg (phrases.flatMap ·) (funext factoryBlock_eq)
  have hbuilders : (phrases.flatMap fun p => memberLines (builderClass p).toNode ++ [[]]).map
      (Layout.atLevel 1) = phrases.flatMap builderBlock := by
    rw [List.map_flatMap]
    exact congrArg (phrases.flatMap ·) (funext builderBlock_eq)
  rw [outerClass, TypeDecl.toNode, memberLines, hmembers,
    membersLines_spaced none (by rintro _ ⟨⟩) hnoFields hiddenConstructor, List.flatMap_append,
    List.flatMap_append, List.flatMap_map, List.flatMap_map, List.flatMap_singleton, ← ending_eq]
  simp only [List.map_append, hfactories, hbuilders, List.append_assoc, List.cons_append]
  rfl

theorem memberFault_outer (phrases : List Phrase) :
    memberFault? (outerClass phrases).toNode = none := by
  have hsetters : ∀ (p : Phrase) (i : Nat) (tokens : List Text),
      membersFault? (settersFrom p i tokens) = none := by
    intro p i tokens
    induction tokens generalizing i with
    | nil => rfl
    | cons t ts ih => exact ih (i + 1)
  rw [outerClass, TypeDecl.toNode, memberFault?, membersFault?_eq_none]
  intro node hm
  rcases mem_outerMembers hm with ⟨p, -, rfl⟩ | ⟨p, -, rfl⟩ | rfl | rfl
  · rfl
  · exact hsetters p 0 p.tokens
  · rfl
  · rfl

/-! ## The printed text -/

/-- The head of the printed file, and the opening line of its class. -/
theorem opening_eq (batch : Batch) (settings : Settings) :
    opening batch.package settings =
      headLines (generatedFile batch settings).toFileHead ++
        [("public final class Phrase \x7b" : Text)] := by
  have himports : importLines settings.imports =
      if settings.imports.isEmpty then [] else settings.imports.map importLine ++ [[]] := by
    cases settings.imports <;> rfl
  rw [opening, himports]
  rfl

/-- The printer arrives at the text that is written straight down. -/
theorem sourceText_eq {batch : Batch} {settings : Settings}
    (h : settings.validate = false ∨ batch.check = .ok ()) :
    sourceText batch settings = .ok (text batch settings) := by
  rw [sourceText, sourceFile_eq h]
  show ((generatedFile batch settings).print).mapError SourceFault.print = _
  rw [SourceFile.print_eq rfl (memberFault_outer batch.phrases), memberLines_outer, text, lines,
    opening_eq]
  simp only [List.append_assoc, List.cons_append, List.nil_append]
  rfl

end Listing

open Listing in
/-- The source of a batch whose names are unchecked or accepted is the one that is written straight
down.  Each phrase contributes two blocks that depend on nothing else, and what stands before and
after the blocks does not depend on the phrases. -/
theorem sourceText_eq_listing {batch : Batch} {settings : Settings}
    (h : settings.validate = false ∨ batch.check = .ok ()) :
    sourceText batch settings = .ok (Listing.text batch settings) ∧
      Listing.text batch settings =
        Text.unlines (opening batch.package settings) ++
          (batch.phrases.flatMap fun p => Text.unlines (factoryBlock p)) ++
          (batch.phrases.flatMap fun p => Text.unlines (builderBlock p)) ++
          Text.unlines ending := by
  refine ⟨sourceText_eq h, ?_⟩
  rw [Listing.text, Listing.lines, Text.unlines_append, Text.unlines_append,
    Text.unlines_append, Text.unlines_flatMap, Text.unlines_flatMap]

/-- A phrase with documentation and a token. -/
def welcome : Phrase := ⟨"welcome", some "Shown first.", ["first_name"]⟩

open Listing in
/-- The blocks of one phrase between the two fixed parts. -/
theorem sourceText_welcome :
    Batch.check ⟨"app.strings", [welcome]⟩ = .ok () ∧
      sourceText ⟨"app.strings", [welcome]⟩ { } =
        .ok (Listing.text ⟨"app.strings", [welcome]⟩ { }) :=
  ⟨rfl, (sourceText_eq_listing (Or.inr rfl)).1⟩

end Phrasebook
