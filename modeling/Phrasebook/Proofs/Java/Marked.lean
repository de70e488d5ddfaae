/-
# Phrasebook.Proofs.Java.Marked -- where the modifiers of a file are printed

A printed line is marked if it is said of it whether a declaration stands on it, at which level, and
which words are printed for the modifiers of that declaration; the rest of the line is the one that
the declaration has without modifiers.  `marked` gives the marked lines of a member.  Their texts
are what is printed for it, their declarations are its own in document order, and the words of each
one are its modifiers in ascending order.
-/
import Phrasebook.Proofs.Java.Modifier
import Phrasebook.Proofs.Java.Outline

namespace Phrasebook.Java

/-! ## Declarations -/

/-- A type, a method or a field, without what is inside of it. -/
inductive Declaration where
  | type (head : TypeHead)
  | method (head : MethodHead)
  | field (f : Field)

namespace Declaration

def modifiers : Declaration → List Modifier
  | type head => head.modifiers
  | method head => head.modifiers
  | field f => f.modifiers

/-- The line on which a declaration stands. -/
def line : Declaration → Text
  | type head => head.opening
  | method head => head.opening
  | field f => f.source

/-- The line of the same declaration without modifiers. -/
def bare : Declaration → Text
  | type head => { head with modifiers := [] }.opening
  | method head => { head with modifiers := [] }.opening
  | field f => { f with modifiers := [] }.source

theorem line_eq (d : Declaration) :
    d.line = Modifier.words (Modifier.sorted d.modifiers) ++ d.bare := by
  have hnone : Modifier.text [] = [] := rfl
  cases d with
  | type head =>
    simp only [line, modifiers, bare, TypeHead.opening, hnone, Modifier.text_eq_words,
      List.nil_append, List.append_assoc]
  | method head =>
    simp only [line, modifiers, bare, MethodHead.opening, hnone, Modifier.text_eq_words,
      List.nil_append, List.append_assoc]
  | field f =>
    simp only [line, modifiers, bare, Field.source, hnone, Modifier.text_eq_words,
      List.nil_append, List.append_assoc]

theorem bare_ne_nil : ∀ d : Declaration, d.bare ≠ []
  | type _ => TypeHead.opening_ne_nil _
  | method _ => MethodHead.opening_ne_nil _
  | field _ => Field.source_ne_nil _

end Declaration

mutual

/-- The declarations of a tree in document order. -/
def declarations : Node → List Declaration
  | .type head members => .type head :: declarationsOf members
  | .method head _ => [.method head]
  | .field f => [.field f]
  | _ => []

/-- The declarations among the members of a type and inside of them. -/
def declarationsOf : List Node → List Declaration
  | [] => []
  | node :: nodes => declarations node ++ declarationsOf nodes

end

/-- The declarations of a file in document order. -/
def SourceFile.declarations (file : SourceFile) : List Declaration :=
  (file.type.map (Java.declarations ·.toNode)).getD []

/-! ## Marked lines -/

/-- A line without a declaration, or one that shows words for the modifiers of a declaration. -/
inductive MarkedLine where
  | plain (text : Text)
  | declaring (level : Nat) (words : List Modifier) (d : Declaration)

namespace MarkedLine

/-- The line as it is printed. -/
def text : MarkedLine → Text
  | plain t => t
  | declaring level words d => indentation level ++ Modifier.words words ++ d.bare

/-- The declaration that stands on a line. -/
def declaration? : MarkedLine → Option Declaration
  | plain _ => none
  | declaring _ _ d => some d

/-- The words on a line are in ascending order, each as often as the declaration has it. -/
def InOrder : MarkedLine → Prop
  | plain _ => True
  | declaring _ words d => words.Perm d.modifiers ∧ words.Pairwise (· ≤ ·)

/-- The line without the repetitions among its words. -/
def unrepeated : MarkedLine → MarkedLine
  | plain t => plain t
  | declaring level words d => declaring level words.dedup d

/-- The line of a declaration at level zero. -/
def ofDeclaration (d : Declaration) : MarkedLine := declaring 0 (Modifier.sorted d.modifiers) d

/-- The line one level further in. -/
def moveIn : MarkedLine → MarkedLine
  | plain t => plain (Layout.atLevel 1 t)
  | declaring level words d => declaring (level + 1) words d

theorem text_ofDeclaration (d : Declaration) : (ofDeclaration d).text = d.line :=
  d.line_eq.symm

theorem inOrder_ofDeclaration (d : Declaration) : (ofDeclaration d).InOrder :=
  ⟨Modifier.perm_sorted d.modifiers, Modifier.pairwise_sorted d.modifiers⟩

theorem text_moveIn (l : MarkedLine) : l.moveIn.text = Layout.atLevel 1 l.text := by
  cases l with
  | plain t => rfl
  | declaring level words d =>
    have hne : indentation level ++ Modifier.words words ++ d.bare ≠ [] :=
      List.append_ne_nil_of_right_ne_nil _ d.bare_ne_nil
    rw [text, Layout.atLevel_of_ne_nil hne, moveIn, text, indentation, List.append_assoc,
      List.append_assoc, List.append_assoc]
    rfl

theorem declaration?_moveIn (l : MarkedLine) : l.moveIn.declaration? = l.declaration? := by
  cases l <;> rfl

theorem InOrder.moveIn {l : MarkedLine} (h : l.InOrder) : l.moveIn.InOrder := by
  cases l <;> exact h

end MarkedLine

/-- The marked lines of a block that a declaration opens. -/
def markedBlock (d : Declaration) (inner : List MarkedLine) : List MarkedLine :=
  .ofDeclaration d :: inner.map .moveIn ++ [.plain closing]

/-- The marked lines of a method with its documentation. -/
def markedMethod (head : MethodHead) (body : List Node) : List MarkedLine :=
  ((head.javadoc.map javadocLines).getD []).map .plain ++
    markedBlock (.method head) ((body.flatMap bodyItemLines).map .plain)

mutual

/-- The marked lines of a member. -/
def marked : Node → List MarkedLine
  | .type head members => markedBlock (.type head) (markedMembers none members)
  | .method head body => markedMethod head body
  | .field f => [.ofDeclaration (.field f)]
  | _ => []

/-- The marked lines of the members that follow a given one. -/
def markedMembers : Option Node → List Node → List MarkedLine
  | _, [] => []
  | prev, node :: nodes =>
    (if separated prev node then [[]] else []).map .plain ++ marked node ++
      markedMembers (some node) nodes

end

/-- The marked lines of a file. -/
def SourceFile.marked (file : SourceFile) : List MarkedLine :=
  (headLines file.toFileHead).map .plain ++ (file.type.map (Java.marked ·.toNode)).getD []

/-! ## Marked lines are those that are printed -/

/-- Marked lines for printed ones and for the declarations on them. -/
structure Marks (lines : List MarkedLine) (texts : List Text) (ds : List Declaration) : Prop where
  text_eq : lines.map MarkedLine.text = texts
  declared : lines.filterMap MarkedLine.declaration? = ds
  inOrder : ∀ l ∈ lines, l.InOrder

namespace Marks

variable {lines lines' : List MarkedLine} {texts texts' : List Text} {ds ds' : List Declaration}

theorem append (h : Marks lines texts ds) (h' : Marks lines' texts' ds') :
    Marks (lines ++ lines') (texts ++ texts') (ds ++ ds') where
  text_eq := by rw [List.map_append, h.text_eq, h'.text_eq]
  declared := by rw [List.filterMap_append, h.declared, h'.declared]
  inOrder := List.forall_mem_append.mpr ⟨h.inOrder, h'.inOrder⟩

/-- Lines without a declaration. -/
theorem plain (ts : List Text) : Marks (ts.map .plain) ts [] where
  text_eq := by
    rw [List.map_map]
    exact List.map_id ts
  declared := by
    rw [List.filterMap_map, List.filterMap_eq_nil_iff]
    exact fun _ _ => rfl
  inOrder := by
    intro l hl
    obtain ⟨t, -, rfl⟩ := List.mem_map.mp hl
    trivial

/-- The line of a declaration. -/
theorem declaration (d : Declaration) : Marks [.ofDeclaration d] [d.line] [d] where
  text_eq := by rw [List.map_singleton, MarkedLine.text_ofDeclaration]
  declared := rfl
  inOrder := List.forall_mem_singleton.mpr (MarkedLine.inOrder_ofDeclaration d)

theorem moveIn (h : Marks lines texts ds) :
    Marks (lines.map .moveIn) (texts.map (Layout.atLevel 1)) ds where
  text_eq := by
    rw [List.map_map, ← h.text_eq, List.map_map]
    exact List.map_congr_left fun l _ => l.text_moveIn
  declared := by
    rw [List.filterMap_map, ← h.declared]
    exact congrArg (lines.filterMap ·) (funext MarkedLine.declaration?_moveIn)
  inOrder := by
    intro _ hmem
    obtain ⟨l, hl, rfl⟩ := List.mem_map.mp hmem
    exact (h.inOrder l hl).moveIn

/-- A block, the lines inside of it being moved one level in. -/
theorem block (d : Declaration) (h : Marks lines texts ds) :
    Marks (markedBlock d lines) (d.line :: texts.map (Layout.atLevel 1) ++ [closing])
      (d :: ds) := by
  have hblock := ((declaration d).append h.moveIn).append (plain [closing])
  rw [List.append_nil] at hblock
  exact hblock

end Marks

theorem marks_method (head : MethodHead) (body : List Node) :
    Marks (markedMethod head body) (methodLines head body) [.method head] := by
  have hbody := Marks.block (.method head) (Marks.plain (body.flatMap bodyItemLines))
  rw [methodLines, List.append_assoc]
  exact (Marks.plain _).append hbody

mutual

/-- The marked lines of a member are the printed ones, and show its declarations. -/
theorem marks_marked : ∀ node : Node, Marks (marked node) (memberLines node) (declarations node)
  | .type head members => by
    rw [marked, memberLines, declarations]
    exact .block (.type head) (marks_markedMembers none members)
  | .method head body => by
    rw [marked, memberLines, declarations]
    exact marks_method head body
  | .field f => by
    rw [marked, memberLines, declarations]
    exact .declaration (.field f)
  | .absent | .javadoc _ | .comment _ | .statement _ | .param _ | .file _ _ => by
    rw [marked, memberLines, declarations]
    · exact .plain []
    all_goals simp

theorem marks_markedMembers : ∀ (prev : Option Node) (nodes : List Node),
    Marks (markedMembers prev nodes) (membersLines prev nodes) (declarationsOf nodes)
  | _, [] => by
    rw [markedMembers, membersLines, declarationsOf]
    exact .plain []
  | prev, node :: nodes => by
    rw [markedMembers, membersLines, declarationsOf]
    exact ((Marks.plain _).append (marks_marked node)).append
      (marks_markedMembers (some node) nodes)

end

/-! ## Files -/

/-- The fault of a file, if it cannot be printed. -/
def SourceFile.fault? (file : SourceFile) : Option PrintFault :=
  file.type.bind (memberFault? ·.toNode)

/-- The marked lines of a file show its declarations. -/
theorem SourceFile.marks_marked (file : SourceFile) :
    Marks file.marked (headLines file.toFileHead ++ (file.type.map (memberLines ·.toNode)).getD [])
      file.declarations := by
  have hhead := Marks.plain (headLines file.toFileHead)
  rw [SourceFile.marked, SourceFile.declarations]
  cases file.type with
  | none => exact hhead.append (.plain [])
  | some type => exact hhead.append (Java.marks_marked type.toNode)

/-- A file has a fault, or its marked lines are printed. -/
theorem SourceFile.print_eq_marked (file : SourceFile) :
    file.print = match file.fault? with
      | none => .ok (Text.unlines (file.marked.map MarkedLine.text))
      | some fault => .error fault := by
  rw [file.marks_marked.text_eq, ← text_addLines_writeHead, SourceFile.print, SourceFile.fault?]
  cases file.type with
  | none => rfl
  | some type =>
    show (writeMember type.toNode _).map Layout.text = match memberFault? type.toNode with
      | none => _
      | some fault => .error fault
    rw [writeMember_eq]
    cases memberFault? type.toNode <;> rfl

end Phrasebook.Java
