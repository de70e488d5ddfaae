/-
# Phrasebook.Proofs.Java.Lines -- what is printed for a member, wherever it stands

The printer threads a layout through the tree and stops at the first slot that it does not support.
Both can be said without the layout: `memberFault?` is that first slot, and `memberLines` are the
lines of a member at level zero, those inside of it being moved one level in.  Printing a member is
then one of two things, it fails with the former or it adds the latter (`writeMember_eq`).
-/
import Phrasebook.Java.Printer
import Phrasebook.Proofs.Text.Split

namespace Phrasebook.Java

/-! ## Levels -/

theorem indentation_add (m n : Nat) : indentation (m + n) = indentation m ++ indentation n := by
  induction m with
  | zero => rw [Nat.zero_add, indentation, List.nil_append]
  | succ m ih => rw [Nat.succ_add, indentation, indentation, ih, List.append_assoc]

namespace Layout

/-- Levels add up, for empty lines too. -/
theorem atLevel_add (m n : Nat) (t : Text) : atLevel (m + n) t = atLevel m (atLevel n t) := by
  cases t with
  | nil => rfl
  | cons c cs =>
    have hne : (indentation n ++ c :: cs).isEmpty = false := by simp
    show indentation (m + n) ++ c :: cs = atLevel m (indentation n ++ c :: cs)
    rw [atLevel, hne, indentation_add, List.append_assoc]
    rfl

/-- At level zero lines are as they are. -/
theorem map_atLevel_zero (ts : List Text) : ts.map (atLevel 0) = ts := by
  have hzero : ∀ t : Text, atLevel 0 t = t := fun t => by cases t <;> rfl
  rw [List.map_congr_left fun t _ => hzero t, List.map_id']

theorem addLines_append (out : Layout) (xs ys : List Text) :
    out.addLines (xs ++ ys) = (out.addLines xs).addLines ys := List.foldl_append

/-- Lines added one level in are the lines, moved in, added at the level itself. -/
theorem dedent_addLines_indent (out : Layout) (ts : List Text) :
    (out.indent.addLines ts).dedent = .ok (out.addLines (ts.map (atLevel 1))) := by
  induction ts generalizing out with
  | nil => rfl
  | cons t ts ih =>
    -- Adding a line and going one level in can be exchanged, if the line is moved in.
    have hline : out.indent.line t = (out.line (atLevel 1 t)).indent := by
      show Layout.mk (out.lines.push (atLevel (out.level + 1) t)) (out.level + 1) = _
      rw [atLevel_add]
      rfl
    show ((out.indent.line t).addLines ts).dedent = _
    rw [hline, ih]
    rfl

/-- The layout, unless there is a fault. -/
def unlessFault (fault : Option PrintFault) (out : Layout) : Except PrintFault Layout :=
  match fault with
  | none => .ok out
  | some f => .error f

end Layout

/-! ## The lines of a member -/

/-- The lines of an item of a method body. -/
def bodyItemLines : Node → List Text
  | .comment text => commentSourceLines text
  | .statement code => [code ++ ";"]
  | _ => []

/-- What is wrong with an item of a method body. -/
def bodyItemFault? : Node → Option PrintFault
  | .comment _ | .statement _ => none
  | node => some (.unsupportedBodyItem node.sort)

/-- The lines of a method with its documentation. -/
def methodLines (head : MethodHead) (body : List Node) : List Text :=
  (head.javadoc.map javadocLines).getD [] ++
    head.opening :: (body.flatMap bodyItemLines).map (Layout.atLevel 1) ++ [closing]

/-- The documentation of a method stands before it. -/
theorem methodLines_eq (head : MethodHead) (body : List Node) :
    methodLines head body = (head.javadoc.map javadocLines).getD [] ++
      methodLines { head with javadoc := none } body := by
  unfold methodLines
  rw [List.append_assoc]
  rfl

mutual

/-- The lines of a member. -/
def memberLines : Node → List Text
  | .type head members =>
    head.opening :: (membersLines none members).map (Layout.atLevel 1) ++ [closing]
  | .method head body => methodLines head body
  | .field f => [f.source]
  | _ => []

/-- The lines of the members that follow a given one. -/
def membersLines : Option Node → List Node → List Text
  | _, [] => []
  | prev, node :: nodes =>
    (if separated prev node then [[]] else []) ++ memberLines node ++ membersLines (some node) nodes

end

mutual

/-- The first slot in a member that cannot be printed. -/
def memberFault? : Node → Option PrintFault
  | .type _ members => membersFault? members
  | .method _ body => body.findSome? bodyItemFault?
  | .field _ => none
  | node => some (.unsupportedMember node.sort)

/-- The first slot in a list of members that cannot be printed. -/
def membersFault? : List Node → Option PrintFault
  | [] => none
  | node :: nodes => (memberFault? node).or (membersFault? nodes)

end

theorem membersFault?_eq_none {nodes : List Node} :
    membersFault? nodes = none ↔ ∀ node ∈ nodes, memberFault? node = none := by
  induction nodes with
  | nil => simp [membersFault?]
  | cons node nodes ih => rw [membersFault?, Option.or_eq_none_iff, ih, List.forall_mem_cons]

/-! ## Printing adds the lines of a member or fails -/

theorem writeBodyItem_eq (out : Layout) (node : Node) :
    writeBodyItem out node =
      Layout.unlessFault (bodyItemFault? node) (out.addLines (bodyItemLines node)) := by
  cases node <;> rfl

theorem foldlM_writeBodyItem (body : List Node) (out : Layout) :
    body.foldlM writeBodyItem out =
      Layout.unlessFault (body.findSome? bodyItemFault?)
        (out.addLines (body.flatMap bodyItemLines)) := by
  induction body generalizing out with
  | nil => rfl
  | cons node nodes ih =>
    rw [List.foldlM_cons, writeBodyItem_eq, List.findSome?_cons, List.flatMap_cons,
      Layout.addLines_append]
    cases hf : bodyItemFault? node with
    | none => exact ih _
    | some f => rfl

/-- A block with an opening line, whose inner lines are printed one level in. -/
theorem block_eq (out : Layout) (opening : Text) (fault : Option PrintFault) (inner : List Text) :
    (do
      let out ← Layout.unlessFault fault ((out.line opening).indent.addLines inner)
      return (← out.dedent).line closing) =
    Layout.unlessFault fault
      (out.addLines (opening :: inner.map (Layout.atLevel 1) ++ [closing])) := by
  cases fault with
  | some f => rfl
  | none =>
    show ((out.line opening).indent.addLines inner).dedent >>= _ = _
    rw [Layout.dedent_addLines_indent, Layout.addLines_append]
    rfl

theorem writeMethod_eq (head : MethodHead) (body : List Node) (out : Layout) :
    writeMethod head body out =
      Layout.unlessFault (body.findSome? bodyItemFault?)
        (out.addLines (methodLines head body)) := by
  unfold writeMethod methodLines
  rw [List.append_assoc, Layout.addLines_append]
  cases head.javadoc with
  | none =>
    simp only [foldlM_writeBodyItem]
    exact block_eq out head.opening _ _
  | some doc =>
    simp only [foldlM_writeBodyItem]
    exact block_eq (out.addLines (javadocLines doc)) head.opening _ _

mutual

/-- Printing a member fails with its first fault, or adds its lines at the current level. -/
theorem writeMember_eq : ∀ (node : Node) (out : Layout),
    writeMember node out = Layout.unlessFault (memberFault? node) (out.addLines (memberLines node))
  | .type head members, out => by
    rw [writeMember, writeMembers_eq none members, memberFault?, memberLines]
    exact block_eq out head.opening _ _
  | .method head body, out => by
    rw [writeMember, writeMethod_eq, memberFault?, memberLines]
  | .field f, out => by
    rw [writeMember, memberFault?, memberLines]
    rfl
  | .absent, _ | .javadoc _, _ | .comment _, _ | .statement _, _ | .param _, _ | .file _ _, _ => by
    simp [writeMember, memberFault?, Layout.unlessFault]

/-- Printing members fails with their first fault, or adds their lines at the current level. -/
theorem writeMembers_eq : ∀ (prev : Option Node) (nodes : List Node) (out : Layout),
    writeMembers prev nodes out =
      Layout.unlessFault (membersFault? nodes) (out.addLines (membersLines prev nodes))
  | _, [], out => by
    rw [writeMembers, membersFault?, membersLines]
    rfl
  | prev, node :: nodes, out => by
    rw [writeMembers, membersFault?, membersLines, writeMember_eq node, Layout.addLines_append,
      Layout.addLines_append]
    have hspace : (if separated prev node then out.line [] else out) =
        out.addLines (if separated prev node then [[]] else []) := by
      split <;> rfl
    rw [hspace]
    cases memberFault? node with
    | some f => rfl
    | none => exact writeMembers_eq (some node) nodes _

end

/-! ## Members that are no fields -/

/-- Before a last member, members that are no fields are each followed by an empty line. -/
theorem membersLines_spaced (prev : Option Node) (hprev : ∀ node ∈ prev, node.isField = false)
    {nodes : List Node} (hnodes : ∀ node ∈ nodes, node.isField = false) (last : Node) :
    membersLines prev (nodes ++ [last]) =
      (if prev.isSome then [[]] else []) ++ nodes.flatMap (fun node => memberLines node ++ [[]]) ++
        memberLines last := by
  -- Without fields, whether an empty line is printed depends on there being a member before.
  have hsep : ∀ node, separated prev node = prev.isSome := by
    intro node
    cases prev with
    | none => rfl
    | some p => rw [separated, hprev p rfl, Bool.false_and]; rfl
  induction nodes generalizing prev with
  | nil =>
    rw [List.nil_append, membersLines, membersLines, hsep, List.append_nil, List.flatMap_nil,
      List.append_nil]
  | cons node nodes ih =>
    have hfield : node.isField = false := hnodes node (List.mem_cons_self ..)
    rw [List.cons_append, membersLines, hsep,
      ih (some node) (by rintro _ ⟨⟩; exact hfield)
        (fun n hn => hnodes n (List.mem_cons_of_mem _ hn))
        (by intro n; rw [separated, hfield, Bool.false_and]; rfl)]
    simp

/-! ## Files -/

/-- The line of an import. -/
def importLine (i : Text) : Text := "import " ++ i ++ ";"

/-- The lines before the type of a source file. -/
def headLines (file : FileHead) : List Text :=
  (file.header.map commentSourceLines).getD [] ++ ("package " ++ file.package ++ ";") :: [] ::
    if file.imports.isEmpty then [] else file.imports.map importLine ++ [[]]

theorem writeHead_eq (file : FileHead) : writeHead file = Layout.addLines { } (headLines file) := by
  have himports : ∀ out : Layout,
      (if file.imports.isEmpty then out else (out.addLines (file.imports.map importLine)).line []) =
        out.addLines
          (if file.imports.isEmpty then [] else file.imports.map importLine ++ [[]]) := by
    intro out
    split
    · rfl
    · rw [Layout.addLines_append]
      rfl
  unfold writeHead headLines
  rw [Layout.addLines_append]
  cases file.header with
  | none => exact himports _
  | some header => exact himports _

/-- Lines that are added to the head of a file give the text of all of them. -/
theorem text_addLines_writeHead (file : FileHead) (ts : List Text) :
    ((writeHead file).addLines ts).text = Text.unlines (headLines file ++ ts) := by
  have hne : headLines file ++ ts ≠ [] := by simp [headLines]
  rw [writeHead_eq, ← Layout.addLines_append, Layout.text, Layout.addLines_lines]
  show Text.join "\n" (List.map (Layout.atLevel 0) _) ++ "\n" = _
  rw [Layout.map_atLevel_zero, Text.join_append_newline hne]

/-- The text of a file with a type that can be printed. -/
theorem SourceFile.print_eq {file : SourceFile} {type : TypeDecl} (h : file.type = some type)
    (hf : memberFault? type.toNode = none) :
    file.print = .ok (Text.unlines (headLines file.toFileHead ++ memberLines type.toNode)) := by
  rw [SourceFile.print, h, ← text_addLines_writeHead]
  show (writeMember type.toNode _).map Layout.text = _
  rw [writeMember_eq, hf]
  rfl

end Phrasebook.Java
