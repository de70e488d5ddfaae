/-
# Phrasebook.Proofs.Java.Remodified -- trees that differ in their modifiers

`Node.Remodified R` relates trees that are the same but for the modifiers of their types, methods
and fields, at any depth, and whose modifiers `R` relates at each of these.  Such trees have the
same faults, and their marked lines differ in the words of the declarations alone.

So a file in which modifiers are put in another order is printed as it was.  If they are normalised,
then repeated words disappear, each together with its space, and nothing else changes.
-/
import Phrasebook.Proofs.Java.Marked
import Mathlib.Data.List.Forall2

namespace Phrasebook.Java

variable {R : List Modifier → List Modifier → Prop}

/-! ## Trees -/

/-- A node that has no modifiers, and no nodes inside of it. -/
def Node.isPlain : Node → Bool
  | absent | javadoc _ | comment _ | statement _ | param _ => true
  | _ => false

/-- Trees that are the same but for the modifiers of their declarations, which are related. -/
inductive Node.Remodified (R : List Modifier → List Modifier → Prop) : Node → Node → Prop
  | plain {node : Node} : node.isPlain → Remodified R node node
  | field {f : Field} {ms : List Modifier} :
      R f.modifiers ms → Remodified R (.field f) (.field { f with modifiers := ms })
  | method {head : MethodHead} {ms : List Modifier} {body body' : List Node} :
      R head.modifiers ms → List.Forall₂ (Remodified R) body body' →
      Remodified R (.method head body) (.method { head with modifiers := ms } body')
  | type {head : TypeHead} {ms : List Modifier} {members members' : List Node} :
      R head.modifiers ms → List.Forall₂ (Remodified R) members members' →
      Remodified R (.type head members) (.type { head with modifiers := ms } members')
  | file {head : FileHead} {type type' : Node} :
      Remodified R type type' → Remodified R (.file head type) (.file head type')

/-- Files that are the same but for the modifiers of their declarations, which are related. -/
structure SourceFile.Remodified (R : List Modifier → List Modifier → Prop)
    (file file' : SourceFile) : Prop where
  head : file.toFileHead = file'.toFileHead
  type : Option.Rel (fun t t' => Node.Remodified R t.toNode t'.toNode) file.type file'.type

mutual

/-- The tree with other modifiers at each of its declarations. -/
def Node.mapModifiers (f : List Modifier → List Modifier) : Node → Node
  | .field d => .field { d with modifiers := f d.modifiers }
  | .method head body =>
    .method { head with modifiers := f head.modifiers } (Node.mapModifiersOf f body)
  | .type head members =>
    .type { head with modifiers := f head.modifiers } (Node.mapModifiersOf f members)
  | .file head inner => .file head (inner.mapModifiers f)
  | node => node

/-- The trees with other modifiers at each of their declarations. -/
def Node.mapModifiersOf (f : List Modifier → List Modifier) : List Node → List Node
  | [] => []
  | node :: nodes => node.mapModifiers f :: Node.mapModifiersOf f nodes

end

/-- The file with other modifiers at each of its declarations. -/
def SourceFile.mapModifiers (f : List Modifier → List Modifier) (file : SourceFile) : SourceFile :=
  { file with type := file.type.map fun t =>
      { t with modifiers := f t.modifiers, members := Node.mapModifiersOf f t.members } }

mutual

theorem Node.remodified_mapModifiers (f : List Modifier → List Modifier) : ∀ node : Node,
    node.Remodified (fun ms ms' => ms' = f ms) (node.mapModifiers f)
  | .field d => by
    rw [Node.mapModifiers]
    exact .field rfl
  | .method head body => by
    rw [Node.mapModifiers]
    refine .method ?_ (Node.remodified_mapModifiersOf f body)
    rfl
  | .type head members => by
    rw [Node.mapModifiers]
    refine .type ?_ (Node.remodified_mapModifiersOf f members)
    rfl
  | .file head inner => by
    rw [Node.mapModifiers]
    exact .file (inner.remodified_mapModifiers f)
  | .absent | .javadoc _ | .comment _ | .statement _ | .param _ => .plain rfl

theorem Node.remodified_mapModifiersOf (f : List Modifier → List Modifier) : ∀ nodes : List Node,
    List.Forall₂ (Node.Remodified fun ms ms' => ms' = f ms) nodes (Node.mapModifiersOf f nodes)
  | [] => .nil
  | node :: nodes =>
    .cons (node.remodified_mapModifiers f) (Node.remodified_mapModifiersOf f nodes)

end

theorem SourceFile.remodified_mapModifiers (f : List Modifier → List Modifier)
    (file : SourceFile) : file.Remodified (fun ms ms' => ms' = f ms) (file.mapModifiers f) where
  head := rfl
  type := by
    unfold SourceFile.mapModifiers
    cases file.type with
    | none => exact .none
    | some type => exact .some (.type rfl (Node.remodified_mapModifiersOf f type.members))

/-! ## Faults and spacing -/

/-- Whether an empty line is printed is seen from which members are fields. -/
theorem separated_eq {prev prev' : Option Node} {node node' : Node}
    (hprev : prev.map Node.isField = prev'.map Node.isField)
    (hnode : node.isField = node'.isField) : separated prev node = separated prev' node' := by
  cases prev with
  | none =>
    cases prev' with
    | none => rfl
    | some p' => cases hprev
  | some p =>
    cases prev' with
    | none => cases hprev
    | some p' =>
      have hfield : p.isField = p'.isField := Option.some.inj hprev
      rw [separated, separated, hfield, hnode]

namespace Node.Remodified

variable {node node' : Node} {nodes nodes' : List Node}

theorem isField_eq (h : node.Remodified R node') : node.isField = node'.isField := by
  cases h <;> rfl

/-- Statements and comments have no modifiers. -/
theorem bodyItem_eq (h : node.Remodified R node') :
    bodyItemFault? node = bodyItemFault? node' ∧ bodyItemLines node = bodyItemLines node' := by
  cases h <;> exact ⟨rfl, rfl⟩

theorem body_eq (h : List.Forall₂ (Node.Remodified R) nodes nodes') :
    nodes.findSome? bodyItemFault? = nodes'.findSome? bodyItemFault? ∧
      nodes.flatMap bodyItemLines = nodes'.flatMap bodyItemLines := by
  induction h with
  | nil => exact ⟨rfl, rfl⟩
  | cons h _ ih =>
    rw [List.findSome?_cons, List.findSome?_cons, List.flatMap_cons, List.flatMap_cons,
      h.bodyItem_eq.1, h.bodyItem_eq.2, ih.1, ih.2]
    exact ⟨rfl, rfl⟩

end Node.Remodified

mutual

/-- Modifiers have no part in the fault of a member. -/
theorem memberFault?_remodified : ∀ {node node' : Node}, node.Remodified R node' →
    memberFault? node = memberFault? node'
  | .type _ _, _, h => by
    cases h with
    | plain h => cases h
    | type _ hmembers =>
      rw [memberFault?, memberFault?]
      exact membersFault?_remodified hmembers
  | .method _ _, _, h => by
    cases h with
    | plain h => cases h
    | method _ hbody =>
      rw [memberFault?, memberFault?]
      exact (Node.Remodified.body_eq hbody).1
  | .field _, _, h | .absent, _, h | .javadoc _, _, h | .comment _, _, h | .statement _, _, h
  | .param _, _, h | .file _ _, _, h => by
    cases h <;> rfl

theorem membersFault?_remodified : ∀ {nodes nodes' : List Node},
    List.Forall₂ (Node.Remodified R) nodes nodes' → membersFault? nodes = membersFault? nodes'
  | [], _, h => by
    cases h
    rfl
  | _ :: _, _, h => by
    cases h with
    | cons hnode hnodes =>
      rw [membersFault?, membersFault?, memberFault?_remodified hnode,
        membersFault?_remodified hnodes]

end

/-! ## Marked lines -/

/-- Declarations that are the same but for their modifiers, which are related. -/
structure Declaration.Remodified (R : List Modifier → List Modifier → Prop)
    (d d' : Declaration) : Prop where
  modifiers : R d.modifiers d'.modifiers
  bare : d.bare = d'.bare

namespace Declaration.Remodified

variable {ms : List Modifier}

theorem type {head : TypeHead} (h : R head.modifiers ms) :
    Declaration.Remodified R (.type head) (.type { head with modifiers := ms }) := ⟨h, rfl⟩

theorem method {head : MethodHead} (h : R head.modifiers ms) :
    Declaration.Remodified R (.method head) (.method { head with modifiers := ms }) := ⟨h, rfl⟩

theorem field {f : Field} (h : R f.modifiers ms) :
    Declaration.Remodified R (.field f) (.field { f with modifiers := ms }) := ⟨h, rfl⟩

end Declaration.Remodified

/-- Lines that are the same but for the modifiers of the declaration on them, which are related. -/
inductive MarkedLine.Remodified (R : List Modifier → List Modifier → Prop) :
    MarkedLine → MarkedLine → Prop
  | plain (t : Text) : Remodified R (.plain t) (.plain t)
  | declaring (level : Nat) {d d' : Declaration} :
      d.Remodified R d' →
      Remodified R (.declaring level (Modifier.sorted d.modifiers) d)
        (.declaring level (Modifier.sorted d'.modifiers) d')

theorem MarkedLine.Remodified.moveIn {l l' : MarkedLine} (h : l.Remodified R l') :
    l.moveIn.Remodified R l'.moveIn := by
  cases h with
  | plain t => exact .plain _
  | declaring level hd => exact .declaring (level + 1) hd

/-- Lines without a declaration stay as they are. -/
theorem remodified_plain (ts : List Text) :
    List.Forall₂ (MarkedLine.Remodified R) (ts.map .plain) (ts.map .plain) := by
  rw [List.forall₂_same]
  intro l hl
  obtain ⟨t, -, rfl⟩ := List.mem_map.mp hl
  exact .plain t

theorem remodified_markedBlock {d d' : Declaration} (hd : d.Remodified R d')
    {inner inner' : List MarkedLine}
    (h : List.Forall₂ (MarkedLine.Remodified R) inner inner') :
    List.Forall₂ (MarkedLine.Remodified R) (markedBlock d inner) (markedBlock d' inner') := by
  have hinner : List.Forall₂ (MarkedLine.Remodified R) (inner.map .moveIn)
      (inner'.map .moveIn) := by
    rw [List.forall₂_map_left_iff, List.forall₂_map_right_iff]
    exact h.imp fun _ _ => .moveIn
  exact List.rel_append (.cons (.declaring 0 hd) hinner) (remodified_plain [closing])

mutual

/-- The marked lines of a member keep everything but the words of its declarations. -/
theorem marked_remodified : ∀ {node node' : Node}, node.Remodified R node' →
    List.Forall₂ (MarkedLine.Remodified R) (marked node) (marked node')
  | .type _ _, _, h => by
    cases h with
    | plain h => cases h
    | type hms hmembers =>
      rw [marked, marked]
      exact remodified_markedBlock (.type hms) (markedMembers_remodified rfl hmembers)
  | .method _ _, _, h => by
    cases h with
    | plain h => cases h
    | method hms hbody =>
      rw [marked, marked, markedMethod, markedMethod, (Node.Remodified.body_eq hbody).2]
      exact List.rel_append (remodified_plain _)
        (remodified_markedBlock (.method hms) (remodified_plain _))
  | .field _, _, h => by
    cases h with
    | plain h => cases h
    | field hms =>
      rw [marked, marked]
      exact .cons (.declaring 0 (.field hms)) .nil
  | .absent, _, h | .javadoc _, _, h | .comment _, _, h | .statement _, _, h | .param _, _, h
  | .file _ _, _, h => by
    cases h <;> exact .nil

/-- An empty line before a member does not depend on modifiers either. -/
theorem markedMembers_remodified : ∀ {prev prev' : Option Node} {nodes nodes' : List Node},
    prev.map Node.isField = prev'.map Node.isField →
    List.Forall₂ (Node.Remodified R) nodes nodes' →
    List.Forall₂ (MarkedLine.Remodified R) (markedMembers prev nodes) (markedMembers prev' nodes')
  | _, _, [], _, _, h => by
    cases h
    rw [markedMembers, markedMembers]
    exact .nil
  | prev, prev', node :: nodes, _, hprev, h => by
    cases h with
    | @cons _ node' _ nodes' hnode hnodes =>
      -- the member that comes before the next one may have changed, but stays a field or none
      have hfield : (some node).map Node.isField = (some node').map Node.isField :=
        congrArg some hnode.isField_eq
      rw [markedMembers, markedMembers, separated_eq hprev hnode.isField_eq]
      exact List.rel_append (List.rel_append (remodified_plain _) (marked_remodified hnode))
        (markedMembers_remodified hfield hnodes)

end

/-! ## Files -/

namespace SourceFile

variable {file file' : SourceFile}

theorem fault?_remodified (h : file.Remodified R file') : file.fault? = file'.fault? := by
  obtain ⟨head, type⟩ := file
  obtain ⟨head', type'⟩ := file'
  cases h.type with
  | none => rfl
  | some htype => exact memberFault?_remodified htype

theorem marked_remodified (h : file.Remodified R file') :
    List.Forall₂ (MarkedLine.Remodified R) file.marked file'.marked := by
  obtain ⟨head, type⟩ := file
  obtain ⟨head', type'⟩ := file'
  -- modifiers stand in the type alone
  obtain rfl : head = head' := h.head
  refine List.rel_append (remodified_plain _) ?_
  cases h.type with
  | none => exact .nil
  | some htype => exact Java.marked_remodified htype

/-- A file with other modifiers has the fault of the first one, or its text is that of the marked
lines of the first one, where `f` tells what becomes of each. -/
theorem print_remodified (h : file.Remodified R file') {f : MarkedLine → Text}
    (hf : ∀ l l' : MarkedLine, l.Remodified R l' → f l = l'.text) :
    file'.print = match file.fault? with
      | none => .ok (Text.unlines (file.marked.map f))
      | some fault => .error fault := by
  have hlines : List.Forall₂ (· = ·) (file.marked.map f) (file'.marked.map MarkedLine.text) := by
    rw [List.forall₂_map_left_iff, List.forall₂_map_right_iff]
    exact (marked_remodified h).imp hf
  rw [List.forall₂_eq_eq_eq] at hlines
  rw [file'.print_eq_marked, ← fault?_remodified h]
  cases file.fault? with
  | none => exact congrArg (fun ts => Except.ok (Text.unlines ts)) hlines.symm
  | some fault => rfl

/-- Printed lines do not depend on the order in which modifiers are given. -/
theorem print_perm (h : file.Remodified List.Perm file') : file'.print = file.print := by
  rw [file.print_eq_marked]
  refine print_remodified h fun l l' hl => ?_
  cases hl with
  | plain t => rfl
  | declaring level hd =>
    rw [MarkedLine.text, MarkedLine.text, Modifier.sorted_perm hd.modifiers, hd.bare]

/-- The lines of a file with normalised modifiers are those of the file without the repetitions
among the words of a declaration. -/
theorem print_normalize (file : SourceFile) :
    (file.mapModifiers Modifier.normalize).print = match file.fault? with
      | none => .ok (Text.unlines (file.marked.map fun l => l.unrepeated.text))
      | some fault => .error fault := by
  refine print_remodified (file.remodified_mapModifiers Modifier.normalize) fun l l' hl => ?_
  cases hl with
  | plain t => rfl
  | declaring level hd =>
    rw [MarkedLine.unrepeated, MarkedLine.text, MarkedLine.text, Modifier.dedup_sorted,
      hd.modifiers, Modifier.sorted_normalize, hd.bare]

/-- The order in which the modifiers of a tree are given is of no account: if they are put in
another one, at any number of its declarations, then the file is printed as before, or has the same
fault.

Each declaration shows its modifiers in ascending order, with their multiplicities.  Normalising all
of them leaves out the words that are repeated, and nothing else changes.  The normal form of some
modifiers is the only list that has each of them once in ascending order; so it is its own normal
form, and it depends on which modifiers are given and on nothing else. -/
theorem print_modifiers (file : SourceFile) :
    (∀ file', file.Remodified List.Perm file' → file'.print = file.print) ∧
    (∀ text, file.print = .ok text → ∃ lines : List MarkedLine,
      text = Text.unlines (lines.map MarkedLine.text) ∧
      lines.filterMap MarkedLine.declaration? = file.declarations ∧
      (∀ l ∈ lines, l.InOrder) ∧
      (file.mapModifiers Modifier.normalize).print =
        .ok (Text.unlines (lines.map fun l => l.unrepeated.text))) ∧
    (∀ fault, file.print = .error fault →
      (file.mapModifiers Modifier.normalize).print = .error fault) ∧
    ∀ ms : List Modifier,
      (∀ ns, Modifier.IsNormalForm ms ns ↔ ns = Modifier.normalize ms) ∧
      Modifier.normalize (Modifier.normalize ms) = Modifier.normalize ms ∧
      ∀ ms', Modifier.normalize ms = Modifier.normalize ms' ↔ ∀ m, m ∈ ms ↔ m ∈ ms' := by
  have hprint := file.print_eq_marked
  have hnormal := file.print_normalize
  refine ⟨fun file' h => print_perm h, ?printed, ?faulty, fun ms => ?_⟩
  case printed =>
    intro text htext
    cases hfault : file.fault? with
    | some fault =>
      rw [hprint, hfault] at htext
      cases htext
    | none =>
      rw [hprint, hfault] at htext
      rw [hfault] at hnormal
      have hmarks := file.marks_marked
      exact ⟨file.marked, (Except.ok.inj htext).symm, hmarks.declared, hmarks.inOrder, hnormal⟩
  case faulty =>
    intro fault herror
    cases hfault : file.fault? with
    | none =>
      rw [hprint, hfault] at herror
      cases herror
    | some _ =>
      rw [hprint, hfault] at herror
      rw [hnormal, hfault]
      exact herror
  exact ⟨fun _ => Modifier.isNormalForm_iff, Modifier.normalize_normalize ms,
    fun _ => Modifier.normalize_eq_iff⟩

/-- A type with a type and a field inside of it, and a method in the former. -/
def modifierSample (outer field : List Modifier) : SourceFile :=
  { package := "a", type := some { name := "A", modifiers := outer, members := [
    .type { name := "B", modifiers := [.isStatic] }
      [.method ⟨"f", "int", [.isPublic, .isPublic], [], none⟩ []],
    .field ⟨"int", "x", field⟩] } }

/-- A file with repeated modifiers that are not in order. -/
def tangled : SourceFile := modifierSample [.isFinal, .isPublic, .isFinal] [.isStatic, .isPrivate]

/-- The same file with its modifiers in another order. -/
def retangled : SourceFile := modifierSample [.isFinal, .isFinal, .isPublic] [.isPrivate, .isStatic]

/-- What is printed for both of them. -/
def tangledText : Text :=
  "package a;\n\npublic final final class A \x7b\n  static class B \x7b\n" ++
    "    public public int f() \x7b\n    \x7d\n  \x7d\n\n  private static int x;\n\x7d\n"

theorem print_modifiers_tangled :
    tangled.Remodified List.Perm retangled ∧ retangled.print = tangled.print ∧
      tangled.print = .ok tangledText ∧
      ∃ lines : List MarkedLine,
        tangledText = Text.unlines (lines.map MarkedLine.text) ∧
        lines.filterMap MarkedLine.declaration? = tangled.declarations ∧
        (∀ l ∈ lines, l.InOrder) ∧
        (tangled.mapModifiers Modifier.normalize).print =
          .ok (Text.unlines (lines.map fun l => l.unrepeated.text)) := by
  have hperm : tangled.Remodified List.Perm retangled :=
    ⟨rfl, .some (.type (by decide) (.cons
      (.type (.refl _) (.cons (.method (.refl _) .nil) .nil))
      (.cons (.field (by decide)) .nil)))⟩
  have htext : tangled.print = .ok tangledText := rfl
  obtain ⟨hprint, hmarked, -⟩ := print_modifiers tangled
  exact ⟨hperm, hprint retangled hperm, htext, hmarked tangledText htext⟩

example : (tangled.mapModifiers Modifier.normalize).print = .ok
    ("package a;\n\npublic final class A \x7b\n  static class B \x7b\n" ++
      "    public int f() \x7b\n    \x7d\n  \x7d\n\n  private static int x;\n\x7d\n") := rfl

end SourceFile

end Phrasebook.Java
