/-
# Phrasebook.Proofs.Java.LaidOut -- the layout of a printed file

A file with a type whose slots are supported is printed as lines that are laid out: they are those
of its outline, each with two spaces for every type or method that is open before it, and between
them stands an empty line in each gap and nowhere else.  That holds of comments with any text, and
of any other string as long as it is on one line.

Seen from the text alone, an empty line has no empty line next to it, it follows no line that ends
in an opening brace, and stands before none that ends in a closing one.
-/
import Phrasebook.Proofs.Java.Slots
import Phrasebook.Proofs.Java.Spacing
import Phrasebook.Proofs.Text.Closing
import Mathlib.Data.List.Chain

namespace Phrasebook

/-- A text ends in a character. -/
def Text.EndsIn (t : Text) (c : Char) : Prop := t.getLast? = some (.scalar c)

instance (t : Text) (c : Char) : Decidable (t.EndsIn c) :=
  inferInstanceAs (Decidable (t.getLast? = some (.scalar c)))

theorem Text.EndsIn.ne_nil {t : Text} {c : Char} (h : t.EndsIn c) : t ≠ [] := by
  rintro rfl
  cases h

theorem Text.EndsIn.append {t : Text} {c : Char} (h : t.EndsIn c) (s : Text) : (s ++ t).EndsIn c :=
  List.mem_getLast?_append_of_mem_getLast? h

theorem Text.EndsIn.unique {t : Text} {c d : Char} (hc : t.EndsIn c) (hd : t.EndsIn d) : c = d :=
  CodePoint.scalar.inj (Option.some.inj (hc.symm.trans hd))

namespace Java

/-! ## Strings that are no comments -/

mutual

/-- The strings of a tree, apart from the texts of comments and documentation. -/
def codeStrings : Node → List Text
  | .absent | .javadoc _ | .comment _ => []
  | .statement code => [code]
  | .param p => [p.type, p.name]
  | .field f => [f.type, f.name]
  | .method head body =>
    head.name :: head.returnType.toList ++ head.params.flatMap (fun p => [p.type, p.name]) ++
      codeStringsOf body
  | .type head members => head.kind :: head.name :: head.base.toList ++ codeStringsOf members
  | .file head type => head.package :: head.imports ++ codeStrings type

/-- The strings of several trees, apart from the texts of comments and documentation. -/
def codeStringsOf : List Node → List Text
  | [] => []
  | node :: nodes => codeStrings node ++ codeStringsOf nodes

end

/-- The strings of a file, apart from the texts of comments and documentation. -/
def SourceFile.codeStrings (file : SourceFile) : List Text :=
  file.package :: file.imports ++ (file.type.map (Java.codeStrings ·.toNode)).getD []

/-! ## The form of a line -/

/-- What the text of a line looks like for its role. -/
def Line.HasShape (l : Line) : Prop :=
  match l.role with
  | .comment => ("//" : Text) <+: l.text
  | .docOpening => l.text = "/**"
  | .doc => (" *" : Text) <+: l.text
  | .opening => l.text.EndsIn '\x7b'
  | .closing => l.text = "\x7d"
  | .package | .importing | .statement | .field => l.text.EndsIn ';'

/-- A single line that looks like its role. -/
structure Line.IsFormed (l : Line) : Prop where
  oneLine : l.text.OneLine
  shape : l.HasShape

theorem Line.HasShape.text_ne_nil {l : Line} (h : l.HasShape) : l.text ≠ [] := by
  obtain ⟨role, text⟩ := l
  rintro rfl
  cases role with
  | comment | doc => exact absurd (List.prefix_nil.mp h) (List.cons_ne_nil _ _)
  | docOpening | closing => exact absurd h.symm (List.cons_ne_nil _ _)
  | package | importing | opening | statement | field =>
    exact absurd rfl (Text.EndsIn.ne_nil h)

theorem oneLine_of_mem_commentLines {t l : Text} (h : l ∈ t.commentLines) : l.OneLine :=
  (Text.unbroken_of_mem_commentLines h).not_mem rfl

theorem isFormed_commentOutline (comment : Text) : ∀ l ∈ commentOutline comment, l.IsFormed := by
  intro l hl
  obtain ⟨t, ht, rfl⟩ := List.mem_map.mp hl
  obtain ⟨s, hs, rfl⟩ := List.mem_map.mp ht
  show Line.IsFormed ⟨.comment, commentLine s⟩
  unfold commentLine
  split
  · exact ⟨by decide, List.prefix_rfl⟩
  · exact ⟨Text.OneLine.append (by decide) (oneLine_of_mem_commentLines hs),
      ⟨" " ++ s, rfl⟩⟩

theorem isFormed_docOutline (doc : Text) : ∀ l ∈ docOutline doc, l.IsFormed := by
  intro l hl
  rcases List.mem_cons.mp hl with rfl | hl
  · exact ⟨by decide, rfl⟩
  obtain ⟨t, ht, rfl⟩ := List.mem_map.mp hl
  rcases List.mem_append.mp ht with ht | ht
  · obtain ⟨s, hs, rfl⟩ := List.mem_map.mp ht
    show Line.IsFormed ⟨.doc, javadocLine s⟩
    unfold javadocLine
    split
    · exact ⟨by decide, List.prefix_rfl⟩
    · exact ⟨Text.OneLine.append (by decide) (oneLine_of_mem_commentLines hs),
        ⟨" " ++ s, rfl⟩⟩
  · rw [List.mem_singleton.mp ht]
    exact ⟨by decide, ⟨"/", rfl⟩⟩

theorem oneLine_modifiers (ms : List Modifier) : (Modifier.text ms).OneLine :=
  Text.OneLine.flatMap fun m _ => by cases m <;> decide

theorem Field.isFormed (f : Field) (htype : f.type.OneLine) (hname : f.name.OneLine) :
    Line.IsFormed ⟨.field, f.source⟩ :=
  ⟨(((oneLine_modifiers f.modifiers).append htype).append (by decide)).append hname |>.append
    (by decide), .append (by decide) _⟩

theorem MethodHead.isFormed (head : MethodHead)
    (h : ∀ s ∈ head.name :: head.returnType.toList ++
      head.params.flatMap (fun p => [p.type, p.name]), s.OneLine) :
    (Line.opens head.opening).IsFormed := by
  rw [List.forall_mem_append, List.forall_mem_cons] at h
  obtain ⟨⟨hname, hreturn⟩, hparts⟩ := h
  have hparams : (Text.join ", " (head.params.map fun p => p.type ++ " " ++ p.name)).OneLine := by
    refine Text.OneLine.join (by decide) fun s hs => ?_
    obtain ⟨p, hp, rfl⟩ := List.mem_map.mp hs
    have htype := hparts p.type (List.mem_flatMap.mpr ⟨p, hp, by simp⟩)
    have hname := hparts p.name (List.mem_flatMap.mpr ⟨p, hp, by simp⟩)
    exact (htype.append (by decide)).append hname
  refine ⟨?oneLine, .append (by decide) _⟩
  show head.opening.OneLine
  unfold MethodHead.opening
  refine .append (.append (.append (.append (.append ?modifiers ?result) ?name) ?bracket) hparams)
    ?brace
  case modifiers => exact oneLine_modifiers head.modifiers
  case result =>
    cases hr : head.returnType with
    | none => exact List.not_mem_nil
    | some type => exact (hreturn type (by simp [hr])).append (by decide)
  case name => exact hname
  case bracket | brace => decide

theorem TypeHead.isFormed (head : TypeHead)
    (h : ∀ s ∈ head.kind :: head.name :: head.base.toList, s.OneLine) :
    (Line.opens head.opening).IsFormed := by
  rw [List.forall_mem_cons, List.forall_mem_cons] at h
  obtain ⟨hkind, hname, hextends⟩ := h
  refine ⟨?oneLine, .append (by decide) _⟩
  show head.opening.OneLine
  unfold TypeHead.opening
  refine .append (.append (.append (.append (.append ?modifiers ?kind) ?space) ?name) ?base) ?brace
  case modifiers => exact oneLine_modifiers head.modifiers
  case kind => exact hkind
  case name => exact hname
  case base =>
    cases hb : head.base with
    | none => exact List.not_mem_nil
    | some base =>
      show Text.OneLine (if base.isEmpty then [] else _)
      split
      · exact List.not_mem_nil
      · exact Text.OneLine.append (by decide) (hextends base (by simp [hb]))
  case space | brace => decide

theorem isFormed_closes : Line.closes.IsFormed := ⟨by decide, rfl⟩

theorem isFormed_bodyOutline {body : List Node} (h : ∀ s ∈ codeStringsOf body, s.OneLine) :
    ∀ l ∈ body.flatMap bodyItemOutline, l.IsFormed := by
  induction body with
  | nil => exact fun l hl => absurd hl List.not_mem_nil
  | cons node body ih =>
    rw [codeStringsOf, List.forall_mem_append] at h
    rw [List.flatMap_cons, List.forall_mem_append]
    refine ⟨?item, ih h.2⟩
    cases node with
    | comment text => exact isFormed_commentOutline text
    | statement code =>
      have hcode : code.OneLine := h.1 code (by simp [codeStrings])
      rw [bodyItemOutline, List.forall_mem_singleton]
      exact ⟨hcode.append (by decide), .append (by decide) code⟩
    | _ => exact fun l hl => absurd hl List.not_mem_nil

mutual

/-- The lines of a member are formed. -/
theorem isFormed_outline : ∀ {node : Node}, (∀ s ∈ codeStrings node, s.OneLine) →
    ∀ l ∈ outline node, l.IsFormed
  | .type head members, h, l, hl => by
    rw [codeStrings, List.forall_mem_append] at h
    rw [outline, List.cons_append, List.mem_cons, List.mem_append, List.mem_singleton] at hl
    rcases hl with rfl | hl | rfl
    · exact head.isFormed h.1
    · exact isFormed_outlines h.2 l hl
    · exact isFormed_closes
  | .method head body, h, l, hl => by
    rw [codeStrings, List.forall_mem_append] at h
    rw [outline, List.append_assoc, List.mem_append, List.cons_append, List.mem_cons,
      List.mem_append, List.mem_singleton] at hl
    rcases hl with hdoc | rfl | hbody | rfl
    · obtain ⟨doc, hdoc⟩ := exists_of_mem_getD hdoc
      exact isFormed_docOutline doc l hdoc
    · exact head.isFormed h.1
    · exact isFormed_bodyOutline h.2 l hbody
    · exact isFormed_closes
  | .field f, h, l, hl => by
    rw [codeStrings, List.forall_mem_cons, List.forall_mem_singleton] at h
    rw [outline, List.mem_singleton] at hl
    exact hl ▸ f.isFormed h.1 h.2
  | .absent, _, _, hl | .javadoc _, _, _, hl | .comment _, _, _, hl | .statement _, _, _, hl
  | .param _, _, _, hl | .file _ _, _, _, hl => by
    simp [outline] at hl

/-- The lines of members are formed. -/
theorem isFormed_outlines : ∀ {nodes : List Node}, (∀ s ∈ codeStringsOf nodes, s.OneLine) →
    ∀ l ∈ outlines nodes, l.IsFormed
  | [], _, _, hl => by simp [outlines] at hl
  | node :: nodes, h, l, hl => by
    rw [codeStringsOf, List.forall_mem_append] at h
    rw [outlines, List.mem_append] at hl
    exact hl.elim (isFormed_outline h.1 l) (isFormed_outlines h.2 l)

end

/-- The lines of a file are formed. -/
theorem SourceFile.isFormed_outline {file : SourceFile} (h : ∀ s ∈ file.codeStrings, s.OneLine) :
    ∀ l ∈ file.outline, l.IsFormed := by
  rw [SourceFile.codeStrings, List.forall_mem_append, List.forall_mem_cons] at h
  obtain ⟨⟨hpackage, himports⟩, htype⟩ := h
  rw [SourceFile.outline, List.forall_mem_append, List.forall_mem_cons, List.forall_mem_append]
  refine ⟨?header, ?package, ?imports, ?type⟩
  case header =>
    intro l hl
    obtain ⟨comment, hl⟩ := exists_of_mem_getD hl
    exact isFormed_commentOutline comment l hl
  case package =>
    exact ⟨(Text.OneLine.append (by decide) hpackage).append (by decide), .append (by decide) _⟩
  case imports =>
    intro l hl
    obtain ⟨i, hi, rfl⟩ := List.mem_map.mp hl
    exact ⟨(Text.OneLine.append (by decide) (himports i hi)).append (by decide),
      .append (by decide) _⟩
  case type =>
    unfold SourceFile.typeOutline
    cases hfile : file.type with
    | none => exact fun l hl => absurd hl List.not_mem_nil
    | some type =>
      rw [hfile] at htype
      exact Java.isFormed_outline htype

/-! ## Lines next to each other -/

/-- What a line of a spaced outline is printed as. -/
def Stands : Option Line → Text → Prop
  | none, t => t = []
  | some l, t => l.IsFormed ∧ ∃ depth, t = indentation depth ++ l.text

/-- Each line stands at some depth. -/
theorem Indented.stands {depth depth' : Nat} {ls : List (Option Line)} {ts : List Text}
    (h : Indented depth ls ts depth') (hls : ∀ l, some l ∈ ls → l.IsFormed) :
    List.Forall₂ Stands ls ts := by
  have hcons : ∀ {depth : Nat} {l : Line} {ls : List (Option Line)} {ts : List Text},
      (∀ m, some m ∈ some l :: ls → m.IsFormed) →
      ((∀ m, some m ∈ ls → m.IsFormed) → List.Forall₂ Stands ls ts) →
      List.Forall₂ Stands (some l :: ls) ((indentation depth ++ l.text) :: ts) :=
    fun hls ih => .cons ⟨hls _ (List.mem_cons_self ..), _, rfl⟩
      (ih fun m hm => hls m (List.mem_cons_of_mem _ hm))
  induction h with
  | nil => exact .nil
  | gap _ ih => exact .cons rfl (ih fun m hm => hls m (List.mem_cons_of_mem _ hm))
  | opening _ _ ih | closing _ _ ih | inner _ _ ih => exact hcons hls ih

/-- What two neighbours have to be: next to a gap, a declaration ends or begins. -/
def Neighbours (a b : Option Line) : Prop :=
  (a = none → ∃ y ∈ b, y.role.begins) ∧ (b = none → ∃ x ∈ a, x.role.ends)

theorem head?_spaced (ls : List Line) : (spaced ls).head? = ls.head?.map some := by
  cases ls <;> rfl

theorem mem_spaced {l : Line} {ls : List Line} (h : some l ∈ spaced ls) : l ∈ ls := by
  induction ls with
  | nil => exact absurd h List.not_mem_nil
  | cons x ls ih =>
    rw [spaced, List.mem_cons, Option.some.injEq] at h
    rcases h with rfl | h
    · exact List.mem_cons_self ..
    · refine List.mem_cons_of_mem x (ih ?_)
      split at h
      · exact (List.mem_cons.mp h).resolve_left (Option.some_ne_none l)
      · exact h

theorem isChain_spaced (ls : List Line) : (spaced ls).IsChain Neighbours := by
  induction ls with
  | nil => exact .nil
  | cons x ls ih =>
    have hhead : ∀ b ∈ (spaced ls).head?, ∃ y ∈ ls.head?, b = some y := by
      intro b hb
      rw [head?_spaced] at hb
      obtain ⟨y, hy, hb⟩ := Option.map_eq_some_iff.mp hb
      exact ⟨y, hy, hb.symm⟩
    rw [spaced]
    split
    case isTrue hparted =>
      obtain ⟨x', hx, y, hy, hsep⟩ := parted_iff.mp hparted
      obtain rfl : x = x' := Option.some.inj hx
      refine List.isChain_cons_cons.mpr
        ⟨⟨fun h => absurd h (Option.some_ne_none x), fun _ => ⟨x, rfl, Role.ends_of_separates hsep⟩⟩,
          List.isChain_cons.mpr ⟨?_, ih⟩⟩
      intro b hb
      obtain ⟨y', hy', rfl⟩ := hhead b hb
      obtain rfl : y = y' := Option.some.inj (hy.symm.trans hy')
      exact ⟨fun _ => ⟨y, rfl, Role.begins_of_separates hsep⟩,
        fun h => absurd h (Option.some_ne_none y)⟩
    case isFalse =>
      refine List.isChain_cons.mpr ⟨fun b hb => ?_, ih⟩
      obtain ⟨y, -, rfl⟩ := hhead b hb
      exact ⟨fun h => absurd h (Option.some_ne_none x), fun h => absurd h (Option.some_ne_none y)⟩

theorem Line.HasShape.endsIn_of_begins {l : Line} (h : l.HasShape) (hbegins : l.role.begins) :
    ∃ c, l.text.EndsIn c ∧ c ≠ '\x7d' := by
  obtain ⟨role, text⟩ := l
  cases role with
  | importing | field => exact ⟨';', h, by decide⟩
  | opening => exact ⟨_, h, by decide⟩
  | docOpening => exact ⟨'*', congrArg List.getLast? h, by decide⟩
  | comment | package | doc | statement | closing => exact Bool.noConfusion hbegins

theorem Line.HasShape.endsIn_of_ends {l : Line} (h : l.HasShape) (hends : l.role.ends) :
    ∃ c, l.text.EndsIn c ∧ c ≠ '\x7b' := by
  obtain ⟨role, text⟩ := l
  cases role with
  | package | importing | field => exact ⟨';', h, by decide⟩
  | closing => exact ⟨'\x7d', congrArg List.getLast? h, by decide⟩
  | comment | docOpening | doc | opening | statement => exact Bool.noConfusion hends

/-- What may stand on a line and on the next one: empty lines do not adjoin each other, and none
stands directly inside of the braces of a block. -/
def MayAdjoin (s t : Text) : Prop :=
  (s = [] → t ≠ [] ∧ ¬ t.EndsIn '\x7d') ∧ (t = [] → ¬ s.EndsIn '\x7b')

theorem Stands.ne_nil {l : Line} {t : Text} (h : Stands (some l) t) : t ≠ [] := by
  obtain ⟨hl, depth, rfl⟩ := h
  exact List.append_ne_nil_of_right_ne_nil _ hl.shape.text_ne_nil

theorem Stands.mayAdjoin {a b : Option Line} {s t : Text} (ha : Stands a s) (hb : Stands b t)
    (h : Neighbours a b) : MayAdjoin s t := by
  constructor
  · intro hs
    obtain rfl : a = none := Option.eq_none_iff_forall_ne_some.mpr fun l hl => by
      subst hl
      exact ha.ne_nil hs
    obtain ⟨y, hy, hbegins⟩ := h.1 rfl
    obtain rfl : b = some y := hy
    refine ⟨hb.ne_nil, fun hclosing => ?_⟩
    obtain ⟨hl, depth, rfl⟩ := hb
    obtain ⟨c, hc, hne⟩ := hl.shape.endsIn_of_begins hbegins
    exact hne ((hc.append _).unique hclosing)
  · intro ht hopening
    obtain rfl : b = none := Option.eq_none_iff_forall_ne_some.mpr fun l hl => by
      subst hl
      exact hb.ne_nil ht
    obtain ⟨x, hx, hends⟩ := h.2 rfl
    obtain rfl : a = some x := hx
    obtain ⟨hl, depth, rfl⟩ := ha
    obtain ⟨c, hc, hne⟩ := hl.shape.endsIn_of_ends hends
    exact hne ((hc.append _).unique hopening)

/-- Neighbours among the printed lines are printed neighbours. -/
theorem isChain_of_stands {ls : List (Option Line)} {ts : List Text}
    (h : List.Forall₂ Stands ls ts) (hls : ls.IsChain Neighbours) : ts.IsChain MayAdjoin := by
  induction h with
  | nil => exact .nil
  | @cons a s ls ts ha h ih =>
    cases h with
    | nil => exact .singleton s
    | cons hb h =>
      obtain ⟨hab, hls⟩ := List.isChain_cons_cons.mp hls
      exact List.isChain_cons_cons.mpr ⟨ha.mayAdjoin hb hab, ih hls⟩

theorem oneLine_indentation (depth : Nat) : (indentation depth).OneLine := by
  induction depth with
  | zero => exact List.not_mem_nil
  | succ depth ih => exact Text.OneLine.append (by decide) ih

theorem Stands.oneLine {o : Option Line} {t : Text} (h : Stands o t) : t.OneLine := by
  cases o with
  | none => exact h ▸ List.not_mem_nil
  | some l =>
    obtain ⟨hl, depth, rfl⟩ := h
    exact (oneLine_indentation depth).append hl.oneLine

theorem oneLine_of_stands {ls : List (Option Line)} {ts : List Text}
    (h : List.Forall₂ Stands ls ts) : ∀ t ∈ ts, t.OneLine := by
  induction h with
  | nil => exact fun t ht => absurd ht List.not_mem_nil
  | cons ha _ ih => exact List.forall_mem_cons.mpr ⟨ha.oneLine, ih⟩

/-! ## Printed files -/

/-- Lines of a text that are laid out as the lines of a file. -/
structure SourceFile.LaidOut (file : SourceFile) (lines : List Text) : Prop where
  /-- The lines are those of the outline, each as deep as it stands, and spaced where the outline is
  parted. -/
  indented : Indented 0 (spaced file.outline) lines 0
  /-- The outline is parted in the gaps of the file and nowhere else. -/
  gaps : ∀ before after, file.outline = before ++ after →
    (parted before after ↔ file.Gap before after)
  /-- Lines of the outline look like their roles, and none of them is empty. -/
  shape : ∀ l ∈ file.outline, l.HasShape ∧ l.text ≠ []
  /-- Empty lines do not adjoin each other or the inside of braces. -/
  adjoin : lines.IsChain MayAdjoin
  /-- The last line closes the type. -/
  last : lines.getLast? = some closing

/-- A file with a type is printed as lines that are laid out, with a newline after each, if its
slots are supported and its strings, apart from the texts of comments, are on one line. -/
theorem SourceFile.print_laidOut {file : SourceFile} {type : TypeDecl}
    (htype : file.type = some type) (hslots : ∀ slot, file.Reaches slot → slot.isSupported)
    (hstrings : ∀ s ∈ file.codeStrings, s.OneLine) :
    ∃ text lines, file.print = .ok text ∧ Text.split '\n' text = lines ++ [[]] ∧
      file.LaidOut lines := by
  have hfault : memberFault? type.toNode = none :=
    memberFault?_eq_none rfl fun slot hslot => hslots slot ⟨type, htype, hslot⟩
  have hformed := isFormed_outline hstrings
  have hindented := indented_outline htype hfault
  have hstands := hindented.stands fun l hl => hformed l (mem_spaced hl)
  refine ⟨_, _, print_eq htype hfault, Text.split_unlines (oneLine_of_stands hstands), hindented,
    fun _ _ => parted_iff_gap htype hfault,
    fun l hl => ⟨(hformed l hl).shape, (hformed l hl).shape.text_ne_nil⟩,
    isChain_of_stands hstands (isChain_spaced _), ?last⟩
  case last =>
    rw [TypeDecl.toNode, memberLines, ← List.append_assoc]
    exact List.getLast?_concat

/-- A file with nested types, consecutive fields, documentation, and line breaks in its comments. -/
def nested : SourceFile where
  package := "app"
  header := some "Generated.\nDo not edit."
  imports := ["java.util.List"]
  type := some {
    name := "A"
    members := [
      .field { type := "int", name := "x" },
      .field { type := "int", name := "y" },
      .type { name := "B" } [
        .method { name := "f", returnType := some "void", javadoc := some "First.\n\nLast." }
          [.statement "x = 1", .comment "one\n\x7b"],
        .type { name := "C" } []]] }

theorem SourceFile.nested_laidOut :
    (∀ slot, nested.Reaches slot → slot.isSupported) ∧ (∀ s ∈ nested.codeStrings, s.OneLine) ∧
      ∃ text lines, nested.print = .ok text ∧ Text.split '\n' text = lines ++ [[]] ∧
        nested.LaidOut lines := by
  have hlisted : ∀ slot ∈ nested.slots, slot.isSupported := by decide
  have hslots : ∀ slot, nested.Reaches slot → slot.isSupported :=
    fun slot h => hlisted slot (mem_slots_iff.mpr h)
  have hstrings : ∀ s ∈ nested.codeStrings, s.OneLine := by decide
  exact ⟨hslots, hstrings, print_laidOut rfl hslots hstrings⟩

end Java

end Phrasebook
