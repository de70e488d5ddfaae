/-
# Phrasebook.Proofs.Java.Outline -- the lines of a file, their spacing and their depth

The outline of a tree is the list of its lines in document order, each with its role.  It holds no
empty line and no indentation: both follow from the roles.  A declaration is separated from the
next one, unless both are imports or both are fields, and a line stands as deep as there are blocks
open before it.

What is printed for a tree is its outline, spaced and indented in this way.
-/
import Phrasebook.Proofs.Java.Lines
import Mathlib.Data.List.Basic

namespace Phrasebook.Java

/-! ## Roles -/

/-- What a line that is not empty is for. -/
inductive Role where
  | comment
  | package
  | importing
  | docOpening
  | doc
  | opening
  | statement
  | field
  | closing
deriving DecidableEq, Repr

namespace Role

/-- The last line of a declaration. -/
def ends : Role → Bool
  | package | importing | field | closing => true
  | _ => false

/-- The first line of a declaration.  Documentation is the first part of its method, and the opening
line of the method then does not follow the end of a declaration. -/
def begins : Role → Bool
  | importing | docOpening | opening | field => true
  | _ => false

/-- Neighbouring declarations are separated, unless both are imports or both are fields. -/
def separates (before after : Role) : Bool := before.ends && after.begins && before != after

/-- A line that opens no block and closes none. -/
def isInner : Role → Bool
  | opening | closing => false
  | _ => true

end Role

/-- A line with its role, before it is indented. -/
structure Line where
  role : Role
  text : Text

/-! ## Outlines -/

/-- The line that opens a type or a method. -/
def Line.opens (text : Text) : Line := ⟨.opening, text⟩

/-- The line that closes a type or a method. -/
def Line.closes : Line := ⟨.closing, closing⟩

/-- The lines of a line comment. -/
def commentOutline (comment : Text) : List Line := (commentSourceLines comment).map (⟨.comment, ·⟩)

/-- The lines of documentation. -/
def docOutline (doc : Text) : List Line :=
  let content := (Text.replace "*/" "*&#47;" doc).commentLines
  ⟨.docOpening, "/**"⟩ :: (content.map javadocLine ++ [(" */" : Text)]).map (⟨.doc, ·⟩)

/-- The lines of an item of a method body. -/
def bodyItemOutline : Node → List Line
  | .comment text => commentOutline text
  | .statement code => [⟨.statement, code ++ ";"⟩]
  | _ => []

mutual

/-- The lines of a member. -/
def outline : Node → List Line
  | .type head members => .opens head.opening :: outlines members ++ [.closes]
  | .method head body =>
    (head.javadoc.map docOutline).getD [] ++
      .opens head.opening :: body.flatMap bodyItemOutline ++ [.closes]
  | .field f => [⟨.field, f.source⟩]
  | _ => []

/-- The lines of members. -/
def outlines : List Node → List Line
  | [] => []
  | node :: nodes => outline node ++ outlines nodes

end

/-- The line of the package. -/
def packageOutline (file : FileHead) : Line := ⟨.package, "package " ++ file.package ++ ";"⟩

/-- The lines of the imports. -/
def importOutline (file : FileHead) : List Line :=
  file.imports.map fun i => ⟨.importing, importLine i⟩

/-- The lines of the header comment. -/
def headerOutline (file : FileHead) : List Line := (file.header.map commentOutline).getD []

/-- The lines of the type of a file. -/
def SourceFile.typeOutline (file : SourceFile) : List Line :=
  (file.type.map (Java.outline ·.toNode)).getD []

/-- The lines of a file. -/
def SourceFile.outline (file : SourceFile) : List Line :=
  headerOutline file.toFileHead ++ packageOutline file.toFileHead ::
    (importOutline file.toFileHead ++ file.typeOutline)

/-- A line of an optional comment is a line of a comment. -/
theorem exists_of_mem_getD {comment : Option Text} {lines : Text → List Line} {l : Line}
    (h : l ∈ (comment.map lines).getD []) : ∃ t, l ∈ lines t := by
  cases comment with
  | none => exact absurd h List.not_mem_nil
  | some t => exact ⟨t, h⟩

/-! ## Spacing -/

/-- Whether what stands before a place and what follows it are separated. -/
def parted (before after : List Line) : Bool :=
  before.getLast?.any fun x => after.head?.any fun y => x.role.separates y.role

/-- The lines with an empty line, `none`, wherever they are separated. -/
def spaced : List Line → List (Option Line)
  | [] => []
  | x :: ls => some x :: if parted [x] ls then none :: spaced ls else spaced ls

theorem parted_nil_right (xs : List Line) : parted xs [] = false := by
  unfold parted
  cases xs.getLast? <;> rfl

/-- Only the line next to a place decides, before it. -/
theorem parted_append_left {xs : List Line} (hx : xs ≠ []) (ws ys : List Line) :
    parted (ws ++ xs) ys = parted xs ys := by
  unfold parted
  rw [List.getLast?_append_of_ne_nil ws hx]

/-- Only the line next to a place decides, after it. -/
theorem parted_append_right {ys : List Line} (hy : ys ≠ []) (xs zs : List Line) :
    parted xs (ys ++ zs) = parted xs ys := by
  unfold parted
  rw [List.head?_append_of_ne_nil ys hy]

theorem spaced_append (xs ys : List Line) :
    spaced (xs ++ ys) = spaced xs ++ (if parted xs ys then [none] else []) ++ spaced ys := by
  induction xs with
  | nil => rfl
  | cons x xs ih =>
    cases xs with
    | nil =>
      show spaced (x :: ys) = _
      rw [spaced, spaced, parted_nil_right]
      cases parted [x] ys <;> rfl
    | cons x' xs =>
      have hfirst : parted [x] (x' :: xs ++ ys) = parted [x] (x' :: xs) := rfl
      have hlast : parted (x :: x' :: xs) ys = parted (x' :: xs) ys := by
        unfold parted
        rw [List.getLast?_cons_cons]
      have hcons : ∀ ls, spaced (x :: ls) =
          some x :: (if parted [x] ls then [none] else []) ++ spaced ls := by
        intro ls
        rw [spaced]
        split <;> rfl
      rw [List.cons_append, hcons, hcons, hfirst, ih, hlast, List.append_assoc, List.append_assoc,
        List.append_assoc]

/-- No empty line follows a line that does not end a declaration. -/
theorem spaced_cons {x : Line} (h : x.role.ends = false) (ls : List Line) :
    spaced (x :: ls) = some x :: spaced ls := by
  have hparted : parted [x] ls = false := by
    unfold parted
    cases ls <;> simp [Role.separates, h]
  rw [spaced, hparted]
  rfl

/-- No empty line stands before a line that does not begin a declaration. -/
theorem spaced_concat {y : Line} (h : y.role.begins = false) (ls : List Line) :
    spaced (ls ++ [y]) = spaced ls ++ [some y] := by
  have hparted : parted ls [y] = false := by
    unfold parted
    cases ls.getLast? <;> simp [Role.separates, h]
  rw [spaced_append, hparted, if_neg Bool.false_ne_true, List.append_nil]
  rfl

theorem spaced_append_of_not_ends {xs : List Line} (h : ∀ x ∈ xs, x.role.ends = false)
    (ys : List Line) : spaced (xs ++ ys) = xs.map some ++ spaced ys := by
  induction xs with
  | nil => rfl
  | cons x xs ih =>
    obtain ⟨hx, hxs⟩ := List.forall_mem_cons.mp h
    rw [List.cons_append, spaced_cons hx, ih hxs, List.map_cons, List.cons_append]

/-! ## Depth -/

/-- The lines as they are printed from one depth to another: an empty line has no indentation, and
any other has two spaces for each block that was opened before it and is not closed by it. -/
inductive Indented : Nat → List (Option Line) → List Text → Nat → Prop
  | nil (depth : Nat) : Indented depth [] [] depth
  | gap {depth depth' : Nat} {ls : List (Option Line)} {ts : List Text} :
      Indented depth ls ts depth' → Indented depth (none :: ls) ([] :: ts) depth'
  | opening {depth depth' : Nat} {l : Line} {ls : List (Option Line)} {ts : List Text} :
      l.role = .opening → Indented (depth + 1) ls ts depth' →
      Indented depth (some l :: ls) ((indentation depth ++ l.text) :: ts) depth'
  | closing {depth depth' : Nat} {l : Line} {ls : List (Option Line)} {ts : List Text} :
      l.role = .closing → Indented depth ls ts depth' →
      Indented (depth + 1) (some l :: ls) ((indentation depth ++ l.text) :: ts) depth'
  | inner {depth depth' : Nat} {l : Line} {ls : List (Option Line)} {ts : List Text} :
      l.role.isInner → Indented depth ls ts depth' →
      Indented depth (some l :: ls) ((indentation depth ++ l.text) :: ts) depth'

theorem Layout.atLevel_of_ne_nil {t : Text} (h : t ≠ []) (level : Nat) :
    atLevel level t = indentation level ++ t := by
  cases t with
  | nil => exact absurd rfl h
  | cons c cs => rfl

namespace Indented

variable {depth depth' depth'' : Nat} {ls ls' : List (Option Line)} {ts ts' : List Text}

theorem append (h : Indented depth ls ts depth') (h' : Indented depth' ls' ts' depth'') :
    Indented depth (ls ++ ls') (ts ++ ts') depth'' := by
  induction h with
  | nil => exact h'
  | gap _ ih => exact .gap (ih h')
  | opening hl _ ih => exact .opening hl (ih h')
  | closing hl _ ih => exact .closing hl (ih h')
  | inner hl _ ih => exact .inner hl (ih h')

/-- Lines that neither open nor close a block all stand at the same depth. -/
theorem of_inner {lines : List Line} (h : ∀ l ∈ lines, l.role.isInner ∧ l.text ≠ [])
    (depth : Nat) :
    Indented depth (lines.map some) ((lines.map Line.text).map (Layout.atLevel depth)) depth := by
  induction lines with
  | nil => exact .nil depth
  | cons l lines ih =>
    obtain ⟨⟨hinner, hne⟩, hlines⟩ := List.forall_mem_cons.mp h
    rw [List.map_cons, List.map_cons, List.map_cons, Layout.atLevel_of_ne_nil hne]
    exact .inner hinner (ih hlines)

/-- A block stands at the depth outside of it, and what is inside of it one level deeper. -/
theorem block {opening : Text} (hne : opening ≠ []) {inner : List Text}
    (h : Indented (depth + 1) ls (inner.map (Layout.atLevel (depth + 1))) (depth + 1)) :
    Indented depth (some (.opens opening) :: ls ++ [some .closes])
      ((opening :: inner.map (Layout.atLevel 1) ++ [Java.closing]).map (Layout.atLevel depth))
      depth := by
  have hinner : (inner.map (Layout.atLevel 1)).map (Layout.atLevel depth) =
      inner.map (Layout.atLevel (depth + 1)) := by
    rw [List.map_map]
    exact List.map_congr_left fun t _ => (Layout.atLevel_add depth 1 t).symm
  rw [List.map_append, List.map_cons, hinner, Layout.atLevel_of_ne_nil hne]
  exact append (.opening rfl h) (.closing rfl (.nil depth))

end Indented

/-! ## The outline is what is printed -/

theorem MethodHead.opening_ne_nil (head : MethodHead) : head.opening ≠ [] :=
  List.append_ne_nil_of_right_ne_nil _ (List.cons_ne_nil _ _)

theorem TypeHead.opening_ne_nil (head : TypeHead) : head.opening ≠ [] :=
  List.append_ne_nil_of_right_ne_nil _ (List.cons_ne_nil _ _)

theorem Field.source_ne_nil (f : Field) : f.source ≠ [] :=
  List.append_ne_nil_of_right_ne_nil _ (List.cons_ne_nil _ _)

theorem commentLine_ne_nil (l : Text) : commentLine l ≠ [] := by
  unfold commentLine
  split <;> exact List.cons_ne_nil _ _

theorem javadocLine_ne_nil (l : Text) : javadocLine l ≠ [] := by
  unfold javadocLine
  split <;> exact List.cons_ne_nil _ _

/-- A line of documentation or a comment, or a statement. -/
structure Line.IsPlain (l : Line) : Prop where
  not_ends : l.role.ends = false
  isInner : l.role.isInner
  text_ne_nil : l.text ≠ []

theorem isPlain_commentOutline (comment : Text) : ∀ l ∈ commentOutline comment, l.IsPlain := by
  intro l hl
  obtain ⟨t, ht, rfl⟩ := List.mem_map.mp hl
  obtain ⟨s, -, rfl⟩ := List.mem_map.mp ht
  exact ⟨rfl, rfl, commentLine_ne_nil s⟩

theorem isPlain_docOutline (doc : Text) : ∀ l ∈ docOutline doc, l.IsPlain := by
  intro l hl
  rcases List.mem_cons.mp hl with rfl | hl
  · exact ⟨rfl, rfl, List.cons_ne_nil _ _⟩
  · obtain ⟨t, ht, rfl⟩ := List.mem_map.mp hl
    refine ⟨rfl, rfl, ?_⟩
    show t ≠ []
    rcases List.mem_append.mp ht with ht | ht
    · obtain ⟨s, -, rfl⟩ := List.mem_map.mp ht
      exact javadocLine_ne_nil s
    · rw [List.mem_singleton.mp ht]
      exact List.cons_ne_nil _ _

theorem isPlain_bodyItemOutline (node : Node) : ∀ l ∈ bodyItemOutline node, l.IsPlain := by
  cases node with
  | comment text => exact isPlain_commentOutline text
  | statement code =>
    intro l hl
    rw [List.mem_singleton.mp hl]
    exact ⟨rfl, rfl, List.append_ne_nil_of_right_ne_nil code (List.cons_ne_nil _ _)⟩
  | _ => exact fun l hl => absurd hl List.not_mem_nil

theorem isPlain_bodyOutline (body : List Node) :
    ∀ l ∈ body.flatMap bodyItemOutline, l.IsPlain := by
  intro l hl
  obtain ⟨node, -, hl⟩ := List.mem_flatMap.mp hl
  exact isPlain_bodyItemOutline node l hl

theorem text_commentOutline (comment : Text) :
    (commentOutline comment).map Line.text = commentSourceLines comment := by
  unfold commentOutline
  rw [List.map_map]
  exact List.map_id _

theorem text_docOutline (doc : Text) : (docOutline doc).map Line.text = javadocLines doc := by
  unfold docOutline
  rw [List.map_cons, List.map_map]
  exact congrArg (_ :: ·) (List.map_id _)

theorem text_bodyOutline (body : List Node) :
    (body.flatMap bodyItemOutline).map Line.text = body.flatMap bodyItemLines := by
  rw [List.map_flatMap]
  refine List.flatMap_congr fun node _ => ?_
  cases node with
  | comment text => exact text_commentOutline text
  | _ => rfl

/-- Plain lines at the beginning are followed by no empty line, and all stand at one depth. -/
theorem Indented.plain_append {depth depth' : Nat} {xs ys : List Line} {ts : List Text}
    (hx : ∀ x ∈ xs, x.IsPlain) (h : Indented depth (spaced ys) ts depth') :
    Indented depth (spaced (xs ++ ys)) ((xs.map Line.text).map (Layout.atLevel depth) ++ ts)
      depth' := by
  rw [spaced_append_of_not_ends fun x hm => (hx x hm).not_ends]
  exact (Indented.of_inner (fun x hm => ⟨(hx x hm).isInner, (hx x hm).text_ne_nil⟩) depth).append h

/-- A block in the outline. -/
theorem Indented.spaced_block {depth : Nat} {opening : Text} (hne : opening ≠ [])
    {lines : List Line} {inner : List Text}
    (h : Indented (depth + 1) (spaced lines) (inner.map (Layout.atLevel (depth + 1)))
      (depth + 1)) :
    Indented depth (spaced (.opens opening :: lines ++ [.closes]))
      ((opening :: inner.map (Layout.atLevel 1) ++ [Java.closing]).map (Layout.atLevel depth))
      depth := by
  rw [spaced_concat rfl, spaced_cons rfl]
  exact .block hne h

/-- A method ends with its last line, and not before. -/
theorem not_ends_methodOutline (head : MethodHead) (body : List Node) :
    ∃ lines : List Line, outline (.method head body) = lines ++ [.closes] ∧
      ∀ l ∈ lines, l.role.ends = false := by
  refine ⟨(head.javadoc.map docOutline).getD [] ++
    .opens head.opening :: body.flatMap bodyItemOutline, rfl, fun l hl => ?_⟩
  rcases List.mem_append.mp hl with hdoc | hblock
  · obtain ⟨doc, hdoc⟩ := exists_of_mem_getD hdoc
    exact (isPlain_docOutline doc l hdoc).not_ends
  · rcases List.mem_cons.mp hblock with rfl | hbody
    · rfl
    · exact (isPlain_bodyOutline body l hbody).not_ends

theorem indented_methodOutline (head : MethodHead) (body : List Node) (depth : Nat) :
    Indented depth (spaced (outline (.method head body)))
      ((methodLines head body).map (Layout.atLevel depth)) depth := by
  have hinner : Indented (depth + 1) (spaced (body.flatMap bodyItemOutline))
      ((body.flatMap bodyItemLines).map (Layout.atLevel (depth + 1))) (depth + 1) := by
    have hnil : Indented (depth + 1) (spaced []) [] (depth + 1) := .nil _
    have h := Indented.plain_append (isPlain_bodyOutline body) hnil
    rwa [List.append_nil, List.append_nil, text_bodyOutline] at h
  rw [outline, methodLines, List.append_assoc, List.append_assoc, List.map_append]
  have hblock := Indented.spaced_block head.opening_ne_nil hinner
  cases head.javadoc with
  | none => exact hblock
  | some doc =>
    have h := Indented.plain_append (isPlain_docOutline doc) hblock
    rwa [text_docOutline] at h

/-- The last line of a member that is printed. -/
theorem getLast?_outline {node : Node} (h : memberFault? node = none) :
    ∃ x ∈ (outline node).getLast?, x.role = if node.isField then .field else .closing := by
  cases node with
  | type head members => exact ⟨.closes, List.getLast?_concat, rfl⟩
  | method head body => exact ⟨.closes, List.getLast?_concat, rfl⟩
  | field f => exact ⟨_, rfl, rfl⟩
  | _ => cases h

/-- The first line of a member that is printed. -/
theorem head?_outline {node : Node} (h : memberFault? node = none) :
    ∃ y ∈ (outline node).head?, y.role.begins ∧ (y.role = .field ↔ node.isField) := by
  cases node with
  | type head members => exact ⟨.opens head.opening, rfl, rfl, nofun, nofun⟩
  | method head body =>
    rw [outline, List.append_assoc]
    cases head.javadoc with
    | none => exact ⟨.opens head.opening, rfl, rfl, nofun, nofun⟩
    | some doc => exact ⟨⟨.docOpening, "/**"⟩, rfl, rfl, nofun, nofun⟩
  | field f => exact ⟨_, rfl, rfl, fun _ => rfl, fun _ => rfl⟩
  | _ => cases h

theorem outline_ne_nil {node : Node} (h : memberFault? node = none) : outline node ≠ [] := by
  obtain ⟨y, hy, -⟩ := head?_outline h
  exact List.ne_nil_of_mem (List.mem_of_mem_head? hy)

/-- Consecutive members are separated in the outline as they are when printed. -/
theorem parted_outline {a b : Node} (ha : memberFault? a = none) (hb : memberFault? b = none) :
    parted (outline a) (outline b) = separated (some a) b := by
  obtain ⟨x, hx, hxrole⟩ := getLast?_outline ha
  obtain ⟨y, hy, hbegins, hyrole⟩ := head?_outline hb
  rw [parted, Option.mem_def.mp hx, Option.any_some, Option.mem_def.mp hy, Option.any_some,
    Role.separates, hxrole, hbegins, separated]
  cases hfield : a.isField with
  | true =>
    have hsame : (Role.field != y.role) = !b.isField := by
      rw [Bool.eq_iff_iff, bne_iff_ne, ne_comm, ne_eq, hyrole, Bool.not_eq_true']
      exact iff_of_eq (Bool.not_eq_true _)
    rw [if_pos rfl, hsame]
    rfl
  | false =>
    have hdiffers : (Role.closing != y.role) = true := by
      rw [bne_iff_ne]
      intro heq
      rw [← heq] at hbegins
      cases hbegins
    rw [if_neg Bool.false_ne_true, hdiffers]
    rfl

theorem parted_outlines_cons {a b : Node} {nodes : List Node} (ha : memberFault? a = none)
    (hb : membersFault? (b :: nodes) = none) :
    parted (outline a) (outlines (b :: nodes)) = separated (some a) b := by
  have hb' := membersFault?_eq_none.mp hb b (List.mem_cons_self ..)
  rw [outlines, parted_append_right (outline_ne_nil hb'), parted_outline ha hb']

/-- Members that follow another are the members with an empty line before, if there is one. -/
theorem membersLines_some (prev node : Node) (nodes : List Node) :
    membersLines (some prev) (node :: nodes) =
      (if separated (some prev) node then [[]] else []) ++ membersLines none (node :: nodes) := by
  rw [membersLines, membersLines, separated, if_neg Bool.false_ne_true, List.nil_append,
    List.append_assoc]

/-- An empty line is printed as such. -/
theorem Indented.ofGap (p : Bool) (depth : Nat) :
    Indented depth (if p then [none] else [])
      ((if p then [[]] else []).map (Layout.atLevel depth)) depth := by
  cases p with
  | true => exact .gap (.nil depth)
  | false => exact .nil depth

mutual

/-- What is printed for a member is its outline, spaced and indented. -/
theorem indented_outline : ∀ {node : Node}, memberFault? node = none → ∀ depth : Nat,
    Indented depth (spaced (outline node)) ((memberLines node).map (Layout.atLevel depth)) depth
  | .type head members, h, depth => by
    rw [memberFault?] at h
    rw [outline, memberLines]
    exact .spaced_block head.opening_ne_nil (indented_outlines h (depth + 1))
  | .method head body, _, depth => by
    rw [memberLines]
    exact indented_methodOutline head body depth
  | .field f, _, depth => by
    rw [outline, memberLines, List.map_cons, Layout.atLevel_of_ne_nil f.source_ne_nil]
    exact .inner rfl (.nil depth)
  | .absent, h, _ | .javadoc _, h, _ | .comment _, h, _ | .statement _, h, _ | .param _, h, _
  | .file _ _, h, _ => by
    simp [memberFault?] at h

/-- What is printed for the members of a type is their outline, spaced and indented. -/
theorem indented_outlines : ∀ {nodes : List Node}, membersFault? nodes = none → ∀ depth : Nat,
    Indented depth (spaced (outlines nodes))
      ((membersLines none nodes).map (Layout.atLevel depth)) depth
  | [], _, depth => by
    rw [outlines, membersLines]
    exact .nil depth
  | [node], h, depth => by
    have hnode := membersFault?_eq_none.mp h node (List.mem_cons_self ..)
    rw [outlines, outlines, membersLines, membersLines, separated, List.append_nil, List.append_nil]
    exact indented_outline hnode depth
  | node :: next :: nodes, h, depth => by
    rw [membersFault?, Option.or_eq_none_iff] at h
    have hfirst := indented_outline h.1 depth
    have hrest := indented_outlines h.2 depth
    -- the empty line between the two is printed where the outline is parted
    rw [outlines, spaced_append, parted_outlines_cons h.1 h.2, membersLines, membersLines_some,
      separated, if_neg Bool.false_ne_true, List.nil_append, List.map_append, List.map_append,
      ← List.append_assoc]
    exact (hfirst.append (.ofGap _ depth)).append hrest

end

/-! ## Files -/

/-- Imports are not separated from each other. -/
theorem spaced_importOutline (file : FileHead) :
    spaced (importOutline file) = (importOutline file).map some := by
  unfold importOutline
  induction file.imports with
  | nil => rfl
  | cons i imports ih =>
    rw [List.map_cons, spaced, ih, List.map_cons]
    -- the next line, if there is one, is an import as well
    cases imports <;> rfl

theorem role_of_mem_importOutline {file : FileHead} {l : Line} (h : l ∈ importOutline file) :
    l.role = .importing := by
  obtain ⟨i, -, rfl⟩ := List.mem_map.mp h
  rfl

/-- The imports are separated from a block, if there are any. -/
theorem parted_importOutline (file : FileHead) {ys : List Line}
    (hy : ∃ y ∈ ys.head?, y.role = .opening) :
    parted (importOutline file) ys = !file.imports.isEmpty := by
  obtain ⟨y, hy, hrole⟩ := hy
  simp only [parted, importOutline, List.getLast?_map, Option.mem_def.mp hy, Option.any_some, hrole]
  rcases file.imports.eq_nil_or_concat with hnil | ⟨imports, i, hconcat⟩
  · rw [hnil]
    rfl
  · rw [hconcat, List.concat_eq_append, List.getLast?_concat]
    cases imports <;> rfl

/-- The package is separated from the imports, and from a block. -/
theorem parted_packageOutline (file : FileHead) {ys : List Line}
    (hy : ∃ y ∈ ys.head?, y.role = .opening) :
    parted [packageOutline file] (importOutline file ++ ys) = true := by
  obtain ⟨y, hy, hrole⟩ := hy
  unfold importOutline
  cases file.imports with
  | nil =>
    simp only [parted, List.map_nil, List.nil_append, Option.mem_def.mp hy, Option.any_some, hrole]
    rfl
  | cons i imports => rfl

/-- The imports are followed by an empty line, if there are any. -/
theorem indented_importOutline (file : FileHead) {ys : List Line} {ts : List Text}
    (hy : ∃ y ∈ ys.head?, y.role = .opening) (h : Indented 0 (spaced ys) ts 0) :
    Indented 0 (spaced (importOutline file ++ ys))
      ((if file.imports.isEmpty then [] else file.imports.map importLine ++ [[]]) ++ ts) 0 := by
  have hinner : ∀ l ∈ importOutline file, l.role.isInner ∧ l.text ≠ [] := by
    intro l hl
    obtain ⟨i, -, rfl⟩ := List.mem_map.mp hl
    exact ⟨rfl, List.append_ne_nil_of_right_ne_nil _ (List.cons_ne_nil _ _)⟩
  have hlines : (importOutline file).map Line.text = file.imports.map importLine := by
    unfold importOutline
    rw [List.map_map]
    rfl
  have himports := (Indented.of_inner hinner 0).append (.ofGap (!file.imports.isEmpty) 0)
  rw [hlines, Layout.map_atLevel_zero, Layout.map_atLevel_zero] at himports
  rw [spaced_append, spaced_importOutline, parted_importOutline file hy]
  cases hnil : file.imports with
  | nil =>
    rw [hnil] at himports
    exact himports.append h
  | cons i imports =>
    rw [hnil] at himports
    exact himports.append h

theorem isPlain_headerOutline (file : FileHead) : ∀ l ∈ headerOutline file, l.IsPlain := by
  intro l hl
  obtain ⟨comment, hl⟩ := exists_of_mem_getD hl
  exact isPlain_commentOutline comment l hl

theorem text_headerOutline (file : FileHead) :
    (headerOutline file).map Line.text = (file.header.map commentSourceLines).getD [] := by
  unfold headerOutline
  cases file.header with
  | none => rfl
  | some comment => exact text_commentOutline comment

/-- The outline of a type begins with its opening line. -/
theorem exists_opening (type : TypeDecl) :
    ∃ y ∈ (outline type.toNode).head?, y.role = .opening :=
  ⟨.opens type.toTypeHead.opening, rfl, rfl⟩

/-- What is printed for a file with a type is its outline, spaced and indented. -/
theorem SourceFile.indented_outline {file : SourceFile} {type : TypeDecl}
    (htype : file.type = some type) (hfault : memberFault? type.toNode = none) :
    Indented 0 (spaced file.outline) (headLines file.toFileHead ++ memberLines type.toNode) 0 := by
  have hmember := Java.indented_outline hfault 0
  rw [Layout.map_atLevel_zero] at hmember
  have himports := indented_importOutline file.toFileHead (exists_opening type) hmember
  have hpackage : Indented 0 (spaced (packageOutline file.toFileHead ::
      (importOutline file.toFileHead ++ Java.outline type.toNode)))
      (("package " ++ file.package ++ ";") :: [] ::
        ((if file.imports.isEmpty then [] else file.imports.map importLine ++ [[]]) ++
          memberLines type.toNode)) 0 := by
    rw [spaced, parted_packageOutline file.toFileHead (exists_opening type), if_pos rfl]
    exact .inner rfl (.gap himports)
  have h := Indented.plain_append (isPlain_headerOutline file.toFileHead) hpackage
  rw [text_headerOutline, Layout.map_atLevel_zero] at h
  rw [SourceFile.outline, SourceFile.typeOutline, htype, headLines, List.append_assoc]
  exact h

end Phrasebook.Java
