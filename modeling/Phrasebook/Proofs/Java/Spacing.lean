/-
# Phrasebook.Proofs.Java.Spacing -- where the empty lines of a file stand

The gaps of a file are the places after its package line, after its last import, and between two
consecutive members of a type, at any depth, that are not both fields.  These are exactly the places
at which the outline is parted, so that the empty lines of the printed text stand in the gaps and
nowhere else.
-/
import Phrasebook.Proofs.Java.Outline

namespace Phrasebook.Java

/-! ## Gaps -/

/-- The places between two consecutive members that are not both fields, each with the lines before
it and those after it: they are found between the members of a list and inside of each of these. -/
inductive Between : List Node → List Line → List Line → Prop
  | here {a b : Node} {nodes : List Node} : ¬ (a.isField ∧ b.isField) →
      Between (a :: b :: nodes) (outline a) (outlines (b :: nodes))
  | later {node : Node} {nodes : List Node} {before after : List Line} :
      Between nodes before after → Between (node :: nodes) (outline node ++ before) after
  | inside {head : TypeHead} {members nodes : List Node} {before after : List Line} :
      Between members before after →
      Between (.type head members :: nodes) (.opens head.opening :: before)
        (after ++ .closes :: outlines nodes)

/-- The places of a file at which an empty line is due. -/
inductive SourceFile.Gap (file : SourceFile) : List Line → List Line → Prop
  | package :
      Gap file (headerOutline file.toFileHead ++ [packageOutline file.toFileHead])
        (importOutline file.toFileHead ++ file.typeOutline)
  | imports : file.imports ≠ [] →
      Gap file
        (headerOutline file.toFileHead ++ packageOutline file.toFileHead ::
          importOutline file.toFileHead)
        file.typeOutline
  | members {type : TypeDecl} {before after : List Line} :
      file.type = some type → Between [type.toNode] before after →
      Gap file
        (headerOutline file.toFileHead ++ packageOutline file.toFileHead ::
          (importOutline file.toFileHead ++ before))
        after

/-! ## Parted places -/

theorem parted_iff {xs ys : List Line} :
    parted xs ys ↔ ∃ x ∈ xs.getLast?, ∃ y ∈ ys.head?, x.role.separates y.role := by
  simp [parted, Option.any_eq_true]

theorem separated_some_iff {a b : Node} :
    separated (some a) b ↔ ¬ (a.isField ∧ b.isField) := by
  rw [separated, Bool.not_eq_true', ← Bool.not_eq_true, Bool.and_eq_true]

theorem Role.ends_of_separates {x y : Role} (h : x.separates y) : x.ends := by
  rw [separates, Bool.and_assoc, Bool.and_eq_true] at h
  exact h.1

theorem Role.begins_of_separates {x y : Role} (h : x.separates y) : y.begins := by
  rw [separates, Bool.and_assoc, Bool.and_eq_true, Bool.and_eq_true] at h
  exact h.2.1

theorem ne_nil_of_parted {xs ys : List Line} (h : parted xs ys) : xs ≠ [] ∧ ys ≠ [] := by
  obtain ⟨x, hx, y, hy, -⟩ := parted_iff.mp h
  exact ⟨List.ne_nil_of_mem (List.mem_of_getLast? hx), List.ne_nil_of_mem (List.mem_of_head? hy)⟩

/-- Nothing is parted behind lines that do not end a declaration. -/
theorem not_parted_of_not_ends {xs : List Line} (h : ∀ x ∈ xs, x.role.ends = false)
    (ys : List Line) : ¬ parted xs ys := by
  intro hparted
  obtain ⟨x, hx, y, -, hsep⟩ := parted_iff.mp hparted
  have hends := Role.ends_of_separates hsep
  rw [h x (List.mem_of_getLast? hx)] at hends
  exact Bool.noConfusion hends

/-- A cut of a list with two parts is in the first part, between the two, or in the second. -/
theorem append_eq_append_cases {α : Type} {xs ys us vs : List α} (h : xs ++ ys = us ++ vs) :
    (∃ ws, ws ≠ [] ∧ us = xs ++ ws ∧ ys = ws ++ vs) ∨ (xs = us ∧ ys = vs) ∨
      ∃ ws, ws ≠ [] ∧ xs = us ++ ws ∧ vs = ws ++ ys := by
  rcases List.append_eq_append_iff.mp h with ⟨ws, hus, hys⟩ | ⟨ws, hxs, hvs⟩
  · by_cases hws : ws = []
    · subst hws
      exact Or.inr (Or.inl ⟨by rw [hus, List.append_nil], hys⟩)
    · exact Or.inl ⟨ws, hws, hus, hys⟩
  · by_cases hws : ws = []
    · subst hws
      exact Or.inr (Or.inl ⟨by rw [hxs, List.append_nil], hvs.symm⟩)
    · exact Or.inr (Or.inr ⟨ws, hws, hxs, hvs⟩)

/-- A cut of a list before its last element. -/
theorem append_eq_concat {α : Type} {xs ys us : List α} {u : α} (h : xs ++ ys = us ++ [u])
    (hy : ys ≠ []) : ∃ ws, us = xs ++ ws ∧ ys = ws ++ [u] := by
  rcases List.eq_nil_or_concat ys with hnil | ⟨ws, y, hys⟩
  · exact absurd hnil hy
  · rw [List.concat_eq_append] at hys
    rw [hys, ← List.append_assoc] at h
    obtain ⟨hus, hlast⟩ := List.append_inj' h rfl
    exact ⟨ws, hus.symm, hys.trans (congrArg (ws ++ ·) hlast)⟩

/-- A method is not parted. -/
theorem not_parted_method {head : MethodHead} {body : List Node} {xs ys : List Line}
    (h : outline (.method head body) = xs ++ ys) : ¬ parted xs ys := by
  intro hparted
  obtain ⟨lines, hlines, hends⟩ := not_ends_methodOutline head body
  obtain ⟨ws, rfl, -⟩ := append_eq_concat (h.symm.trans hlines) (ne_nil_of_parted hparted).2
  exact not_parted_of_not_ends (fun x hx => hends x (List.mem_append_left ws hx)) ys hparted

/-- A block is parted only where the lines inside of it are. -/
theorem parted_block {opening : Text} {lines xs ys : List Line}
    (h : .opens opening :: lines ++ [.closes] = xs ++ ys) (hparted : parted xs ys) :
    ∃ xs' ys', xs = .opens opening :: xs' ∧ ys = ys' ++ [.closes] ∧ xs' ++ ys' = lines ∧
      parted xs' ys' := by
  obtain ⟨hx, hy⟩ := ne_nil_of_parted hparted
  obtain ⟨ys', hlines, rfl⟩ := append_eq_concat h.symm hy
  cases xs with
  | nil => exact absurd rfl hx
  | cons x xs' =>
    obtain ⟨rfl, rfl⟩ := List.cons.inj hlines
    have hx' : xs' ≠ [] := by
      rintro rfl
      exact not_parted_of_not_ends (List.forall_mem_singleton.mpr rfl) _ hparted
    have hy' : ys' ≠ [] := by
      rintro rfl
      obtain ⟨x, -, y, hy, hsep⟩ := parted_iff.mp hparted
      obtain rfl : Line.closes = y := Option.some.inj hy
      exact Bool.noConfusion (Role.begins_of_separates hsep)
    rw [parted_append_right hy'] at hparted
    exact ⟨xs', ys', rfl, rfl, rfl, (parted_append_left hx' [_] ys').symm.trans hparted⟩

/-! ## The gaps are where the outline is parted -/

theorem membersFault?_singleton {node : Node} :
    membersFault? [node] = none ↔ memberFault? node = none := by
  rw [membersFault?_eq_none, List.forall_mem_singleton]

mutual

/-- A member is parted only between members inside of it. -/
theorem between_of_parted_member : ∀ {node : Node}, memberFault? node = none →
    ∀ {before after : List Line}, outline node = before ++ after → parted before after →
      ∀ nodes : List Node, Between (node :: nodes) before (after ++ outlines nodes)
  | .type head members, h, before, after, hcut, hparted, nodes => by
    rw [memberFault?] at h
    rw [outline] at hcut
    obtain ⟨before', after', rfl, rfl, hlines, hinner⟩ := parted_block hcut hparted
    rw [List.append_assoc]
    exact .inside (between_of_parted h hlines.symm hinner)
  | .method _ _, _, _, _, hcut, hparted, _ => absurd hparted (not_parted_method hcut)
  | .field _, _, _, _, hcut, hparted, _ => by
    rw [outline, eq_comm, List.append_eq_singleton_iff] at hcut
    obtain ⟨hbefore, hafter⟩ := ne_nil_of_parted hparted
    exact (hcut.elim (fun h => hbefore h.1) fun h => hafter h.2).elim
  | .absent, h, _, _, _, _, _ | .javadoc _, h, _, _, _, _, _ | .comment _, h, _, _, _, _, _
  | .statement _, h, _, _, _, _, _ | .param _, h, _, _, _, _, _ | .file _ _, h, _, _, _, _, _ => by
    simp [memberFault?] at h

/-- Members are parted between two of them that are not both fields, or inside of one. -/
theorem between_of_parted : ∀ {nodes : List Node}, membersFault? nodes = none →
    ∀ {before after : List Line}, outlines nodes = before ++ after → parted before after →
      Between nodes before after
  | [], _, before, after, hcut, hparted => by
    rw [outlines, eq_comm, List.append_eq_nil_iff] at hcut
    exact absurd hcut.1 (ne_nil_of_parted hparted).1
  | node :: nodes, h, before, after, hcut, hparted => by
    rw [membersFault?, Option.or_eq_none_iff] at h
    rw [outlines] at hcut
    rcases append_eq_append_cases hcut.symm with ⟨ws, hws, hnode, rfl⟩ | ⟨rfl, rfl⟩ |
      ⟨ws, hws, rfl, hrest⟩
    case inl =>
      rw [parted_append_right hws] at hparted
      exact between_of_parted_member h.1 hnode hparted nodes
    case inr.inl =>
      cases nodes with
      | nil => exact absurd rfl (ne_nil_of_parted hparted).2
      | cons next nodes =>
        rw [parted_outlines_cons h.1 h.2] at hparted
        exact .here (separated_some_iff.mp hparted)
    case inr.inr =>
      rw [parted_append_left hws] at hparted
      exact .later (between_of_parted h.2 hrest hparted)

end

/-- Members are parted between two of them that are not both fields. -/
theorem Between.parted {nodes : List Node} {before after : List Line}
    (h : Between nodes before after) (hfault : membersFault? nodes = none) :
    Java.parted before after := by
  induction h with
  | here hfields =>
    rw [membersFault?, Option.or_eq_none_iff] at hfault
    rw [parted_outlines_cons hfault.1 hfault.2]
    exact separated_some_iff.mpr hfields
  | later _ ih =>
    rw [membersFault?, Option.or_eq_none_iff] at hfault
    have hparted := ih hfault.2
    rwa [parted_append_left (ne_nil_of_parted hparted).1]
  | @inside head members nodes before after _ ih =>
    rw [membersFault?, memberFault?, Option.or_eq_none_iff] at hfault
    have hparted := ih hfault.1
    obtain ⟨hbefore, hafter⟩ := ne_nil_of_parted hparted
    rw [parted_append_right hafter]
    exact (parted_append_left hbefore [_] after).trans hparted

/-- The imports are not parted. -/
theorem not_parted_importOutline {file : FileHead} {xs ys : List Line}
    (h : importOutline file = xs ++ ys) : ¬ parted xs ys := by
  intro hparted
  obtain ⟨x, hx, y, hy, hsep⟩ := parted_iff.mp hparted
  have hxrole : x.role = .importing :=
    role_of_mem_importOutline (h ▸ List.mem_append_left ys (List.mem_of_getLast? hx))
  have hyrole : y.role = .importing :=
    role_of_mem_importOutline (h ▸ List.mem_append_right xs (List.mem_of_head? hy))
  rw [hxrole, hyrole] at hsep
  exact Bool.noConfusion hsep

namespace SourceFile

variable {file : SourceFile} {type : TypeDecl} {before after : List Line}

theorem typeOutline_eq (htype : file.type = some type) :
    file.typeOutline = Java.outline type.toNode := by
  rw [typeOutline, htype]
  rfl

theorem Gap.parted (htype : file.type = some type) (hfault : memberFault? type.toNode = none)
    (h : file.Gap before after) : Java.parted before after := by
  have htop : ∃ y ∈ file.typeOutline.head?, y.role = .opening := by
    rw [typeOutline_eq htype]
    exact exists_opening type
  cases h with
  | package =>
    rw [parted_append_left (List.cons_ne_nil _ _)]
    exact parted_packageOutline file.toFileHead htop
  | imports hne =>
    have hlines : importOutline file.toFileHead ≠ [] := fun h => hne (List.map_eq_nil_iff.mp h)
    rw [parted_append_left (List.cons_ne_nil _ _), ← List.singleton_append,
      parted_append_left hlines, parted_importOutline file.toFileHead htop, Bool.not_eq_true',
      ← Bool.not_eq_true, List.isEmpty_iff]
    exact hne
  | members htype' h =>
    obtain rfl : type = _ := Option.some.inj (htype.symm.trans htype')
    have hparted := h.parted (membersFault?_singleton.mpr hfault)
    have hne := (ne_nil_of_parted hparted).1
    rw [parted_append_left (List.cons_ne_nil _ _), ← List.cons_append, parted_append_left hne]
    exact hparted

theorem gap_of_parted (htype : file.type = some type) (hfault : memberFault? type.toNode = none)
    (hcut : file.outline = before ++ after) (hparted : Java.parted before after) :
    file.Gap before after := by
  -- no declaration ends in the header, so the place is behind the line of the package
  have hheader := fun x hx => (isPlain_headerOutline file.toFileHead x hx).not_ends
  rw [outline] at hcut
  rcases append_eq_append_cases hcut.symm with ⟨ws, -, heq, -⟩ | ⟨rfl, -⟩ | ⟨ws, hws, rfl, hrest⟩
  · rw [heq] at hheader
    refine absurd hparted (not_parted_of_not_ends (fun x hx => ?_) after)
    exact hheader x (List.mem_append_left ws hx)
  · exact absurd hparted (not_parted_of_not_ends hheader after)
  rw [parted_append_left hws] at hparted
  obtain ⟨ws', rfl, htail⟩ : ∃ ws', ws = packageOutline file.toFileHead :: ws' ∧
      ws' ++ after = importOutline file.toFileHead ++ file.typeOutline := by
    cases ws with
    | nil => exact absurd rfl hws
    | cons w ws' =>
      obtain ⟨rfl, htail⟩ := List.cons.inj hrest
      exact ⟨ws', rfl, htail.symm⟩
  rcases append_eq_append_cases htail with ⟨vs, hvs, himports, rfl⟩ | ⟨rfl, rfl⟩ |
    ⟨vs, hvs, rfl, htop⟩
  case inl =>
    -- before the last import, only the place after the package is parted
    cases ws' with
    | nil =>
      rw [List.nil_append] at himports
      rw [← himports]
      exact .package
    | cons w ws' =>
      rw [parted_append_right hvs, ← List.singleton_append,
        parted_append_left (List.cons_ne_nil _ _)] at hparted
      exact absurd hparted (not_parted_importOutline himports)
  case inr.inl =>
    by_cases hne : file.imports = []
    · have hnil : importOutline file.toFileHead = [] := List.map_eq_nil_iff.mpr hne
      have h : file.Gap _ _ := .package
      rw [hnil] at h ⊢
      exact h
    · exact .imports hne
  case inr.inr =>
    rw [← List.cons_append, parted_append_left hvs] at hparted
    rw [typeOutline_eq htype] at htop
    refine .members htype (between_of_parted (membersFault?_singleton.mpr hfault) ?_ hparted)
    rw [outlines, outlines, List.append_nil, htop]

/-- The gaps of a file are exactly the places at which its outline is parted. -/
theorem parted_iff_gap (htype : file.type = some type) (hfault : memberFault? type.toNode = none)
    (hcut : file.outline = before ++ after) : Java.parted before after ↔ file.Gap before after :=
  ⟨gap_of_parted htype hfault hcut, Gap.parted htype hfault⟩

end SourceFile

end Phrasebook.Java
