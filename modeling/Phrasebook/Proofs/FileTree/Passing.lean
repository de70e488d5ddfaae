/-
# Phrasebook.Proofs.FileTree.Passing -- ways that lead through a link

A link can be replaced without changing where a path leads, if the path does not lead through it.
`Passes` says that it does, whatever else stands on the way.  A walk around a link is walked again
when something else stands there; a walk through it is not, when that is a file, because it wants to
go on behind it.
-/
import Phrasebook.Proofs.FileTree.Kept

namespace Phrasebook.FileTree

/-- Parts lead from a place through the link at another one. -/
inductive Passes (tree : FileTree) (link : Place) : Place → List Text → Prop
  | there {place : Place} {part destination : Text} {rest : List Text} :
      IsName part → place ++ [part] = link → tree.at? (place ++ [part]) = some (.link destination) →
      Passes tree link place (part :: rest)
  | here {place : Place} {part : Text} {rest : List Text} :
      part = [] ∨ part = Path.here → Passes tree link place rest →
      Passes tree link place (part :: rest)
  | up {place : Place} {part : Text} {rest : List Text} :
      part = Path.up → Passes tree link place.dropLast rest → Passes tree link place (part :: rest)
  | name {place : Place} {part : Text} {rest : List Text} :
      IsName part → (∀ destination, tree.at? (place ++ [part]) ≠ some (.link destination)) →
      Passes tree link (place ++ [part]) rest → Passes tree link place (part :: rest)
  | beyond {place : Place} {part destination : Text} {rest : List Text} :
      IsName part → tree.at? (place ++ [part]) = some (.link destination) →
      Passes tree link (linkStart place destination) (destinationParts destination ++ rest) →
      Passes tree link place (part :: rest)

variable {tree tree' : FileTree} {link place goal : Place} {parts rest : List Text}
  {purpose : Purpose} {links : Nat} {arrival : Arrival}

/-- No link is passed at a directory. -/
theorem Passes.directory {part : Text} (hn : IsName part)
    (hat : tree.at? (place ++ [part]) = some .directory)
    (h : tree.Passes link (place ++ [part]) rest) : tree.Passes link place (part :: rest) :=
  .name hn (fun _ hlink => nomatch hat.symm.trans hlink) h

/-- Through which links parts lead depends on the links alone. -/
theorem Passes.congr (hs : SameLinks tree tree') (h : tree.Passes link place parts) :
    tree'.Passes link place parts := by
  induction h with
  | there hname hplace hat => exact .there hname hplace ((hs _ _).mpr hat)
  | here hpart _ ih => exact .here hpart ih
  | up hpart _ ih => exact .up hpart ih
  | name hname hno _ ih => exact .name hname (fun d hat => hno d ((hs _ d).mp hat)) ih
  | beyond hname hat _ ih => exact .beyond hname ((hs _ _).mpr hat) ih

/-- How a walk goes on with a name depends on what stands there. -/
theorem Walks.cons_name {part : Text} (hn : IsName part)
    (h : tree.Walks purpose links place (part :: rest) arrival) :
    match tree.at? (place ++ [part]) with
    | none => rest = [] ∧ arrival = .vacant place part
    | some (.file content) => rest = [] ∧ arrival = .present (place ++ [part]) (.file content)
    | some .directory => tree.Walks purpose links (place ++ [part]) rest arrival
    | some (.link destination) =>
      rest = [] ∧ purpose = .entry ∧ arrival = .present (place ++ [part]) (.link destination) ∨
        ¬ (rest = [] ∧ purpose = .entry) ∧ ∃ left, links = left + 1 ∧
          tree.Walks purpose left (linkStart place destination)
            (destinationParts destination ++ rest) arrival := by
  generalize hall : part :: rest = all at h
  cases h with
  | done => cases hall
  | here hpart h =>
    obtain ⟨rfl, rfl⟩ := List.cons.inj hall
    exact absurd hpart (not_or.mpr ⟨hn.1, hn.2.1⟩)
  | up hpart h =>
    obtain ⟨rfl, rfl⟩ := List.cons.inj hall
    exact absurd hpart hn.2.2
  | vacant ha hat =>
    obtain ⟨rfl, rfl⟩ := List.cons.inj hall
    rw [hat]
    exact ⟨rfl, rfl⟩
  | file ha hat =>
    obtain ⟨rfl, rfl⟩ := List.cons.inj hall
    rw [hat]
    exact ⟨rfl, rfl⟩
  | entry he ha hat =>
    obtain ⟨rfl, rfl⟩ := List.cons.inj hall
    rw [hat]
    exact Or.inl ⟨rfl, he, rfl⟩
  | directory ha hat h =>
    obtain ⟨rfl, rfl⟩ := List.cons.inj hall
    rw [hat]
    exact h
  | @link left _ _ _ _ _ ha hend hat h =>
    obtain ⟨rfl, rfl⟩ := List.cons.inj hall
    rw [hat]
    exact Or.inr ⟨hend, left, rfl, h⟩

/-- A walk passes a part that is no name. -/
theorem Walks.cons_here {part : Text} (hpart : part = [] ∨ part = Path.here)
    (h : tree.Walks purpose links place (part :: rest) arrival) :
    tree.Walks purpose links place rest arrival := by
  have hname : ¬ IsName part := fun hn => absurd hpart (not_or.mpr ⟨hn.1, hn.2.1⟩)
  cases h with
  | here _ h => exact h
  | up hup h =>
    subst hup
    exact absurd hpart (by decide)
  | vacant ha _ => exact absurd ha.name hname
  | file ha _ => exact absurd ha.name hname
  | entry _ ha _ => exact absurd ha.name hname
  | directory ha _ _ => exact absurd ha.name hname
  | link ha _ _ _ => exact absurd ha.name hname

/-- A walk goes up with a part that says so. -/
theorem Walks.cons_up (h : tree.Walks purpose links place (Path.up :: rest) arrival) :
    tree.Walks purpose links place.dropLast rest arrival := by
  have hname : ¬ IsName Path.up := fun hn => hn.2.2 rfl
  cases h with
  | here hpart h => exact absurd hpart (by decide)
  | up _ h => exact h
  | vacant ha _ => exact absurd ha.name hname
  | file ha _ => exact absurd ha.name hname
  | entry _ ha _ => exact absurd ha.name hname
  | directory ha _ _ => exact absurd ha.name hname
  | link ha _ _ _ => exact absurd ha.name hname

/-- A walk to a directory that leads around a link is walked again, if the directories and the other
links are still there. -/
theorem Walks.around (h : tree.Walks .target links place parts (.present goal .directory))
    (hpass : ¬ tree.Passes link place parts)
    (hdirectories : ∀ p, tree.at? p = some .directory → tree'.at? p = some .directory)
    (hlinks : ∀ p, p ≠ link → ∀ destination, tree.at? p = some (.link destination) →
      tree'.at? p = some (.link destination)) :
    tree'.Walks .target links place parts (.present goal .directory) := by
  generalize hend : Arrival.present goal .directory = final at h ⊢
  induction h with
  | done links place => exact .done links place
  | here hpart _ ih => exact .here hpart (ih (fun h => hpass (.here hpart h)) hend)
  | up hpart _ ih => exact .up hpart (ih (fun h => hpass (.up hpart h)) hend)
  | vacant _ _ => cases hend
  | file _ _ => cases hend
  | entry _ _ _ => cases hend
  | directory ha hat _ ih =>
    have hrest := ih (fun h => hpass (.name ha.name (by simp [hat]) h)) hend
    exact .directory ha (hdirectories _ hat) hrest
  | link ha hmore hat _ ih =>
    have hother := fun heq => hpass (.there ha.name heq hat)
    have hrest := ih (fun h => hpass (.beyond ha.name hat h)) hend
    exact .link ha hmore (hlinks _ hother _ hat) hrest

/-- Where a file stands instead of a link, nothing behind the link is reached any more. -/
theorem Passes.blocked (h : tree.Passes link place parts) {content : ByteArray}
    (hfile : tree'.at? link = some (.file content))
    (hlinks : ∀ p, p ≠ link → ∀ destination,
      tree'.at? p = some (.link destination) ↔ tree.at? p = some (.link destination))
    (hne : rest ≠ []) : ¬ tree'.Walks purpose links place (parts ++ rest) arrival := by
  intro hwalks
  induction h generalizing links rest with
  | @there place part destination others hname hplace hat =>
    have hgoes := hwalks.cons_name hname
    rw [hplace, hfile] at hgoes
    exact hne (List.append_eq_nil_iff.mp hgoes.1).2
  | here hpart _ ih => exact ih hne (hwalks.cons_here hpart)
  | up hpart _ ih =>
    subst hpart
    exact ih hne hwalks.cons_up
  | @name place part others hname hno _ ih =>
    have hgoes := hwalks.cons_name hname
    have hmore : others ++ rest ≠ [] := fun h => hne (List.append_eq_nil_iff.mp h).2
    by_cases hplace : place ++ [part] = link
    · rw [hplace, hfile] at hgoes
      exact hmore hgoes.1
    · cases hat : tree'.at? (place ++ [part]) with
      | none =>
        rw [hat] at hgoes
        exact hmore hgoes.1
      | some entry =>
        rw [hat] at hgoes
        cases entry with
        | file there => exact hmore hgoes.1
        | directory => exact ih hne hgoes
        | link destination => exact hno _ ((hlinks _ hplace _).mp hat)
  | @beyond place part destination others hname hat _ ih =>
    have hgoes := hwalks.cons_name hname
    have hmore : others ++ rest ≠ [] := fun h => hne (List.append_eq_nil_iff.mp h).2
    by_cases hplace : place ++ [part] = link
    · rw [hplace, hfile] at hgoes
      exact hmore hgoes.1
    · rw [(hlinks _ hplace _).mpr hat] at hgoes
      rcases hgoes with ⟨hend, -⟩ | ⟨-, left, -, hgoes⟩
      · exact hmore hend
      · have hmoved : tree'.Walks purpose left (linkStart place destination)
            (destinationParts destination ++ (others ++ rest)) arrival := hgoes
        rw [← List.append_assoc] at hmoved
        exact ih hne hmoved

/-- A way that can be walked on although a file stands at a place does not lead through it. -/
theorem not_passes_of_walks (hlink : link ≠ []) (hne : rest ≠ []) {content : ByteArray}
    (h : (tree.put link (.file content)).Walks purpose links place (parts ++ rest) arrival) :
    ¬ tree.Passes link place parts := by
  intro hpass
  refine hpass.blocked (by rw [at?_put _ hlink, if_pos rfl]) ?_ hne h
  intro p hp destination
  rw [at?_put _ hlink, if_neg hp]

end Phrasebook.FileTree
