/-
# Phrasebook.Proofs.FileTree.Leads -- where a path leads, links followed

How a walk ends depends on everything that stands on its way.  Where it ends, if it does, depends on
the links alone: `Leads` follows these and passes over the rest, so that it also says where a path
would lead once directories are there.  Trees with the same links agree on it.
-/
import Phrasebook.Proofs.FileTree.Walks

namespace Phrasebook

namespace FileTree

/-- Parts lead from one place to another if links are followed and names passed. -/
inductive Leads (tree : FileTree) : Place → List Text → Place → Prop
  | done (place : Place) : Leads tree place [] place
  | here {place goal : Place} {part : Text} {rest : List Text} :
      part = [] ∨ part = Path.here → Leads tree place rest goal →
      Leads tree place (part :: rest) goal
  | up {place goal : Place} {part : Text} {rest : List Text} :
      part = Path.up → Leads tree place.dropLast rest goal → Leads tree place (part :: rest) goal
  | name {place goal : Place} {part : Text} {rest : List Text} :
      IsName part → (∀ destination, tree.at? (place ++ [part]) ≠ some (.link destination)) →
      Leads tree (place ++ [part]) rest goal → Leads tree place (part :: rest) goal
  | link {place goal : Place} {part destination : Text} {rest : List Text} :
      IsName part → tree.at? (place ++ [part]) = some (.link destination) →
      Leads tree (linkStart place destination) (destinationParts destination ++ rest) goal →
      Leads tree place (part :: rest) goal

/-- Two trees have the same links. -/
def SameLinks (tree tree' : FileTree) : Prop :=
  ∀ place destination,
    tree'.at? place = some (.link destination) ↔ tree.at? place = some (.link destination)

theorem SameLinks.symm {tree tree' : FileTree} (h : SameLinks tree tree') : SameLinks tree' tree :=
  fun place destination => (h place destination).symm

namespace Leads

variable {tree tree' : FileTree} {place middle goal other : Place} {parts rest : List Text}

/-- A directory is passed like any other name. -/
theorem directory {part : Text} (hn : IsName part)
    (hat : tree.at? (place ++ [part]) = some .directory)
    (h : tree.Leads (place ++ [part]) rest goal) : tree.Leads place (part :: rest) goal :=
  .name hn (fun _ hlink => nomatch hat.symm.trans hlink) h

/-- Parts lead to one place at most. -/
theorem unique (h : tree.Leads place parts goal) (h' : tree.Leads place parts other) :
    goal = other := by
  induction h with
  | done place =>
    cases h'
    rfl
  | here hpart _ ih =>
    cases h' with
    | here _ h' => exact ih h'
    | up hup => subst hup; exact absurd hpart (by decide)
    | name hname => exact absurd hpart (not_or.mpr ⟨hname.1, hname.2.1⟩)
    | link hname => exact absurd hpart (not_or.mpr ⟨hname.1, hname.2.1⟩)
  | up hpart _ ih =>
    cases h' with
    | here hhere => subst hpart; exact absurd hhere (by decide)
    | up _ h' => exact ih h'
    | name hname => exact absurd hpart hname.2.2
    | link hname => exact absurd hpart hname.2.2
  | name hname hno _ ih =>
    cases h' with
    | here hhere => exact absurd hhere (not_or.mpr ⟨hname.1, hname.2.1⟩)
    | up hup => exact absurd hup hname.2.2
    | name _ _ h' => exact ih h'
    | link _ hat => exact absurd hat (hno _)
  | link hname hat _ ih =>
    cases h' with
    | here hhere => exact absurd hhere (not_or.mpr ⟨hname.1, hname.2.1⟩)
    | up hup => exact absurd hup hname.2.2
    | name _ hno => exact absurd hat (hno _)
    | link _ hat' h' =>
      obtain rfl := Entry.link.inj (Option.some.inj (hat.symm.trans hat'))
      exact ih h'

/-- Where parts lead depends on the links alone. -/
theorem congr (hs : SameLinks tree tree') (h : tree.Leads place parts goal) :
    tree'.Leads place parts goal := by
  induction h with
  | done place => exact .done place
  | here hpart _ ih => exact .here hpart ih
  | up hpart _ ih => exact .up hpart ih
  | name hname hno _ ih => exact .name hname (fun d hat => hno d ((hs _ d).mp hat)) ih
  | link hname hat _ ih => exact .link hname ((hs _ _).mpr hat) ih

/-- Parts lead on from where the parts before them lead. -/
theorem append (h : tree.Leads place parts middle) (h' : tree.Leads middle rest goal) :
    tree.Leads place (parts ++ rest) goal := by
  induction h with
  | done place => exact h'
  | here hpart _ ih => exact .here hpart (ih h')
  | up hpart _ ih => exact .up hpart (ih h')
  | name hname hno _ ih => exact .name hname hno (ih h')
  | link hname hat _ ih =>
    refine .link hname hat ?_
    have hrest := ih h'
    rw [List.append_assoc] at hrest
    exact hrest

/-- On a clear way names lead to the place that they spell. -/
theorem of_clear (hc : tree.Clear .target place parts) (hp : PlainParts parts) :
    tree.Leads place parts (place ++ parts) := by
  induction parts generalizing place with
  | nil =>
    rw [List.append_nil]
    exact .done place
  | cons part rest ih =>
    have hrest := ih hc.2 fun p hm => hp p (List.mem_cons_of_mem part hm)
    rw [List.append_assoc] at hrest
    refine .name (hp part (List.mem_cons_self ..)) ?_ hrest
    intro destination hat
    exact absurd (hc.1 destination hat).2 (by decide)

end Leads

/-- A walk that follows links arrives where its parts lead. -/
theorem Walks.leads {tree : FileTree} {purpose : Purpose} (hp : purpose ≠ .entry) {links : Nat}
    {place : Place} {parts : List Text} {arrival : Arrival}
    (h : tree.Walks purpose links place parts arrival) :
    tree.Leads place parts arrival.place := by
  induction h with
  | done links place => exact .done place
  | here hpart _ ih => exact .here hpart ih
  | up hpart _ ih => exact .up hpart ih
  | vacant ha hat => exact .name ha.name (fun d hlink => nomatch hat.symm.trans hlink) (.done _)
  | file ha hat => exact .name ha.name (fun d hlink => nomatch hat.symm.trans hlink) (.done _)
  | entry he _ _ => exact absurd he hp
  | directory ha hat _ ih =>
    exact .name ha.name (fun d hlink => nomatch hat.symm.trans hlink) ih
  | link ha _ hat _ ih => exact .link ha.name hat ih

end FileTree

end Phrasebook
