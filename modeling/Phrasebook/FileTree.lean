/-
# Phrasebook.FileTree -- directories, files and symbolic links

A file tree gives every place, named by the parts from the root down to it, what stands there.
`FileTree.at?` is the view of a tree, and `put` and `erase` change it at one place and nowhere else.
The root is a directory and cannot be changed.

Directories, files and symbolic links are all there is: a file stands at one place only, as there are no
hard links, and pipes, devices and other special files are left out.  Entries have no owners, no
permissions and no times.  Errors that do not follow from what stands where are a matter of
`Phrasebook.Host`.

How a path leads to a place is the subject of `Phrasebook.FileTree.Walk`.
-/
import Phrasebook.Path

namespace Phrasebook

/-- A place in a file tree: the names from the root down. -/
abbrev Place := List Text

/-- What stands at a place. -/
inductive Entry where
  | file (content : ByteArray)
  | link (destination : Text)
  | directory
deriving Inhabited

namespace Entry

/-- Whether an entry is a directory. -/
def isDirectory : Entry → Bool
  | directory => true
  | _ => false

end Entry

/-- The entries of a file tree below its root, at most one for each place. -/
structure FileTree where
  entries : List (Place × Entry) := []
deriving Inhabited

namespace FileTree

/-- What stands at a place. -/
def at? (tree : FileTree) (place : Place) : Option Entry :=
  if place = [] then some .directory else tree.entries.lookup place

/-- The tree without the entry at a place. -/
def erase (tree : FileTree) (place : Place) : FileTree where
  entries := tree.entries.filter fun e => e.1 ≠ place

/-- The tree with an entry at a place, replacing what stood there. -/
def put (tree : FileTree) (place : Place) (entry : Entry) : FileTree where
  entries := (tree.erase place).entries ++ [(place, entry)]

/-- The tree without anything at a place or below. -/
def prune (tree : FileTree) (place : Place) : FileTree where
  entries := tree.entries.filter fun e => !place.isPrefixOf e.1

theorem lookup_filter_ne {place other : Place} (entries : List (Place × Entry)) :
    (entries.filter fun e => e.1 ≠ place).lookup other =
      if other = place then none else entries.lookup other := by
  induction entries with
  | nil => simp
  | cons e es ih =>
    obtain ⟨k, v⟩ := e
    by_cases hk : k = place
    · subst hk
      rw [List.filter_cons_of_neg (by simp), ih]
      by_cases ho : other = k
      · simp [ho]
      · simp [ho, List.lookup_cons, beq_false_of_ne ho]
    · rw [List.filter_cons_of_pos (by simp [hk])]
      by_cases ho : other = k
      · simp [ho, hk]
      · simp [List.lookup_cons, beq_false_of_ne ho, ← ih]

theorem lookup_append_single (entries : List (Place × Entry)) (place other : Place) (entry : Entry) :
    (entries ++ [(place, entry)]).lookup other =
      (entries.lookup other).or (if other = place then some entry else none) := by
  induction entries with
  | nil =>
    by_cases h : other = place
    · simp [h]
    · simp [List.lookup_cons, beq_false_of_ne h, h]
  | cons e es ih =>
    obtain ⟨k, v⟩ := e
    by_cases h : other = k
    · simp [h]
    · simp [List.lookup_cons, beq_false_of_ne h, ih]

/-- Erasing removes what stands at the place and nothing else. -/
theorem at?_erase (tree : FileTree) {place : Place} (other : Place) :
    (tree.erase place).at? other =
      if other ≠ [] ∧ other = place then none else tree.at? other := by
  unfold at? erase
  rw [lookup_filter_ne]
  by_cases h : other = []
  · simp [h]
  · simp [h]

/-- Putting an entry at a place is seen there and nowhere else. -/
theorem at?_put (tree : FileTree) {place : Place} (hp : place ≠ []) (entry : Entry) (other : Place) :
    (tree.put place entry).at? other = if other = place then some entry else tree.at? other := by
  unfold at? put erase
  rw [lookup_append_single, lookup_filter_ne]
  by_cases h : other = place
  · subst h
    simp [hp]
  · simp [h]

end FileTree

end Phrasebook
