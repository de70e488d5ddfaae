/-
# Phrasebook.Proofs.Workspace.Directories -- making directories only adds directories

Making a directory, with or without those above it, changes a tree in one way only: directories come
to stand where nothing stood, at the place itself and above it.  `Grown` is this relation.  It holds
however the attempt ends, so that it also describes what a failed attempt leaves behind.
-/
import Phrasebook.Proofs.FileTree.Linkless
import Phrasebook.Proofs.World
import Phrasebook.Workspace.Output

namespace Phrasebook.Workspace

/-- Nothing has changed but that directories stand where nothing stood, at a place and above it. -/
def Grown (place : Place) (tree tree' : FileTree) : Prop :=
  ∀ p, tree'.at? p = tree.at? p ∨
    tree.at? p = none ∧ tree'.at? p = some .directory ∧ p <+: place

namespace Grown

variable {place other : Place} {tree tree' tree'' : FileTree}

theorem refl (place : Place) (tree : FileTree) : Grown place tree tree := fun _ => Or.inl rfl

theorem trans (h : Grown place tree tree') (h' : Grown place tree' tree'') :
    Grown place tree tree'' := by
  intro p
  rcases h p with he | ⟨hnone, hdir, hp⟩
  · rw [← he]
    exact h' p
  · rcases h' p with he' | ⟨hnone', -, -⟩
    · exact Or.inr ⟨hnone, he'.trans hdir, hp⟩
    · rw [hdir] at hnone'
      cases hnone'

theorem mono (hp : place <+: other) (h : Grown place tree tree') : Grown other tree tree' := by
  intro p
  rcases h p with he | ⟨hnone, hdir, hpre⟩
  · exact Or.inl he
  · exact Or.inr ⟨hnone, hdir, hpre.trans hp⟩

theorem linkless (h : Grown place tree tree') (hl : tree.Linkless) : tree'.Linkless := by
  intro p destination hlink
  rcases h p with he | ⟨-, hdir, -⟩
  · exact hl p destination (he ▸ hlink)
  · rw [hdir] at hlink
    cases hlink

/-- What stands somewhere stays there. -/
theorem keeps (h : Grown place tree tree') {p : Place} {entry : Entry}
    (hat : tree.at? p = some entry) : tree'.at? p = some entry := by
  rcases h p with he | ⟨hnone, -, -⟩
  · exact he.trans hat
  · rw [hnone] at hat
    cases hat

end Grown

/-! ## Making directories step by step -/

section

variable {w : World} {R : Path → FileTree → FileTree → Prop}

/-- Making a directory unless there is one makes a directory or changes nothing. -/
theorem ensureDirectory_relates {path : Path} (hrefl : ∀ tree, R path tree tree)
    (hmake : ∀ tree directory tree', tree.makeDirectory directory path = .ok tree' →
      R path tree tree') :
    ∃ tree, (ensureDirectory (m := StateM World) path w).2 = { w with tree } ∧
      R path w.tree tree := by
  unfold ensureDirectory
  rcases World.makeDirectory_cases path w with ⟨e, hw⟩ | ⟨tree, hmade, hw⟩
  · -- nothing is made; what follows only asks what is there
    refine ⟨w.tree, ?_, hrefl w.tree⟩
    rw [World.bind_apply, hw]
    by_cases he : (decide (e = .notFound) || !e.isFromSystem) = true
    · simp only [he, if_true, World.pure_apply]
    · simp only [he]
      rw [if_neg (by simp), World.bind_apply]
      have hask : (Workspace.status (m := StateM World) path w).2 = w := rfl
      rcases (Workspace.status (m := StateM World) path w).1 with e' | ⟨_ | _⟩ <;> exact hask
  · exact ⟨tree, by rw [World.bind_apply, hw]; rfl, hmake _ _ _ hmade⟩

/-- Making a directory and those above it is a sequence of such steps, so a relation that holds of
each step, and that a path has from its parent, holds of the whole. -/
theorem ensureDirectories_relates (path : Path) (hrefl : ∀ path tree, R path tree tree)
    (htrans : ∀ path tree tree' tree'', R path tree tree' → R path tree' tree'' →
      R path tree tree'')
    (hparent : ∀ path tree tree', R path.parent tree tree' → R path tree tree')
    (hmake : ∀ path tree directory tree', tree.makeDirectory directory path = .ok tree' →
      R path tree tree') :
    ∃ tree, (ensureDirectories (m := StateM World) path w).2 = { w with tree } ∧
      R path w.tree tree := by
  induction h : path.parts.length using Nat.strongRecOn generalizing path w with
  | ind n ih =>
    obtain ⟨tree₁, hw₁, hR₁⟩ := ensureDirectory_relates (w := w) (hrefl path) (hmake path)
    rw [ensureDirectories, World.bind_apply, hw₁]
    cases (ensureDirectory (m := StateM World) path w).1 with
    | ok _ => exact ⟨tree₁, rfl, hR₁⟩
    | error e =>
      cases e with
      | notFound =>
        by_cases hroot : path.parts = []
        · rw [if_pos hroot]
          exact ⟨tree₁, rfl, hR₁⟩
        -- the parent first, then the directory itself once more
        rw [if_neg hroot]
        have hshort : path.parent.parts.length < n := by
          have := List.length_pos_iff.mpr hroot
          simp only [Path.parent, List.length_dropLast]
          omega
        obtain ⟨tree₂, hw₂, hR₂⟩ := ih _ hshort path.parent (w := { w with tree := tree₁ }) rfl
        have hR₁₂ : R path w.tree tree₂ := htrans path _ _ _ hR₁ (hparent path _ _ hR₂)
        simp only [World.bind_apply]
        rw [hw₂]
        rcases (ensureDirectories (m := StateM World) path.parent { w with tree := tree₁ }).1 with e | -
        · exact ⟨tree₂, rfl, hR₁₂⟩
        · obtain ⟨tree₃, hw₃, hR₃⟩ :=
            ensureDirectory_relates (w := { w with tree := tree₂ }) (hrefl path) (hmake path)
          exact ⟨tree₃, hw₃, htrans path _ _ _ hR₁₂ hR₃⟩
      | _ => exact ⟨tree₁, rfl, hR₁⟩

end

/-! ## Without links -/

theorem plain_parent {path : Path} (h : path.Plain) : path.parent.Plain where
  absolute := h.absolute
  parts := fun part hm => h.parts part (List.dropLast_subset _ hm)

/-- A directory that is made is all that is new. -/
theorem grown_of_makeDirectory {path : Path} {tree tree' : FileTree} {directory : Place}
    (hl : tree.Linkless) (hp : path.Plain)
    (h : tree.makeDirectory directory path = .ok tree') : Grown path.parts tree tree' := by
  obtain ⟨hnone, rfl⟩ := FileTree.makeDirectory_ok hl hp h
  have hne : path.parts ≠ [] := by
    intro h
    rw [h] at hnone
    cases hnone
  intro p
  rw [FileTree.at?_put _ hne]
  by_cases h : p = path.parts
  · rw [if_pos h, h]
    exact Or.inr ⟨hnone, rfl, List.prefix_rfl⟩
  · exact Or.inl (if_neg h)

/-- Making a directory, with those above it, makes at most these. -/
theorem ensureDirectories_grows {w : World} {path : Path} (hl : w.tree.Linkless)
    (hp : path.Plain) :
    ∃ tree, (ensureDirectories (m := StateM World) path w).2 = { w with tree } ∧
      Grown path.parts w.tree tree := by
  obtain ⟨tree, hw, hg⟩ := ensureDirectories_relates (w := w) path
    (R := fun path tree tree' => tree.Linkless → path.Plain → Grown path.parts tree tree')
    (fun _ _ _ _ => Grown.refl _ _)
    (fun _ _ _ _ h h' hl hp => (h hl hp).trans (h' ((h hl hp).linkless hl) hp))
    (fun path _ _ h hl hp => (h hl (plain_parent hp)).mono (List.dropLast_prefix path.parts))
    (fun _ _ _ _ h hl hp => grown_of_makeDirectory hl hp h)
  exact ⟨tree, hw, hg hl hp⟩

end Phrasebook.Workspace
