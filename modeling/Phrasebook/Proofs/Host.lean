/-
# Phrasebook.Proofs.Host -- what a host lets through

A file is read if its path leads to it and the host does not keep it back.  So the place at which a path
arrives decides what is read there, also in another tree.
-/
import Phrasebook.Host
import Phrasebook.Proofs.FileTree.Kept

namespace Phrasebook.Host

variable {host : Host} {tree tree' : FileTree} {directory directory' : Place} {path path' : Path}

/-- A file that is read stands where its path leads, and the host does not keep it back. -/
theorem read_eq_ok_iff {content : ByteArray} : host.read tree directory path = .ok content ↔
    ∃ place, tree.arrive .target directory path = .ok (.present place (.file content)) ∧
      host.unreadable place = none := by
  unfold read
  split
  · next place there harr =>
    rw [harr]
    unfold readAt
    constructor
    · intro h
      cases hkept : host.unreadable place with
      | some refusal =>
        rw [hkept] at h
        cases h
      | none =>
        rw [hkept] at h
        obtain rfl := Except.ok.inj h
        exact ⟨place, rfl, hkept⟩
    · rintro ⟨place', harr', hkept⟩
      cases harr'
      rw [hkept]
  · next hnofile =>
    rw [FileTree.read_eq_ok_iff, FileTree.status_eq_ok_iff]
    constructor
    · rintro ⟨place, harr⟩
      exact absurd harr (hnofile place content)
    · rintro ⟨place, harr, -⟩
      exact ⟨place, harr⟩

/-- Paths that arrive at the same place read the same. -/
theorem read_congr (h : tree'.arrive .target directory' path' = tree.arrive .target directory path) :
    host.read tree' directory' path' = host.read tree directory path := by
  have hstatus : tree'.status directory' path' = tree.status directory path := by
    rw [FileTree.status_eq, FileTree.status_eq, h]
  unfold read FileTree.read
  rw [h, hstatus]

/-- The host never refuses to remove what stands at a path. -/
def Removes (host : Host) (path : Path) : Prop := ∀ tree, host.refuses tree (.remove path) = none

/-- What has been moved away from a path may be removed there. -/
theorem removes_of_rename (h : host.refuses tree (.rename path path') = none) : host.Removes path :=
  host.removes h

end Phrasebook.Host
