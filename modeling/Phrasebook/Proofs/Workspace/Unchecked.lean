/-
# Phrasebook.Proofs.Workspace.Unchecked -- where a package leads if no names are checked

Without the check any text is a package.  Its dots become slashes, so that what it adds to a path are
its pieces between dots and slashes, and a piece can never be `..`, since it would have to hold a dot.
A package cannot climb out of the root, then.  But it can leave it at once: a dot or a slash at its
beginning makes its path absolute, and an absolute path is not taken from the root.
-/
import Phrasebook.Proofs.Emission.Listing
import Phrasebook.Proofs.Workspace.Written

namespace Phrasebook

/-! ## Pieces -/

/-- No separator is left in the pieces of a list. -/
theorem not_mem_of_mem_splitOnP {α : Type} {p : α → Bool} {xs piece : List α}
    (h : piece ∈ xs.splitOnP p) : ∀ x ∈ piece, p x = false := by
  induction xs generalizing piece with
  | nil =>
    rw [List.splitOnP_nil, List.mem_singleton] at h
    rw [h]
    exact fun x hx => nomatch hx
  | cons c cs ih =>
    rw [List.splitOnP_cons_eq_if_modifyHead] at h
    split at h
    · rcases List.mem_cons.mp h with rfl | h
      · exact fun x hx => nomatch hx
      · exact ih h
    · next hc =>
      -- the character belongs to the first of the later pieces
      cases hpieces : cs.splitOnP p with
      | nil => rw [hpieces] at h; cases h
      | cons first rest =>
        rw [hpieces, List.modifyHead_cons] at h
        have hfirst := ih (hpieces ▸ List.mem_cons_self : first ∈ cs.splitOnP p)
        rcases List.mem_cons.mp h with rfl | h
        · exact List.forall_mem_cons.mpr ⟨Bool.eq_false_iff.mpr hc, hfirst⟩
        · exact ih (hpieces ▸ List.mem_cons_of_mem first h)

/-- What ends a piece of a package. -/
def isBreak (c : CodePoint) : Bool := c = .scalar '.' || c = Path.slash

/-- The pieces of a package between its dots and slashes. -/
def packagePieces (package : Text) : List Text :=
  (package.splitOnP isBreak).filter fun piece => !piece.isEmpty

/-- A piece of a package is not empty and holds neither dots nor slashes. -/
theorem packagePieces_spec {package piece : Text} (h : piece ∈ packagePieces package) :
    piece ≠ [] ∧ ∀ c ∈ piece, isBreak c = false := by
  obtain ⟨hmem, hne⟩ := List.mem_filter.mp h
  exact ⟨fun he => by simp [he] at hne, not_mem_of_mem_splitOnP hmem⟩

/-- With slashes for the dots a package falls apart at the slashes where it did at both. -/
theorem split_slashed (package : Text) :
    Text.split Path.slash (package.map fun c => if c = .scalar '.' then Path.slash else c) =
      package.splitOnP isBreak := by
  induction package with
  | nil => rfl
  | cons c cs ih =>
    rw [List.map_cons, List.splitOnP_cons_eq_if_modifyHead, Text.split, ih]
    by_cases hdot : c = .scalar '.'
    · simp [hdot, isBreak]
    · by_cases hslash : c = Path.slash
      · simp [hslash, isBreak]
      · rw [if_neg hdot, if_neg hslash, if_neg (by simp [isBreak, hdot, hslash])]
        cases hpieces : cs.splitOnP isBreak with
        | nil => exact absurd hpieces (List.splitOnP_ne_nil isBreak cs)
        | cons piece pieces => rw [List.modifyHead_cons]

/-- The parts of the path of a package are its pieces. -/
theorem parts_packagePath (package : Text) :
    (packagePath package).parts = packagePieces package := by
  show (Text.split Path.slash _).filter Path.isPart = _
  rw [split_slashed, packagePieces]
  refine List.filter_congr fun piece hpiece => ?_
  have hhere : piece ≠ Path.here := by
    rintro rfl
    exact absurd (not_mem_of_mem_splitOnP hpiece _ List.mem_cons_self) (by decide)
  simp [Path.isPart, hhere]

/-! ## Where the path starts -/

/-- A path is absolute if it is written with a slash at its beginning. -/
theorem isAbsolute_ofText (t : Text) :
    (Path.ofText t).isAbsolute = t.head?.any fun c => c = Path.slash := by
  show decide (Path.anchorOf t ≠ .relative) = _
  unfold Path.anchorOf
  cases t with
  | nil => rfl
  | cons c cs =>
    by_cases hc : c = Path.slash
    · rw [List.takeWhile_cons_of_pos (by simpa using hc), List.length_cons]
      split <;> simp_all
    · rw [List.takeWhile_cons_of_neg (by simpa using hc)]
      simp [hc]

/-- The path of a package is absolute if a dot or a slash stands at its beginning. -/
theorem isAbsolute_packagePath (package : Text) :
    (packagePath package).isAbsolute = package.head?.any isBreak := by
  rw [packagePath, isAbsolute_ofText]
  cases package with
  | nil => rfl
  | cons c cs =>
    by_cases hdot : c = .scalar '.'
    · simp [hdot, isBreak]
    · simp [hdot, isBreak]

namespace Workspace

/-- Without the check every package yields a text, and what is written stands in the directory of the
package.  The package adds to the root nothing but its pieces between dots and slashes, none of which
leads upwards, unless a dot or a slash stands at its beginning: its directory is then the same absolute
path under every root. -/
theorem unchecked_directory {settings : Settings} (hv : settings.validate = false) (root : Path)
    (batch : Batch) :
    (∃ text, sourceText batch settings = .ok text) ∧
    (∀ w w' path, World.run (emit root settings batch) w = (.ok path, w') →
      path = (packageDirectory root batch.package).child sourceFileName) ∧
    (packagePath batch.package).parts = packagePieces batch.package ∧
    (∀ piece ∈ packagePieces batch.package, piece ≠ Path.here ∧ piece ≠ Path.up) ∧
    (batch.package.head?.any isBreak = false →
      packageDirectory root batch.package = root.below (packagePieces batch.package)) ∧
    (batch.package.head?.any isBreak = true →
      (packageDirectory root batch.package).isAbsolute = true ∧
      (packageDirectory root batch.package).parts = packagePieces batch.package ∧
      ∀ other, packageDirectory other batch.package = packageDirectory root batch.package) := by
  have hparts := parts_packagePath batch.package
  have habsolute := isAbsolute_packagePath batch.package
  refine ⟨⟨_, Listing.sourceText_eq (.inl hv)⟩, fun w w' path h => (emit_eq_ok h).1, hparts, ?_, ?_, ?_⟩
  · intro piece hpiece
    have hbreaks := (packagePieces_spec hpiece).2
    refine ⟨?_, ?_⟩
    · rintro rfl
      exact absurd (hbreaks _ List.mem_cons_self) (by decide)
    · rintro rfl
      exact absurd (hbreaks _ List.mem_cons_self) (by decide)
  · intro hstart
    show Path.append root (packagePath batch.package) = _
    rw [Path.append, habsolute, hstart, hparts]
    rfl
  · intro hstart
    have hsame : ∀ other, packageDirectory other batch.package = packagePath batch.package := by
      intro other
      show Path.append other (packagePath batch.package) = _
      rw [Path.append, habsolute, hstart, if_pos rfl]
    rw [hsame root]
    exact ⟨habsolute.trans hstart, hparts, hsame⟩

/-- A package that leaves its root, though nothing in it leads upwards. -/
theorem unchecked_directory_etc :
    packageDirectory (.ofText "/w/out") "..etc/.x.y" = .ofText "//etc/x/y" := by
  have hv : ({ validate := false } : Settings).validate = false := rfl
  have h := unchecked_directory hv (.ofText "/w/out") ⟨"..etc/.x.y", []⟩
  obtain ⟨-, -, -, -, -, hleft⟩ := h
  obtain ⟨-, -, hsame⟩ := hleft rfl
  exact (hsame (.ofText ".")).symm.trans (by decide +kernel)

end Workspace

end Phrasebook
