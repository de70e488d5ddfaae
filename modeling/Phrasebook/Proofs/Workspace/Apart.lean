/-
# Phrasebook.Proofs.Workspace.Apart -- the files of different packages stand apart

Two files can stand in one tree if their paths differ and neither is the path of a directory that the
other one needs.  Below one root this is so for the source files and the temporary files of all legal
packages: a path that continues another one would have a file name among the segments of its package,
and no segment holds a dot.
-/
import Phrasebook.Proofs.Workspace.Written

namespace Phrasebook

/-! ## Paths of files that do not stand in each other's way -/

/-- A path is that of a directory on the way to another path. -/
def Path.Above (a b : Path) : Prop := ∃ names, names ≠ [] ∧ b = a.below names

/-- Two paths differ, and neither is that of a directory on the way to the other one. -/
structure Path.Apart (a b : Path) : Prop where
  ne : a ≠ b
  not_above : ¬ a.Above b
  not_below : ¬ b.Above a

/-- Paths below one root stand apart if neither goes on from where the other one ends. -/
theorem Path.apart_below (root : Path) {parts parts' : List Text} (h : ¬ parts <+: parts')
    (h' : ¬ parts' <+: parts) : (root.below parts).Apart (root.below parts') := by
  have hpre : ∀ {xs ys : List Text}, (root.below xs).Above (root.below ys) → xs <+: ys := by
    rintro xs ys ⟨names, -, heq⟩
    have hparts : root.parts ++ ys = root.parts ++ xs ++ names := congrArg Path.parts heq
    rw [List.append_assoc] at hparts
    exact ⟨names, (List.append_cancel_left hparts).symm⟩
  refine ⟨fun heq => h ?_, fun habove => h (hpre habove), fun habove => h' (hpre habove)⟩
  have hparts : root.parts ++ parts = root.parts ++ parts' := congrArg Path.parts heq
  exact List.append_cancel_left hparts ▸ List.prefix_rfl

namespace Workspace

open Java (isIdentifier isPackageName checkPackage)

/-! ## The files of packages -/

/-- A file whose name is no identifier is on the way to a file of a legal package only if it is that
file. -/
theorem eq_of_partsIn_prefix {package other name name' : Text} (hn : isIdentifier name = false)
    (ho : isPackageName other = true) (h : partsIn package name <+: partsIn other name') :
    package = other ∧ name = name' := by
  obtain ⟨rest, heq⟩ := h
  rcases List.eq_nil_or_concat rest with rfl | ⟨init, last, rfl⟩
  · rw [List.append_nil] at heq
    exact partsIn_inj heq
  · -- the file name would be one of the segments
    rw [partsIn, partsIn, List.concat_eq_append, ← List.append_assoc] at heq
    have hsegments := (List.append_inj' heq rfl).1
    have hmem : name ∈ Text.split '.' other := hsegments ▸ by simp
    rw [isIdentifier_of_mem_segments ho hmem] at hn
    cases hn

/-- Different files of legal packages stand apart. -/
theorem apart_partsIn (root : Path) {package other name name' : Text}
    (hp : isPackageName package = true) (ho : isPackageName other = true)
    (hn : isIdentifier name = false) (hn' : isIdentifier name' = false)
    (hne : package ≠ other ∨ name ≠ name') :
    (root.below (partsIn package name)).Apart (root.below (partsIn other name')) := by
  refine Path.apart_below root (fun h => ?_) fun h => ?_
  · obtain ⟨hpackage, hname⟩ := eq_of_partsIn_prefix hn ho h
    exact hne.elim (· hpackage) (· hname)
  · obtain ⟨hpackage, hname⟩ := eq_of_partsIn_prefix hn' hp h
    exact hne.elim (· hpackage.symm) (· hname.symm)

/-- The parts between the root and the source file of a legal package spell the package, and of the
source files of two legal packages and their temporary siblings each stands apart from each other
one. -/
theorem files_apart (root : Path) {p q r s : Text} (hp : checkPackage p = .ok r)
    (hq : checkPackage q = .ok s) (hne : p ≠ q) :
    (∃ segments, targetPath root p = root.below (segments ++ [sourceFileName]) ∧
      Text.join "." segments = p) ∧
    List.Pairwise Path.Apart
      [targetPath root p, temporaryPath (targetPath root p),
        targetPath root q, temporaryPath (targetPath root q)] := by
  obtain ⟨hp, -⟩ := checkPackage_eq_ok_iff.mp hp
  obtain ⟨hq, -⟩ := checkPackage_eq_ok_iff.mp hq
  refine ⟨⟨Text.split '.' p, targetPath_eq_below root hp, Text.join_split '.' p⟩, ?_⟩
  rw [temporaryPath_eq_below root hp, temporaryPath_eq_below root hq,
    targetPath_eq_below root hp, targetPath_eq_below root hq]
  have hsource := isIdentifier_sourceFileName
  have htemporary : isIdentifier temporaryName = false := isIdentifier_temporaryName
  have hnames := Ne.symm temporaryName_ne
  simp only [List.pairwise_cons, List.forall_mem_cons, List.not_mem_nil, false_imp_iff, implies_true,
    and_true, List.Pairwise.nil]
  exact ⟨⟨apart_partsIn root hp hp hsource htemporary (.inr hnames),
      apart_partsIn root hp hq hsource hsource (.inl hne),
      apart_partsIn root hp hq hsource htemporary (.inl hne)⟩,
    ⟨apart_partsIn root hp hq htemporary hsource (.inl hne),
      apart_partsIn root hp hq htemporary htemporary (.inl hne)⟩,
    apart_partsIn root hq hq hsource htemporary (.inr hnames)⟩

/-- A package that goes on from another one with the segments of its file names keeps apart from it. -/
theorem files_apart_nested :
    List.Pairwise Path.Apart
      [.ofText "/out/a/Phrase.java", .ofText "/out/a/Phrase.java.tmp",
        .ofText "/out/a/Phrase/java/tmp/Phrase.java",
        .ofText "/out/a/Phrase/java/tmp/Phrase.java.tmp"] := by
  have h := (files_apart (.ofText "/out") (p := "a") (q := "a.Phrase.java.tmp") rfl rfl (by decide)).2
  have hpaths : [targetPath (.ofText "/out") "a", temporaryPath (targetPath (.ofText "/out") "a"),
      targetPath (.ofText "/out") "a.Phrase.java.tmp",
      temporaryPath (targetPath (.ofText "/out") "a.Phrase.java.tmp")] =
      [.ofText "/out/a/Phrase.java", .ofText "/out/a/Phrase.java.tmp",
        .ofText "/out/a/Phrase/java/tmp/Phrase.java",
        .ofText "/out/a/Phrase/java/tmp/Phrase.java.tmp"] := by decide +kernel
  exact hpaths ▸ h

end Workspace

end Phrasebook
