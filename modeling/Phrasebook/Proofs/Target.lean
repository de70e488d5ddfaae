/-
# Phrasebook.Proofs.Target -- the places of generated files never meet

Below an output root, the directory of a legal package has the segments of the package as its parts,
so packages and directories determine each other.  The names of a source file and of its temporary
sibling are no segments.  Hence no file of one package stands where another one has its own, nor
where the directories of another one have to be.
-/
import Phrasebook.Proofs.Java.Legal
import Phrasebook.Proofs.FileTree.Linkless
import Phrasebook.Target

namespace Phrasebook

open Java (isIdentifier isPackageName)

/-! ## The directory of a package -/

/-- Exchanging the separator for one that does not occur does not change the pieces. -/
theorem split_map_sep {sep other : CodePoint} {t : Text} (h : other ∉ t) :
    Text.split other (t.map fun c => if c = sep then other else c) = Text.split sep t := by
  induction t with
  | nil => rfl
  | cons c cs ih =>
    have hc : c ≠ other := fun e => h (e ▸ List.mem_cons_self ..)
    have hcs : other ∉ cs := fun hm => h (List.mem_cons_of_mem c hm)
    rw [List.map_cons]
    by_cases hs : c = sep
    · rw [if_pos hs, Text.split, if_pos rfl, Text.split, if_pos hs, ih hcs]
    · rw [if_neg hs, Text.split, if_neg hc, Text.split, if_neg hs, ih hcs]

/-- The segments of a legal package are identifiers. -/
theorem isIdentifier_of_mem_segments {package segment : Text} (h : isPackageName package = true)
    (hm : segment ∈ Text.split '.' package) : isIdentifier segment = true :=
  List.all_eq_true.mp h segment hm

/-- An identifier is a plain part of a path. -/
theorem plain_of_isIdentifier {name : Text} (h : isIdentifier name = true) :
    name ≠ [] ∧ name ≠ Path.here ∧ name ≠ Path.up := by
  refine ⟨Java.isIdentifier_ne_nil h, ?_, ?_⟩
  · rintro rfl
    exact absurd h (by decide)
  · rintro rfl
    exact absurd h (by decide)

/-- The path of a legal package is relative and has its segments as parts. -/
theorem packagePath_eq {package : Text} (h : isPackageName package = true) :
    packagePath package = ⟨.relative, Text.split '.' package⟩ := by
  have hslash : Path.slash ∉ package :=
    Java.not_mem_of_isPackageName h (by decide) (by decide)
  unfold packagePath Path.ofText
  rw [split_map_sep hslash, List.filter_eq_self.mpr]
  · congr 1
    -- the first character of the package is neither a dot nor a slash
    cases package with
    | nil => exact absurd h (by decide)
    | cons c cs =>
      have hc : c ≠ Path.slash := fun e => hslash (e ▸ List.mem_cons_self ..)
      have hdot : c ≠ .scalar '.' := by
        rintro rfl
        have hm : ([] : Text) ∈ Text.split '.' ((.scalar '.' : CodePoint) :: cs) := by
          rw [Text.split, if_pos rfl]
          exact List.mem_cons_self ..
        exact absurd (isIdentifier_of_mem_segments h hm) (by decide)
      rw [List.map_cons, if_neg hdot, Path.anchorOf, List.takeWhile_cons_of_neg (by simpa using hc)]
      rfl
  · intro segment hm
    obtain ⟨hne, hhere, -⟩ := plain_of_isIdentifier (isIdentifier_of_mem_segments h hm)
    simp [Path.isPart, hne, hhere]

variable {root : Path} {package other : Text}

/-- The directory of a legal package has the parts of the root and then the segments. -/
theorem packageDirectory_eq (root : Path) (h : isPackageName package = true) :
    packageDirectory root package = ⟨root.anchor, root.parts ++ Text.split '.' package⟩ := by
  unfold packageDirectory
  rw [packagePath_eq h]
  rfl

/-- The directory of a legal package is plain if the root is. -/
theorem plain_packageDirectory (hr : root.Plain) (h : isPackageName package = true) :
    (packageDirectory root package).Plain := by
  rw [packageDirectory_eq root h]
  refine ⟨hr.absolute, ?_⟩
  intro part hm
  rcases List.mem_append.mp hm with hm | hm
  · exact hr.parts part hm
  · exact plain_of_isIdentifier (isIdentifier_of_mem_segments h hm)

/-- An absolute path without `..` is plain, however it is written. -/
theorem plain_ofText {t : Text} (ha : (Path.ofText t).isAbsolute = true)
    (hup : Path.up ∉ (Path.ofText t).parts) : (Path.ofText t).Plain := by
  refine ⟨ha, ?_⟩
  intro part hm
  have hpart : Path.isPart part = true := (List.mem_filter.mp hm).2
  simp only [Path.isPart, Bool.and_eq_true, Bool.not_eq_true', List.isEmpty_eq_false_iff,
    ne_eq, decide_eq_true_eq] at hpart
  exact ⟨hpart.1, hpart.2, fun e => hup (e ▸ hm)⟩

/-! ## Files of different packages -/

/-- Legal packages with one directory are the same. -/
theorem packageDirectory_injective (hp : isPackageName package = true)
    (hq : isPackageName other = true)
    (h : (packageDirectory root package).parts = (packageDirectory root other).parts) :
    package = other := by
  rw [packageDirectory_eq root hp, packageDirectory_eq root hq] at h
  exact Text.split_injective (List.append_cancel_left h)

/-- Files of one name are different for different packages. -/
theorem child_injective {name : Text} (hp : isPackageName package = true)
    (hq : isPackageName other = true)
    (h : ((packageDirectory root package).child name).parts =
      ((packageDirectory root other).child name).parts) : package = other :=
  packageDirectory_injective hp hq (List.append_cancel_right h)

/-- A file whose name is no identifier does not stand on the way to any package. -/
theorem not_isPrefixOf_child {name : Text} (hn : isIdentifier name = false)
    (hp : isPackageName package = true) (hq : isPackageName other = true) :
    ¬ ((packageDirectory root package).child name).parts <+:
      (packageDirectory root other).parts := by
  rw [packageDirectory_eq root hp, packageDirectory_eq root hq]
  show ¬ root.parts ++ Text.split '.' package ++ [name] <+: root.parts ++ Text.split '.' other
  rw [List.append_assoc, List.prefix_append_right_inj]
  intro hpre
  have hm : name ∈ Text.split '.' other := hpre.subset (by simp)
  rw [isIdentifier_of_mem_segments hq hm] at hn
  cases hn

end Phrasebook
