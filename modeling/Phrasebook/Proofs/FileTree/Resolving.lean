/-
# Phrasebook.Proofs.FileTree.Resolving -- paths that resolve alike

Whether a path is refused before it is resolved depends on the code points of its parts alone, and
where it is resolved to is its end.  So a path that goes on from the place of a directory resolves
as its further parts do from that directory; and a path to something resolves to the place of that.
-/
import Phrasebook.Proofs.FileTree.Arriving

namespace Phrasebook

/-! ## Paths that are refused -/

/-- Why a text cannot stand in a path that is handed over. -/
def refusal? (t : Text) : Option FileError :=
  if t.any fun c => c.toChar?.isNone && !isByteSurrogate c then some .surrogateInPath
  else if t.contains (.scalar '\x00') then some .zeroInPath
  else none

theorem refusal?_append {s : Text} (h : refusal? s = none) (t : Text) :
    refusal? (s ++ t) = refusal? t := by
  unfold refusal? at h ⊢
  split at h
  · cases h
  · next hsurrogate =>
    split at h
    · cases h
    · next hzero =>
      rw [Bool.not_eq_true] at hsurrogate hzero
      rw [List.any_append, List.contains_append, hsurrogate, hzero, Bool.false_or, Bool.false_or]

/-- What can be handed over is not refused for its code points. -/
theorem refusal?_of_pathError? {t : Text} (h : pathError? t = none) : refusal? t = none := by
  unfold pathError? at h
  unfold refusal?
  split at h
  · cases h
  · next hsurrogate =>
    split at h
    · cases h
    · next hzero => rw [if_neg hsurrogate, if_neg hzero]

/-- A separator without code points of a kind adds none to a joined text. -/
theorem Text.any_join {sep : Text} {f : CodePoint → Bool} (hsep : sep.any f = false)
    (pieces : List Text) : (Text.join sep pieces).any f = pieces.flatten.any f := by
  unfold Text.join
  induction pieces with
  | nil => rfl
  | cons piece pieces ih =>
    cases pieces with
    | nil => rw [List.intercalate_singleton, List.flatten_singleton]
    | cons next pieces =>
      rw [List.intercalate_cons_cons, List.flatten_cons, List.any_append, List.any_append,
        List.any_append, hsep, Bool.or_false, ih]

/-- A separator that is not refused itself makes no difference between pieces. -/
theorem refusal?_join {sep : Text} (hsep : refusal? sep = none) (pieces : List Text) :
    refusal? (Text.join sep pieces) = refusal? pieces.flatten := by
  unfold refusal? at hsep ⊢
  split at hsep
  · cases hsep
  · next hsurrogate =>
    split at hsep
    · cases hsep
    · next hzero =>
      rw [Bool.not_eq_true] at hsurrogate hzero
      rw [List.contains_eq_any_beq] at hzero ⊢
      rw [List.contains_eq_any_beq, Text.any_join hsurrogate, Text.any_join hzero]

/-- A path is refused for the code points of its parts. -/
theorem Path.refusal?_text (path : Path) : refusal? path.text = refusal? path.parts.flatten := by
  obtain ⟨anchor, parts⟩ := path
  have hslash : refusal? [Path.slash] = none := by decide
  have hanchor : refusal? anchor.text = none := by cases anchor <;> decide
  have hjoined := (refusal?_append hanchor _).trans (refusal?_join hslash parts)
  cases parts with
  | nil => cases anchor <;> decide
  | cons part rest => cases anchor <;> exact hjoined

namespace FileTree

variable {tree : FileTree} {directory goal : Place} {parts : List Text} {links : Nat}

/-- The links through which parts lead, and the place where they end, have paths that can be handed
over. -/
structure Addressable (tree : FileTree) (place : Place) (parts : List Text) : Prop where
  links : tree.Visible place parts
  goal : ∀ goal, tree.Leads place parts goal → pathError? (Path.ofPlace goal).text = none

/-- A way to something is addressable where every entry has a path that can be handed over. -/
theorem Addressable.of_entries {place goal : Place} {parts : List Text}
    (hentries : tree.entries.all (fun e => (pathError? (Path.ofPlace e.1).text).isNone) = true)
    (hleads : tree.Leads place parts goal) (hgoal : tree.at? goal ≠ none) :
    tree.Addressable place parts := by
  have hpath : ∀ place, tree.at? place ≠ none → pathError? (Path.ofPlace place).text = none := by
    intro place hat
    by_cases hroot : place = []
    · rw [hroot]
      decide
    · obtain ⟨entry, hentry⟩ := Option.ne_none_iff_exists'.mp hat
      unfold at? at hentry
      rw [if_neg (by simpa using hroot)] at hentry
      obtain ⟨before, after, heq, -⟩ := List.lookup_eq_some_iff.mp hentry
      have hmem : (place, entry) ∈ tree.entries := by simp [heq]
      exact Option.isNone_iff_eq_none.mp (List.all_eq_true.mp hentries _ hmem)
  constructor
  · intro link hpass
    obtain ⟨destination, hat⟩ := hpass.at?_link
    exact hpath link (by simp [hat])
  · intro goal' hleads'
    rw [hleads'.unique hleads]
    exact hpath goal hgoal

/-- A path is resolved to its end, unless it is refused or leads through too many links. -/
theorem resolve_eq_refusal (tree : FileTree) (directory : Place) (path : Path) :
    tree.resolve directory path = match refusal? path.text with
      | some e => .error (.refused e)
      | none => match tree.arrive .target [] (Path.ofPlace (tree.endOf directory path)) with
        | .error .tooManyLinks => .error (.loop (Path.ofPlace (tree.endOf directory path)))
        | _ => .ok (Path.ofPlace (tree.endOf directory path)) := by
  rw [resolve_eq]
  unfold pathError? refusal?
  by_cases hsurrogate : (path.text.any fun c => c.toChar?.isNone && !isByteSurrogate c) = true
  · rw [if_pos hsurrogate, if_pos hsurrogate]
  rw [if_neg hsurrogate, if_neg hsurrogate]
  by_cases hzero : path.text.contains (.scalar '\x00') = true
  · rw [if_pos hzero, if_pos hzero]
  rw [if_neg hzero, if_neg hzero]
  -- a path that is too long is resolved all the same
  generalize hlong : (if pathLimit ≤ path.text.byteLength then some FileError.nameTooLong
    else none) = error
  have herror : error = some .nameTooLong ∨ error = none := hlong ▸ ite_eq_or_eq ..
  rcases herror with rfl | rfl
  · rfl
  · rfl

/-- A path that goes on from the place of a directory resolves as its further parts do from there. -/
theorem resolve_ofPlace (hsound : tree.Sound) (hd : tree.at? directory = some .directory)
    (herror : pathError? (Path.ofPlace directory).text = none) (parts : List Text)
    (working : Place) :
    tree.resolve working ⟨.root, directory ++ parts⟩ =
      tree.resolve directory ⟨.relative, parts⟩ := by
  have hdirectory : refusal? directory.flatten = none :=
    (Path.refusal?_text (Path.ofPlace directory)).symm.trans (refusal?_of_pathError? herror)
  have hrefused : refusal? (⟨.root, directory ++ parts⟩ : Path).text =
      refusal? (⟨.relative, parts⟩ : Path).text := by
    rw [Path.refusal?_text, Path.refusal?_text, List.flatten_append, refusal?_append hdirectory]
  rw [resolve_eq_refusal, resolve_eq_refusal, hrefused, endOf_ofPlace hsound hd]

/-- A path to something resolves to the place of that, and it is found there. -/
theorem resolve_of_walks (hsound : tree.Sound) (hd : tree.at? directory = some .directory)
    {content : ByteArray}
    (hwalks : tree.Walks .target links directory parts (.present goal (.file content)))
    (hvisible : tree.Visible directory parts)
    (herror : pathError? (Path.ofPlace (directory ++ parts)).text = none)
    (hgoal : pathError? (Path.ofPlace goal).text = none) :
    tree.resolve directory ⟨.root, directory ++ parts⟩ = .ok (Path.ofPlace goal) ∧
      tree.arrive .target directory (Path.ofPlace goal) = .ok (.present goal (.file content)) := by
  have hat := hwalks.at?_present (by simp)
  have hthere : tree.at? goal ≠ none := by simp [hat]
  -- above a file there are directories only, so it is found along its own names
  have hclear : tree.Clear .target [] goal := by
    refine clear_of_prefixes fun p hp _ destination hlink => ?_
    by_cases heq : p = goal
    · exact nomatch (heq ▸ hlink).symm.trans hat
    · exact nomatch hlink.symm.trans (hsound.above hthere hp heq)
  have hopen : tree.Open [] goal :=
    open_of_above (fun part hm => (hsound.named hthere part hm).2) fun p hp _ hne =>
      hsound.above hthere hp hne
  have hwalk := walk_of_open linkLimit hclear (hsound.plain hthere) rfl hopen hat
  have harrive : ∀ working, tree.arrive .target working (Path.ofPlace goal) =
      .ok (.present goal (.file content)) := by
    intro working
    rw [arrive_eq_walk hgoal]
    exact hwalk
  refine ⟨?_, harrive directory⟩
  have hend : tree.endOf directory ⟨.root, directory ++ parts⟩ = goal :=
    (endOf_ofPlace hsound hd parts directory).trans (endOf_of_walks hsound hd hwalks hvisible)
  have hrefused : refusal? (⟨.root, directory ++ parts⟩ : Path).text = none :=
    refusal?_of_pathError? herror
  rw [resolve_eq_refusal, hrefused, hend, harrive]

end FileTree

end Phrasebook
