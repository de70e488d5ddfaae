/-
# Phrasebook.Proofs.FileTree.Sound -- trees as a system keeps them

In a sound tree everything stands in a directory, under a name that the system takes.  A place at
which something stands can then be reached by its own names, unless the path that they make is too
long to be handed over.  So a link that stands on the way to a place is seen by whoever looks for it
there, and where none is seen the way is clear.
-/
import Mathlib.Data.List.Induction
import Phrasebook.FileTree.Resolve
import Phrasebook.Proofs.FileTree.Kept
import Phrasebook.Proofs.Text.Encoding
import Phrasebook.Proofs.Text.Split

namespace Phrasebook

/-! ## The text of a longer path -/

/-- A beginning of a path that can be handed over can be handed over. -/
theorem pathError?_prefix {t longer : Text} (h : t <+: longer) (herror : pathError? longer = none) :
    pathError? t = none := by
  obtain ⟨rest, rfl⟩ := h
  unfold pathError? at herror ⊢
  simp only [List.any_append, List.contains_append, Text.byteLength_append] at herror
  split at herror
  · cases herror
  · next hsurrogate =>
    split at herror
    · cases herror
    · next hzero =>
      split at herror
      · cases herror
      · next hlong =>
        rw [Bool.or_eq_true, not_or] at hsurrogate hzero
        rw [if_neg hsurrogate.1, if_neg hzero.1, if_neg (by omega)]

/-- The path of a place. -/
def Path.ofPlace (place : Place) : Path := ⟨.root, place⟩

theorem Path.pathError?_ofPlace {place longer : Place} (h : place <+: longer)
    (herror : pathError? (Path.ofPlace longer).text = none) :
    pathError? (Path.ofPlace place).text = none := by
  refine pathError?_prefix ?_ herror
  exact (List.prefix_append_right_inj _).mpr (Text.join_prefix _ h)

theorem PlainParts.child {parts : List Text} {name : Text} (h : PlainParts parts)
    (hn : IsName name) : PlainParts (parts ++ [name]) := by
  intro part hm
  rcases List.mem_append.mp hm with hm | hm
  · exact h part hm
  · rw [List.mem_singleton.mp hm]
    exact hn

namespace FileTree

variable {tree tree' : FileTree} {place longer : Place}

/-- Everything stands in a directory, under a name that the system takes. -/
structure Sound (tree : FileTree) : Prop where
  parents : ∀ place name, tree.at? (place ++ [name]) ≠ none → tree.at? place = some .directory
  names : ∀ place name, tree.at? (place ++ [name]) ≠ none →
    IsName name ∧ name.byteLength ≤ partLimit

/-- Whether every entry stands in a directory, under a name that the system takes. -/
def soundEntries (tree : FileTree) : Bool :=
  tree.entries.all fun e => (tree.at? e.1.dropLast).any Entry.isDirectory &&
    e.1.getLast?.all fun name => decide (IsName name) && decide (name.byteLength ≤ partLimit)

namespace Sound

/-- Soundness can be checked entry by entry. -/
theorem of_soundEntries (h : tree.soundEntries = true) : tree.Sound := by
  have hentry : ∀ place name, tree.at? (place ++ [name]) ≠ none →
      tree.at? place = some .directory ∧ IsName name ∧ name.byteLength ≤ partLimit := by
    intro place name hat
    obtain ⟨entry, hentry⟩ := Option.ne_none_iff_exists'.mp hat
    unfold at? at hentry
    rw [if_neg (by simp)] at hentry
    obtain ⟨before, after, hentries, -⟩ := List.lookup_eq_some_iff.mp hentry
    have hcheck := List.all_eq_true.mp h (place ++ [name], entry) (by simp [hentries])
    rw [List.dropLast_concat, List.getLast?_concat, Bool.and_eq_true] at hcheck
    obtain ⟨hparent, hname⟩ := hcheck
    simp only [Option.all_some, Bool.and_eq_true, decide_eq_true_eq] at hname
    refine ⟨?_, hname⟩
    obtain ⟨parent, hparent, hdirectory⟩ := (Option.any_eq_true ..).mp hparent
    cases parent with
    | directory => exact hparent
    | file content => cases hdirectory
    | link destination => cases hdirectory
  exact ⟨fun place name hat => (hentry place name hat).1,
    fun place name hat => (hentry place name hat).2⟩

/-- Directories stand above everything. -/
theorem above (h : tree.Sound) (hat : tree.at? longer ≠ none) (hp : place <+: longer)
    (hne : place ≠ longer) : tree.at? place = some .directory := by
  induction longer using List.reverseRecOn with
  | nil => exact absurd (List.prefix_nil.mp hp) hne
  | append_singleton directory name ih =>
    have hdirectory := h.parents directory name hat
    rcases List.prefix_concat_iff.mp hp with heq | hp
    · exact absurd heq hne
    · by_cases heq : place = directory
      · rw [heq, hdirectory]
      · exact ih (by simp [hdirectory]) hp heq

/-- What stands somewhere has names all the way. -/
theorem named (h : tree.Sound) (hat : tree.at? place ≠ none) :
    ∀ part ∈ place, IsName part ∧ part.byteLength ≤ partLimit := by
  induction place using List.reverseRecOn with
  | nil => exact fun part hm => nomatch hm
  | append_singleton directory name ih =>
    intro part hm
    rcases List.mem_append.mp hm with hm | hm
    · exact ih (by simp [h.parents directory name hat]) part hm
    · rw [List.mem_singleton.mp hm]
      exact h.names directory name hat

theorem plain (h : tree.Sound) (hat : tree.at? place ≠ none) : PlainParts place :=
  fun part hm => (h.named hat part hm).1

end Sound

/-! ## Ways from the root -/

/-- Where directories stand above the end and no name is too long the way is open. -/
theorem open_of_above {start : Place} {parts : List Text}
    (hshort : ∀ part ∈ parts, part.byteLength ≤ partLimit)
    (h : ∀ p, p <+: parts → p ≠ [] → p ≠ parts → tree.at? (start ++ p) = some .directory) :
    tree.Open start parts := by
  induction parts generalizing start with
  | nil => trivial
  | cons part rest ih =>
    refine ⟨hshort part (List.mem_cons_self ..), fun hne => ?_, ?_⟩
    · refine h [part] ⟨rest, rfl⟩ (by simp) ?_
      simpa using Ne.symm hne
    · refine ih (fun p hm => hshort p (List.mem_cons_of_mem part hm)) fun p hp _ hneq => ?_
      have hd := h (part :: p) ((List.prefix_cons_inj part).mpr hp) (by simp) (by simpa using hneq)
      rwa [List.append_assoc]

/-- A way is clear if links stand on it only where they may. -/
theorem clear_of_prefixes {purpose : Purpose} {start : Place} {parts : List Text}
    (h : ∀ p, p <+: parts → p ≠ [] → ∀ destination,
      tree.at? (start ++ p) = some (.link destination) → p = parts ∧ purpose = .entry) :
    tree.Clear purpose start parts := by
  induction parts generalizing start with
  | nil => trivial
  | cons part rest ih =>
    refine ⟨fun destination hat => ?_, ih fun p hp _ destination hat => ?_⟩
    · obtain ⟨hend, hentry⟩ := h [part] ⟨rest, rfl⟩ (by simp) destination hat
      exact ⟨(List.cons.inj hend).2.symm, hentry⟩
    · rw [List.append_assoc] at hat
      obtain ⟨hend, hentry⟩ := h (part :: p) ((List.prefix_cons_inj part).mpr hp) (by simp)
        destination hat
      exact ⟨(List.cons.inj hend).2, hentry⟩

/-- Trees with the same links are clear on the same ways. -/
theorem Clear.congr {purpose : Purpose} {start : Place} {parts : List Text}
    (hs : SameLinks tree tree') (hc : tree.Clear purpose start parts) :
    tree'.Clear purpose start parts := by
  induction parts generalizing start with
  | nil => trivial
  | cons part rest ih =>
    exact ⟨fun destination hat => hc.1 destination ((hs _ _).mp hat), ih hc.2⟩

/-- A link is seen where the walk for an entry arrives at one. -/
theorem linkAt?_eq_some_iff {destination : Text} :
    tree.linkAt? place = some destination ↔
      ∃ p, tree.arrive .entry [] (Path.ofPlace place) = .ok (.present p (.link destination)) := by
  have harrive : tree.arrive .entry [] ⟨.root, place⟩ =
      tree.arrive .entry [] (Path.ofPlace place) := rfl
  unfold linkAt?
  rw [harrive]
  cases tree.arrive .entry [] (Path.ofPlace place) with
  | error e => simp
  | ok arrival =>
    cases arrival with
    | vacant directory name => simp
    | present p entry => cases entry <;> simp

/-- On a way that is clear up to the end a link is seen exactly if the path can be handed over, the
way is open, and the link stands there. -/
theorem linkAt?_eq_some_iff_of_clear (hc : tree.Clear .entry [] place) (hp : PlainParts place)
    {destination : Text} :
    tree.linkAt? place = some destination ↔
      pathError? (Path.ofPlace place).text = none ∧ tree.Open [] place ∧
        tree.at? place = some (.link destination) := by
  rw [linkAt?_eq_some_iff]
  cases herror : pathError? (Path.ofPlace place).text with
  | some e => simp [arrive_eq_error herror]
  | none =>
    have harrive : tree.arrive .entry [] (Path.ofPlace place) =
        tree.walk .entry linkLimit [] place := arrive_eq_walk herror .entry
    have hroot : tree.at? [] = some .directory := rfl
    have hwalk := walk_clear linkLimit hc hp hroot
    rw [harrive]
    cases harr : tree.walk .entry linkLimit [] place with
    | error e =>
      rw [harr] at hwalk
      simp [hwalk]
    | ok arrival =>
      rw [harr] at hwalk
      obtain ⟨hopen, hat⟩ := hwalk
      rw [List.nil_append] at hat
      cases arrival with
      | vacant directory name => simp [hat.2]
      | present p entry =>
        obtain ⟨-, hentry⟩ := hat
        cases entry <;> simp [hentry, hopen]

theorem linkAt?_eq_none {e : FileError} (h : pathError? (Path.ofPlace place).text = some e) :
    tree.linkAt? place = none := by
  refine Option.eq_none_iff_forall_ne_some.mpr fun destination hseen => ?_
  obtain ⟨p, harr⟩ := linkAt?_eq_some_iff.mp hseen
  rw [arrive_eq_error h] at harr
  cases harr

/-! ## Places without links on the way -/

/-- No link is seen at a place, or above it. -/
def Unlinked (tree : FileTree) (place : Place) : Prop := ∀ p, p <+: place → tree.linkAt? p = none

theorem Unlinked.above (h : tree.Unlinked longer) (hp : place <+: longer) : tree.Unlinked place :=
  fun p hbefore => h p (hbefore.trans hp)

theorem Unlinked.child (h : tree.Unlinked place) {name : Text}
    (hnone : tree.linkAt? (place ++ [name]) = none) : tree.Unlinked (place ++ [name]) := by
  intro p hp
  rcases List.prefix_concat_iff.mp hp with rfl | hp
  · exact hnone
  · exact h p hp

theorem unlinked_root : tree.Unlinked [] := by
  intro p hp
  rw [List.prefix_nil.mp hp]
  unfold linkAt? arrive
  cases pathError? (⟨.root, []⟩ : Path).text with
  | some e => rfl
  | none => simp [walk_of_walks (.done linkLimit [])]

namespace Sound

/-- A link is seen where it stands, if the path can be handed over. -/
theorem linkAt? (h : tree.Sound) {destination : Text}
    (hat : tree.at? place = some (.link destination))
    (herror : pathError? (Path.ofPlace place).text = none) :
    tree.linkAt? place = some destination := by
  have hthere : tree.at? place ≠ none := by simp [hat]
  refine (linkAt?_eq_some_iff_of_clear ?_ (h.plain hthere)).mpr ⟨herror, ?_, hat⟩
  · refine clear_of_prefixes fun p hp _ other hlink => ⟨?_, rfl⟩
    by_cases heq : p = place
    · exact heq
    · rw [List.nil_append, h.above hthere hp heq] at hlink
      cases hlink
  · exact open_of_above (fun part hm => (h.named hthere part hm).2) fun p hp _ hne =>
      h.above hthere hp hne

/-- Where no link is seen none stands, if the path can be handed over. -/
theorem at?_ne_link (h : tree.Sound) (hu : tree.Unlinked place) (hp : longer <+: place)
    (herror : pathError? (Path.ofPlace longer).text = none) (destination : Text) :
    tree.at? longer ≠ some (.link destination) := by
  intro hat
  have hseen := h.linkAt? hat herror
  rw [hu longer hp] at hseen
  cases hseen

/-- To a place without links the way is clear. -/
theorem clear_target (h : tree.Sound) (hu : tree.Unlinked place)
    (herror : pathError? (Path.ofPlace place).text = none) : tree.Clear .target [] place := by
  refine clear_of_prefixes fun p hp _ destination hat => ?_
  exact absurd hat (h.at?_ne_link hu hp (Path.pathError?_ofPlace hp herror) destination)

/-- To an entry in a place without links the way is clear. -/
theorem clear_entry (h : tree.Sound) (hu : tree.Unlinked place) {name : Text}
    (herror : pathError? (Path.ofPlace (place ++ [name])).text = none) :
    tree.Clear .entry [] (place ++ [name]) := by
  refine clear_of_prefixes fun p hp _ destination hat => ?_
  rcases List.prefix_concat_iff.mp hp with heq | habove
  · exact ⟨heq, rfl⟩
  · exact absurd hat (h.at?_ne_link hu habove (Path.pathError?_ofPlace hp herror) destination)

/-- A link that is seen in a place without links stands there. -/
theorem at?_of_linkAt? (h : tree.Sound) (hu : tree.Unlinked place) {name destination : Text}
    (hp : PlainParts (place ++ [name])) (hseen : tree.linkAt? (place ++ [name]) = some destination) :
    tree.at? (place ++ [name]) = some (.link destination) := by
  cases herror : pathError? (Path.ofPlace (place ++ [name])).text with
  | some e =>
    rw [linkAt?_eq_none herror] at hseen
    cases hseen
  | none => exact ((linkAt?_eq_some_iff_of_clear (h.clear_entry hu herror) hp).mp hseen).2.2

/-- On the way to a directory no link is seen. -/
theorem unlinked (h : tree.Sound) (hat : tree.at? place = some .directory) :
    tree.Unlinked place := by
  have hthere : tree.at? place ≠ none := by simp [hat]
  intro p hp
  have hdirectory : tree.at? p = some .directory := by
    by_cases heq : p = place
    · rw [heq, hat]
    · exact h.above hthere hp heq
  have hplain : PlainParts p := h.plain (by simp [hdirectory])
  refine Option.eq_none_iff_forall_ne_some.mpr fun destination hseen => ?_
  have hclear : tree.Clear .entry [] p := by
    refine clear_of_prefixes fun q hq _ other hlink => ⟨?_, rfl⟩
    by_cases heq : q = p
    · exact heq
    · rw [List.nil_append, h.above (by simp [hdirectory]) hq heq] at hlink
      cases hlink
  have hlink := ((linkAt?_eq_some_iff_of_clear hclear hplain).mp hseen).2.2
  rw [hdirectory] at hlink
  cases hlink

/-- In a place without links the same links are seen after files have been written. -/
theorem linkAt?_kept (h : tree.Sound) {written : Place → Prop} (hk : Kept written tree tree')
    (hu : tree.Unlinked place) {name : Text} (hp : PlainParts (place ++ [name])) :
    tree'.linkAt? (place ++ [name]) = tree.linkAt? (place ++ [name]) := by
  cases herror : pathError? (Path.ofPlace (place ++ [name])).text with
  | some e => rw [linkAt?_eq_none herror, linkAt?_eq_none herror]
  | none =>
    have hc := h.clear_entry hu herror
    refine Option.ext fun destination => ?_
    rw [linkAt?_eq_some_iff_of_clear hc hp, linkAt?_eq_some_iff_of_clear (hc.congr hk.links) hp]
    constructor
    · rintro ⟨-, -, hat⟩
      have hat := (hk.links _ _).mp hat
      exact (linkAt?_eq_some_iff_of_clear hc hp).mp (h.linkAt? hat herror)
    · rintro ⟨-, hopen, hat⟩
      exact ⟨herror, hopen.mono hk.directories, (hk.links _ _).mpr hat⟩

end Sound

end FileTree

end Phrasebook
