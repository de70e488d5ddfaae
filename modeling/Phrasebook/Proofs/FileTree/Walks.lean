/-
# Phrasebook.Proofs.FileTree.Walks -- the steps of a walk that arrives

A walk that arrives somewhere has taken one step for each part that it has read: it has passed a
part that is no name, gone up, entered a directory, or put the destination of a link in the place of
a part; and it has ended at the last part or where no part was left.  `Walks` is this description,
with one constructor for each step, and proofs about walks with links go by induction on it.

A walk can be cut where a part of the path ends and be put together again, because what follows the
first part of a path only ever asks for a directory there.
-/
import Phrasebook.Proofs.FileTree.Linkless

namespace Phrasebook

/-- The place at which a walk has arrived, be it taken or vacant. -/
def Arrival.place : Arrival → Place
  | .present place _ => place
  | .vacant directory name => directory ++ [name]

/-- A part of a path that is a name, and not one of those that only steer the walk. -/
def IsName (part : Text) : Prop := part ≠ [] ∧ part ≠ Path.here ∧ part ≠ Path.up

instance (part : Text) : Decidable (IsName part) :=
  inferInstanceAs (Decidable (part ≠ [] ∧ part ≠ Path.here ∧ part ≠ Path.up))

namespace FileTree

/-- The place from which the destination of a link is taken. -/
def linkStart (directory : Place) (destination : Text) : Place :=
  if destination.head? = some Path.slash then [] else directory

/-- A part that a walk can ask for: a name that is not too long and, when a file is to be written,
not followed by a slash alone. -/
structure Askable (purpose : Purpose) (part : Text) (rest : List Text) : Prop where
  name : IsName part
  short : part.byteLength ≤ partLimit
  noSlash : ¬ (purpose = .writing ∧ rest = [[]])

/-- A walk along parts from a place arrives, passing through a number of links at most. -/
inductive Walks (tree : FileTree) (purpose : Purpose) : Nat → Place → List Text → Arrival → Prop
  | done (links : Nat) (place : Place) :
      Walks tree purpose links place [] (.present place .directory)
  | here {links : Nat} {place : Place} {part : Text} {rest : List Text} {arrival : Arrival} :
      part = [] ∨ part = Path.here → Walks tree purpose links place rest arrival →
      Walks tree purpose links place (part :: rest) arrival
  | up {links : Nat} {place : Place} {part : Text} {rest : List Text} {arrival : Arrival} :
      part = Path.up → Walks tree purpose links place.dropLast rest arrival →
      Walks tree purpose links place (part :: rest) arrival
  | vacant {links : Nat} {place : Place} {part : Text} :
      Askable purpose part [] → tree.at? (place ++ [part]) = none →
      Walks tree purpose links place [part] (.vacant place part)
  | file {links : Nat} {place : Place} {part : Text} {content : ByteArray} :
      Askable purpose part [] → tree.at? (place ++ [part]) = some (.file content) →
      Walks tree purpose links place [part] (.present (place ++ [part]) (.file content))
  | entry {links : Nat} {place : Place} {part destination : Text} :
      purpose = .entry → Askable purpose part [] →
      tree.at? (place ++ [part]) = some (.link destination) →
      Walks tree purpose links place [part] (.present (place ++ [part]) (.link destination))
  | directory {links : Nat} {place : Place} {part : Text} {rest : List Text} {arrival : Arrival} :
      Askable purpose part rest → tree.at? (place ++ [part]) = some .directory →
      Walks tree purpose links (place ++ [part]) rest arrival →
      Walks tree purpose links place (part :: rest) arrival
  | link {links : Nat} {place : Place} {part destination : Text} {rest : List Text}
      {arrival : Arrival} :
      Askable purpose part rest → ¬ (rest = [] ∧ purpose = .entry) →
      tree.at? (place ++ [part]) = some (.link destination) →
      Walks tree purpose links (linkStart place destination) (destinationParts destination ++ rest)
        arrival →
      Walks tree purpose (links + 1) place (part :: rest) arrival

variable {tree : FileTree} {purpose : Purpose}

/-- Where a part can be asked for the walk goes on from what stands at the next place. -/
theorem walkWith_cons {onward : Place → List Text → Except FileError Arrival} {place : Place}
    {part : Text} {rest : List Text} (ha : Askable purpose part rest) :
    tree.walkWith purpose onward place (part :: rest) = match tree.at? (place ++ [part]) with
      | none => if rest.isEmpty then .ok (.vacant place part) else .error .notFound
      | some .directory => tree.walkWith purpose onward (place ++ [part]) rest
      | some (.file content) =>
        if rest.isEmpty then .ok (.present (place ++ [part]) (.file content))
        else .error .notDirectory
      | some (.link destination) =>
        if rest.isEmpty && purpose = .entry then
          .ok (.present (place ++ [part]) (.link destination))
        else onward (linkStart place destination) (destinationParts destination ++ rest) := by
  obtain ⟨hne, hhere, hup⟩ := ha.name
  have hslash : ¬ (purpose = .writing && rest = [[]]) = true := by
    rw [Bool.and_eq_true, decide_eq_true_eq, decide_eq_true_eq]
    exact ha.noSlash
  rw [walkWith, if_neg (by simp [hne, hhere]), if_neg hup, if_neg hslash,
    if_neg (Nat.not_lt.mpr ha.short)]
  rfl

/-- A part that is neither passed over nor leads up is a name, and the walk arrives only where it can be
asked for. -/
theorem askable_of_walkWith {onward : Place → List Text → Except FileError Arrival} {place : Place}
    {part : Text} {rest : List Text} {arrival : Arrival}
    (hpart : ¬ (part.isEmpty || part = Path.here) = true) (hup : part ≠ Path.up)
    (h : tree.walkWith purpose onward place (part :: rest) = .ok arrival) :
    Askable purpose part rest := by
  rw [walkWith, if_neg hpart, if_neg hup] at h
  by_cases hslash : (purpose = .writing && rest = [[]]) = true
  · rw [if_pos hslash] at h
    cases h
  by_cases hlong : partLimit < part.byteLength
  · rw [if_neg hslash, if_pos hlong] at h
    cases h
  rw [Bool.or_eq_true, List.isEmpty_iff, decide_eq_true_eq, not_or] at hpart
  rw [Bool.and_eq_true, decide_eq_true_eq, decide_eq_true_eq] at hslash
  exact ⟨⟨hpart.1, hpart.2, hup⟩, Nat.not_lt.mp hlong, hslash⟩

/-- Only such walks arrive, if those that go on from a link with one link fewer do. -/
theorem walks_of_walkWith {onward : Place → List Text → Except FileError Arrival} {links : Nat}
    (honward : ∀ start parts arrival, onward start parts = .ok arrival →
      ∃ left, links = left + 1 ∧ tree.Walks purpose left start parts arrival)
    {place : Place} {parts : List Text} {arrival : Arrival}
    (h : tree.walkWith purpose onward place parts = .ok arrival) :
    tree.Walks purpose links place parts arrival := by
  induction parts generalizing place with
  | nil =>
    rw [walkWith] at h
    obtain rfl := Except.ok.inj h
    exact .done links place
  | cons part rest ih =>
    by_cases hpart : (part.isEmpty || part = Path.here) = true
    · rw [walkWith, if_pos hpart] at h
      rw [Bool.or_eq_true, List.isEmpty_iff, decide_eq_true_eq] at hpart
      exact .here hpart (ih h)
    by_cases hup : part = Path.up
    · rw [walkWith, if_neg hpart, if_pos hup] at h
      exact .up hup (ih h)
    have ha := askable_of_walkWith hpart hup h
    rw [walkWith_cons ha] at h
    cases hat : tree.at? (place ++ [part]) with
    | none =>
      rw [hat] at h
      dsimp only at h
      split at h
      · next hrest =>
        obtain rfl := List.isEmpty_iff.mp hrest
        obtain rfl := Except.ok.inj h
        exact .vacant ha hat
      · cases h
    | some entry =>
      rw [hat] at h
      cases entry with
      | directory => exact .directory ha hat (ih h)
      | file content =>
        dsimp only at h
        split at h
        · next hrest =>
          obtain rfl := List.isEmpty_iff.mp hrest
          obtain rfl := Except.ok.inj h
          exact .file ha hat
        · cases h
      | link destination =>
        dsimp only at h
        split at h
        · next hend =>
          rw [Bool.and_eq_true, List.isEmpty_iff, decide_eq_true_eq] at hend
          obtain ⟨rfl, hentry⟩ := hend
          obtain rfl := Except.ok.inj h
          exact .entry hentry ha hat
        · next hend =>
          rw [Bool.and_eq_true, List.isEmpty_iff, decide_eq_true_eq] at hend
          obtain ⟨left, rfl, hrest⟩ := honward _ _ _ h
          exact .link ha hend hat hrest

/-- Only such walks arrive. -/
theorem walks_of_walk {links : Nat} {place : Place} {parts : List Text} {arrival : Arrival}
    (h : tree.walk purpose links place parts = .ok arrival) :
    tree.Walks purpose links place parts arrival := by
  induction links generalizing place parts arrival with
  | zero =>
    refine walks_of_walkWith ?_ h
    intro start parts arrival hlink
    cases hlink
  | succ links ih => exact walks_of_walkWith (fun _ _ _ hlink => ⟨links, rfl, ih hlink⟩) h

/-- All such walks arrive. -/
theorem walk_of_walks {links : Nat} {place : Place} {parts : List Text} {arrival : Arrival}
    (h : tree.Walks purpose links place parts arrival) :
    tree.walk purpose links place parts = .ok arrival := by
  induction h with
  | done links place =>
    obtain ⟨onward, hwalk⟩ := walk_eq_walkWith tree purpose links
    rw [hwalk, walkWith]
  | @here links _ part _ _ hpart _ ih =>
    have htest : (part.isEmpty || part = Path.here) = true := by
      rw [Bool.or_eq_true, List.isEmpty_iff, decide_eq_true_eq]
      exact hpart
    obtain ⟨onward, hwalk⟩ := walk_eq_walkWith tree purpose links
    rw [hwalk, walkWith, if_pos htest, ← hwalk]
    exact ih
  | @up links _ _ _ _ hpart _ ih =>
    subst hpart
    obtain ⟨onward, hwalk⟩ := walk_eq_walkWith tree purpose links
    rw [hwalk, walkWith, if_neg (by decide), if_pos rfl, ← hwalk]
    exact ih
  | @vacant links _ _ ha hat =>
    obtain ⟨onward, hwalk⟩ := walk_eq_walkWith tree purpose links
    rw [hwalk, walkWith_cons ha, hat]
    rfl
  | @file links _ _ _ ha hat =>
    obtain ⟨onward, hwalk⟩ := walk_eq_walkWith tree purpose links
    rw [hwalk, walkWith_cons ha, hat]
    rfl
  | @entry links _ _ _ he ha hat =>
    subst he
    obtain ⟨onward, hwalk⟩ := walk_eq_walkWith tree .entry links
    rw [hwalk, walkWith_cons ha, hat]
    rfl
  | @directory links _ _ _ _ ha hat _ ih =>
    obtain ⟨onward, hwalk⟩ := walk_eq_walkWith tree purpose links
    rw [hwalk, walkWith_cons ha, hat]
    simp only
    rw [← hwalk]
    exact ih
  | @link _ _ _ _ rest _ ha hend hat _ ih =>
    have hgo : ¬ (rest.isEmpty && purpose = .entry) = true := by
      rw [Bool.and_eq_true, List.isEmpty_iff, decide_eq_true_eq]
      exact hend
    rw [walk, walkWith_cons ha, hat]
    simp only
    rw [if_neg hgo]
    exact ih

theorem walk_eq_ok_iff {links : Nat} {place : Place} {parts : List Text} {arrival : Arrival} :
    tree.walk purpose links place parts = .ok arrival ↔
      tree.Walks purpose links place parts arrival :=
  ⟨walks_of_walk, walk_of_walks⟩

namespace Walks

variable {links : Nat} {place goal : Place} {parts rest : List Text} {arrival : Arrival}

/-- Plain parts do not end with a slash alone, whatever comes before them. -/
theorem append_ne_slash (hp : PlainParts rest) (hne : rest ≠ []) (before : List Text) :
    before ++ rest ≠ [[]] := by
  intro h
  obtain ⟨last, hlast⟩ : ∃ last, last ∈ rest := List.exists_mem_of_ne_nil rest hne
  have hempty : last ∈ [[]] := h ▸ List.mem_append_right before hlast
  exact (hp last hlast).1 (List.mem_singleton.mp hempty)

/-- A walk to a directory can be continued along plain parts, for any purpose. -/
theorem extend (h : tree.Walks .target links place parts (.present goal .directory)) :
    ∃ left, ∀ {purpose : Purpose} {rest : List Text} {arrival : Arrival},
      PlainParts rest → rest ≠ [] → tree.Walks purpose left goal rest arrival →
      tree.Walks purpose links place (parts ++ rest) arrival := by
  generalize hend : Arrival.present goal .directory = final at h
  induction h with
  | done links place =>
    obtain ⟨rfl, -⟩ := Arrival.present.inj hend
    exact ⟨links, fun _ _ h => h⟩
  | here hpart _ ih =>
    obtain ⟨left, hleft⟩ := ih hend
    exact ⟨left, fun hp hne h => .here hpart (hleft hp hne h)⟩
  | up hpart _ ih =>
    obtain ⟨left, hleft⟩ := ih hend
    exact ⟨left, fun hp hne h => .up hpart (hleft hp hne h)⟩
  | vacant ha hat => cases hend
  | file ha hat => cases hend
  | entry he ha hat => cases hend
  | directory ha hat _ ih =>
    obtain ⟨left, hleft⟩ := ih hend
    refine ⟨left, fun hp hne h => ?_⟩
    exact .directory ⟨ha.name, ha.short, fun hs => append_ne_slash hp hne _ hs.2⟩ hat
      (hleft hp hne h)
  | link ha _ hat _ ih =>
    obtain ⟨left, hleft⟩ := ih hend
    refine ⟨left, fun hp hne h => ?_⟩
    have htail := hleft hp hne h
    rw [List.append_assoc] at htail
    refine .link ⟨ha.name, ha.short, fun hs => append_ne_slash hp hne _ hs.2⟩ ?_ hat htail
    exact fun hnil => hne (List.append_eq_nil_iff.mp hnil.1).2

/-- A walk that goes on with further parts has come to a directory before, and passes through no more
links on the rest of its way. -/
theorem cut (hne : rest ≠ []) (h : tree.Walks purpose links place (parts ++ rest) arrival) :
    ∃ goal left, left ≤ links ∧ tree.Walks .target links place parts (.present goal .directory) ∧
      tree.Walks purpose left goal rest arrival := by
  generalize hall : parts ++ rest = all at h
  -- an end of the walk cannot lie before the rest
  have hlast : ∀ {part p : Text} {ps : List Text}, p :: ps ++ rest = [part] → False := by
    intro part p ps hone
    exact hne (List.append_eq_nil_iff.mp (List.cons.inj hone).2).2
  induction h generalizing parts with
  | done links place => exact absurd (List.append_eq_nil_iff.mp hall).2 hne
  | @here links place part others arrival hpart h ih =>
    cases parts with
    | nil =>
      subst hall
      exact ⟨place, links, Nat.le_refl _, .done links place, .here hpart h⟩
    | cons p ps =>
      obtain ⟨rfl, rfl⟩ := List.cons.inj hall
      obtain ⟨goal, left, hleft, h₁, h₂⟩ := ih rfl
      exact ⟨goal, left, hleft, .here hpart h₁, h₂⟩
  | @up links place part others arrival hpart h ih =>
    cases parts with
    | nil =>
      subst hall
      exact ⟨place, links, Nat.le_refl _, .done links place, .up hpart h⟩
    | cons p ps =>
      obtain ⟨rfl, rfl⟩ := List.cons.inj hall
      obtain ⟨goal, left, hleft, h₁, h₂⟩ := ih rfl
      exact ⟨goal, left, hleft, .up hpart h₁, h₂⟩
  | @vacant links place part ha hat =>
    cases parts with
    | nil =>
      subst hall
      exact ⟨place, links, Nat.le_refl _, .done links place, .vacant ha hat⟩
    | cons p ps => exact (hlast hall).elim
  | @file links place part content ha hat =>
    cases parts with
    | nil =>
      subst hall
      exact ⟨place, links, Nat.le_refl _, .done links place, .file ha hat⟩
    | cons p ps => exact (hlast hall).elim
  | @entry links place part destination he ha hat =>
    cases parts with
    | nil =>
      subst hall
      exact ⟨place, links, Nat.le_refl _, .done links place, .entry he ha hat⟩
    | cons p ps => exact (hlast hall).elim
  | @directory links place part others arrival ha hat h ih =>
    cases parts with
    | nil =>
      subst hall
      exact ⟨place, links, Nat.le_refl _, .done links place, .directory ha hat h⟩
    | cons p ps =>
      obtain ⟨rfl, rfl⟩ := List.cons.inj hall
      obtain ⟨goal, left, hleft, h₁, h₂⟩ := ih rfl
      exact ⟨goal, left, hleft, .directory ⟨ha.name, ha.short, fun hs => nomatch hs.1⟩ hat h₁, h₂⟩
  | @link links place part destination others arrival ha hend hat h ih =>
    cases parts with
    | nil =>
      subst hall
      exact ⟨place, links + 1, Nat.le_refl _, .done (links + 1) place, .link ha hend hat h⟩
    | cons p ps =>
      obtain ⟨rfl, rfl⟩ := List.cons.inj hall
      obtain ⟨goal, left, hleft, h₁, h₂⟩ := ih (List.append_assoc ..)
      exact ⟨goal, left, Nat.le_succ_of_le hleft, .link ⟨ha.name, ha.short, fun hs => nomatch hs.1⟩
        (fun hs => nomatch hs.2) hat h₁, h₂⟩

/-- Nothing stands where a walk ends at a vacancy. -/
theorem at?_vacant {directory : Place} {name : Text}
    (h : tree.Walks purpose links place parts (.vacant directory name)) :
    tree.at? (directory ++ [name]) = none := by
  generalize hend : Arrival.vacant directory name = final at h
  induction h with
  | done links place => cases hend
  | here _ _ ih => exact ih hend
  | up _ _ ih => exact ih hend
  | vacant _ hat =>
    obtain ⟨rfl, rfl⟩ := Arrival.vacant.inj hend
    exact hat
  | file _ _ => cases hend
  | entry _ _ _ => cases hend
  | directory _ _ _ ih => exact ih hend
  | link _ _ _ _ ih => exact ih hend

/-- A walk from a place to which directories lead all the way comes only to such places. -/
theorem directories (h : tree.Walks .target links place parts (.present goal .directory))
    (hs : ∀ p, p <+: place → tree.at? p = some .directory) :
    ∀ p, p <+: goal → tree.at? p = some .directory := by
  generalize hend : Arrival.present goal .directory = final at h
  induction h with
  | done links place =>
    obtain ⟨rfl, -⟩ := Arrival.present.inj hend
    exact hs
  | here _ _ ih => exact ih hs hend
  | up _ _ ih => exact ih (fun p hp => hs p (hp.trans (List.dropLast_prefix _))) hend
  | vacant ha hat => cases hend
  | file ha hat => cases hend
  | entry he ha hat => cases hend
  | @directory _ place part _ _ _ hat _ ih =>
    refine ih ?_ hend
    intro p hp
    rcases List.prefix_concat_iff.mp hp with rfl | hp
    · exact hat
    · exact hs p hp
  | @link _ place _ destination _ _ _ _ _ _ ih =>
    refine ih ?_ hend
    intro p hp
    unfold linkStart at hp
    split at hp
    · rw [List.prefix_nil.mp hp]
      rfl
    · exact hs p hp

end Walks

end FileTree

end Phrasebook
