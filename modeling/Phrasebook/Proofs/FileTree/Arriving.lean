/-
# Phrasebook.Proofs.FileTree.Arriving -- a path is followed to where a walk arrives

A walk and the following of a path treat links differently.  A walk puts the destination of a link in
the place of a part and counts the links; following finds out once where a link leads and remembers
it, and gives up at a link that it is just following.  Where a walk arrives both come to one place,
as long as the links on the way have paths that can be handed over, without which following does not
see them.

The proof is by induction on the number of links that the walk may pass through.  A link is first
followed with the smallest number that suffices for its destination (`Unwalked`): met again below
itself, it would have been walked with a smaller one.
-/
import Mathlib.Data.Nat.Find
import Phrasebook.Proofs.FileTree.Children
import Phrasebook.Proofs.FileTree.Following

namespace Phrasebook.FileTree

variable {tree : FileTree} {purpose : Purpose} {links : Nat} {place middle goal link : Place}
  {parts rest : List Text} {arrival : Arrival} {known known' : List (Place × Option Place)}

/-! ## Walks along parts of a path -/

/-- A walk may be allowed more links. -/
theorem Walks.mono (h : tree.Walks purpose links place parts arrival) {more : Nat}
    (hmore : links ≤ more) : tree.Walks purpose more place parts arrival := by
  induction h generalizing more with
  | done _ place => exact .done more place
  | here hpart _ ih => exact .here hpart (ih hmore)
  | up hpart _ ih => exact .up hpart (ih hmore)
  | vacant ha hat => exact .vacant ha hat
  | file ha hat => exact .file ha hat
  | entry he ha hat => exact .entry he ha hat
  | directory ha hat _ ih => exact .directory ha hat (ih hmore)
  | link ha hgoes hat _ ih =>
    obtain ⟨more, rfl⟩ := Nat.exists_eq_add_of_le' (Nat.le_trans (Nat.le_add_left 1 _) hmore)
    exact .link ha hgoes hat (ih (Nat.le_of_succ_le_succ hmore))

/-- However many links they may pass through, walks along the same parts arrive at one end. -/
theorem Walks.unique {more : Nat} {other : Arrival}
    (h : tree.Walks purpose links place parts arrival)
    (h' : tree.Walks purpose more place parts other) : arrival = other := by
  have hwalk := walk_of_walks (h.mono (Nat.le_max_left links more))
  have hwalk' := walk_of_walks (h'.mono (Nat.le_max_right links more))
  exact Except.ok.inj (hwalk.symm.trans hwalk')

/-- A walk that arrives at something comes to something with the parts of its way, and either these
are all of its parts or it goes on from a directory. -/
theorem Walks.first {entry : Entry}
    (h : tree.Walks .target links place (parts ++ rest) (.present goal entry)) :
    ∃ middle there, tree.Walks .target links place parts (.present middle there) ∧
      (rest = [] ∧ middle = goal ∨ there = .directory ∧
        tree.Walks .target links middle rest (.present goal entry)) := by
  by_cases hrest : rest = []
  · rw [hrest, List.append_nil] at h
    exact ⟨goal, entry, h, .inl ⟨hrest, rfl⟩⟩
  · obtain ⟨middle, left, hleft, hfirst, hlast⟩ := Walks.cut hrest h
    exact ⟨middle, .directory, hfirst, .inr ⟨rfl, hlast.mono hleft⟩⟩

/-! ## Links on the way -/

theorem Passes.at?_link (h : tree.Passes link place parts) :
    ∃ destination, tree.at? link = some (.link destination) := by
  induction h with
  | there _ hplace hat => exact ⟨_, hplace ▸ hat⟩
  | here _ _ ih => exact ih
  | up _ _ ih => exact ih
  | name _ _ _ ih => exact ih
  | beyond _ _ _ ih => exact ih

/-- Through the links of its beginning a longer path leads as well. -/
theorem Passes.append (h : tree.Passes link place parts) (rest : List Text) :
    tree.Passes link place (parts ++ rest) := by
  induction h with
  | there hname hplace hat => exact .there hname hplace hat
  | here hpart _ ih => exact .here hpart ih
  | up hpart _ ih => exact .up hpart ih
  | name hname hno _ ih => exact .name hname hno ih
  | beyond hname hat _ ih =>
    refine .beyond hname hat ?_
    rw [List.append_assoc] at ih
    exact ih

/-- It also leads through those that are passed from where its beginning leads. -/
theorem Leads.passes (h : tree.Leads place parts middle) (hpass : tree.Passes link middle rest) :
    tree.Passes link place (parts ++ rest) := by
  induction h with
  | done place => exact hpass
  | here hpart _ ih => exact .here hpart (ih hpass)
  | up hpart _ ih => exact .up hpart (ih hpass)
  | name hname hno _ ih => exact .name hname hno (ih hpass)
  | link hname hat _ ih =>
    refine .beyond hname hat ?_
    have hrest := ih hpass
    rw [List.append_assoc] at hrest
    exact hrest

/-- The links through which parts lead have paths that can be handed over. -/
def Visible (tree : FileTree) (place : Place) (parts : List Text) : Prop :=
  ∀ link, tree.Passes link place parts → pathError? (Path.ofPlace link).text = none

/-! ## What is known about links -/

/-- Links whose ends are known lead there. -/
def KnownRight (tree : FileTree) (known : List (Place × Option Place)) : Prop :=
  ∀ place name destination goal, known.lookup (place ++ [name]) = some (some goal) →
    tree.at? (place ++ [name]) = some (.link destination) →
      tree.Leads (linkStart place destination) (destinationParts destination) goal

/-- No walk along the destination of a link that is being followed passes through fewer links. -/
def Unwalked (tree : FileTree) (known : List (Place × Option Place)) (links : Nat) : Prop :=
  ∀ place name destination, known.lookup (place ++ [name]) = some none →
    tree.at? (place ++ [name]) = some (.link destination) →
      ∀ fewer, fewer < links → ∀ arrival, ¬ tree.Walks .target fewer
        (linkStart place destination) (destinationParts destination) arrival

theorem SamePending.refl (known : List (Place × Option Place)) : SamePending known known :=
  fun _ => Iff.rfl

theorem KnownRight.begin (h : tree.KnownRight known) (next : Place) :
    tree.KnownRight ((next, none) :: known) := by
  intro place name destination goal hlookup hat
  rw [List.lookup_cons] at hlookup
  split at hlookup
  · cases Option.some.inj hlookup
  · exact h place name destination goal hlookup hat

theorem KnownRight.found (h : tree.KnownRight known) {name destination : Text}
    (hat : tree.at? (place ++ [name]) = some (.link destination))
    (hleads : tree.Leads (linkStart place destination) (destinationParts destination) goal) :
    tree.KnownRight ((place ++ [name], some goal) :: known) := by
  intro place' name' destination' goal' hlookup hat'
  by_cases heq : place' ++ [name'] = place ++ [name]
  · obtain ⟨rfl, hname⟩ := List.append_inj' heq rfl
    rw [heq, List.lookup_cons_self] at hlookup
    obtain rfl := Option.some.inj (Option.some.inj hlookup)
    obtain rfl := Entry.link.inj (Option.some.inj ((heq ▸ hat').symm.trans hat))
    exact hleads
  · rw [List.lookup_cons, beq_false_of_ne heq] at hlookup
    exact h place' name' destination' goal' hlookup hat'

theorem Unwalked.congr (h : tree.Unwalked known links) (hp : SamePending known known') :
    tree.Unwalked known' links :=
  fun place name destination hlookup => h place name destination ((hp _).mp hlookup)

/-- A link is begun with the smallest number of links that suffices for its destination. -/
theorem Unwalked.begin (h : tree.Unwalked known links) {name destination : Text} {fewest : Nat}
    (hat : tree.at? (place ++ [name]) = some (.link destination)) (hfewest : fewest ≤ links)
    (hleast : ∀ fewer, fewer < fewest → ∀ arrival, ¬ tree.Walks .target fewer
      (linkStart place destination) (destinationParts destination) arrival) :
    tree.Unwalked ((place ++ [name], none) :: known) fewest := by
  intro place' name' destination' hlookup hat' fewer hfewer
  by_cases heq : place' ++ [name'] = place ++ [name]
  · obtain ⟨rfl, -⟩ := List.append_inj' heq rfl
    obtain rfl := Entry.link.inj (Option.some.inj ((heq ▸ hat').symm.trans hat))
    exact hleast fewer hfewer
  · rw [List.lookup_cons, beq_false_of_ne heq] at hlookup
    exact h place' name' destination' hlookup hat' fewer (Nat.lt_of_lt_of_le hfewer hfewest)

/-! ## Following -/

/-- Parts are followed to a goal, with the same links pending, and what is known then is right. -/
def EndsAt (tree : FileTree) (known : List (Place × Option Place)) (goal : Place) (trail : Trail) :
    Prop :=
  ∃ known', trail = .arrived goal known' ∧ SamePending known known' ∧ tree.KnownRight known'

theorem EndsAt.trans {trail : Trail} (h : tree.EndsAt known' goal trail)
    (hp : SamePending known known') : tree.EndsAt known goal trail := by
  obtain ⟨last, htrail, hpending, hright⟩ := h
  exact ⟨last, htrail, fun p => (hpending p).trans (hp p), hright⟩

/-- Directories stand above a directory. -/
theorem Sound.directories (h : tree.Sound) (hplace : tree.at? place = some .directory) :
    ∀ p, p <+: place → tree.at? p = some .directory := by
  intro p hp
  by_cases heq : p = place
  · rw [heq, hplace]
  · exact h.above (by simp [hplace]) hp heq

/-- The destination of a link in a directory is taken from a directory. -/
theorem at?_linkStart (hplace : tree.at? place = some .directory) (destination : Text) :
    tree.at? (linkStart place destination) = some .directory := by
  unfold linkStart
  split
  · rfl
  · exact hplace

/-- In a directory no link is seen where none stands. -/
theorem Sound.linkAt?_eq_none (h : tree.Sound) (hplace : tree.at? place = some .directory)
    {name : Text} (hname : IsName name)
    (hno : ∀ destination, tree.at? (place ++ [name]) ≠ some (.link destination)) :
    tree.linkAt? (place ++ [name]) = none := by
  refine Option.eq_none_iff_forall_ne_some.mpr fun destination hseen => hno destination ?_
  have hthere : tree.at? place ≠ none := by simp [hplace]
  exact h.at?_of_linkAt? (h.unlinked hplace) ((h.plain hthere).child hname) hseen

/-- If the links that begin on the way of a walk are followed to where they lead, so are its
parts. -/
theorem followWith_endsAt (hsound : tree.Sound)
    {inner : List (Place × Option Place) → Place → List Text → Option Trail}
    {P : List (Place × Option Place) → Prop}
    (hP : ∀ known known', SamePending known known' → P known → P known')
    (hinner : ∀ known place name destination fewer middle there, P known →
      tree.KnownRight known → tree.Unwalked known links → fewer < links →
      tree.at? place = some .directory → tree.at? (place ++ [name]) = some (.link destination) →
      known.lookup (place ++ [name]) = none →
      tree.Walks .target fewer (linkStart place destination) (destinationParts destination)
        (.present middle there) →
      tree.Visible (linkStart place destination) (destinationParts destination) →
      ∃ trail, inner ((place ++ [name], none) :: known) (linkStart place destination)
          (destinationParts destination) = some trail ∧
        tree.EndsAt ((place ++ [name], none) :: known) middle trail)
    {entry : Entry} (hwalks : tree.Walks .target links place parts (.present goal entry))
    (hplace : tree.at? place = some .directory) (hdepth : P known)
    (hknown : tree.KnownRight known) (hunwalked : tree.Unwalked known links)
    (hvisible : tree.Visible place parts) :
    tree.EndsAt known goal (tree.followWith inner known place parts) := by
  induction parts generalizing known place with
  | nil =>
    cases hwalks
    exact ⟨known, rfl, .refl known, hknown⟩
  | cons part rest ih =>
    unfold followWith
    by_cases hhere : (part.isEmpty || part = Path.here) = true
    · rw [if_pos hhere]
      rw [Bool.or_eq_true, List.isEmpty_iff, decide_eq_true_eq] at hhere
      exact ih (hwalks.cons_here hhere) hplace hdepth hknown hunwalked
        fun link hpass => hvisible link (.here hhere hpass)
    rw [if_neg hhere]
    by_cases hup : part = Path.up
    · rw [if_pos hup]
      subst hup
      have habove := hsound.directories hplace _ (List.dropLast_prefix place)
      exact ih hwalks.cons_up habove hdepth hknown hunwalked
        fun link hpass => hvisible link (.up rfl hpass)
    rw [if_neg hup]
    have hname : IsName part := by
      rw [Bool.or_eq_true, List.isEmpty_iff, decide_eq_true_eq, not_or] at hhere
      exact ⟨hhere.1, hhere.2, hup⟩
    have hgoes := hwalks.cons_name hname
    cases hat : tree.at? (place ++ [part]) with
    | none =>
      rw [hat] at hgoes
      cases hgoes.2
    | some there =>
      rw [hat] at hgoes
      cases there with
      | file content =>
        obtain ⟨rfl, hgoal⟩ := hgoes
        obtain ⟨rfl, -⟩ := Arrival.present.inj hgoal
        simp only [hsound.linkAt?_eq_none hplace hname (by simp [hat])]
        exact ⟨known, rfl, .refl known, hknown⟩
      | directory =>
        simp only [hsound.linkAt?_eq_none hplace hname (by simp [hat])]
        exact ih hgoes hat hdepth hknown hunwalked
          fun link hpass => hvisible link (.directory hname hat hpass)
      | link destination =>
        rcases hgoes with ⟨-, hentry, -⟩ | ⟨-, fewer, rfl, hgoes⟩
        · cases hentry
        obtain ⟨middle, there, hfirst, hlast⟩ := hgoes.first
        have hleads := hfirst.leads (by decide)
        have hbeyond : ∀ link, tree.Passes link (linkStart place destination)
            (destinationParts destination ++ rest) → pathError? (Path.ofPlace link).text = none :=
          fun link hpass => hvisible link (.beyond hname hat hpass)
        -- from where the link leads the rest is followed
        have hrest : ∀ known₁, SamePending known known₁ → tree.KnownRight known₁ →
            tree.EndsAt known goal (tree.followWith inner known₁ middle rest) := by
          intro known₁ hpending hright
          rcases hlast with ⟨rfl, rfl⟩ | ⟨rfl, hlast⟩
          · exact ⟨known₁, rfl, hpending, hright⟩
          · have hstart := hsound.directories (at?_linkStart hplace destination)
            have hmiddle := hfirst.directories hstart middle List.prefix_rfl
            exact (ih (hlast.mono (Nat.le_succ fewer)) hmiddle (hP _ _ hpending hdepth) hright
              (hunwalked.congr hpending)
              fun link hpass => hbeyond link (hleads.passes hpass)).trans hpending
        simp only [hsound.linkAt? hat (hvisible _ (.there hname rfl hat))]
        cases hlookup : known.lookup (place ++ [part]) with
        | some met =>
          cases met with
          | some end_ =>
            obtain rfl := (hknown place part destination end_ hlookup hat).unique hleads
            exact hrest known (.refl known) hknown
          | none =>
            exact absurd hfirst
              (hunwalked place part destination hlookup hat fewer (Nat.lt_succ_self fewer) _)
        | none =>
          obtain ⟨trail, htrail, known₁, rfl, hpending, hright⟩ := hinner known place part
            destination fewer middle there hdepth hknown hunwalked (Nat.lt_succ_self fewer) hplace
            hat hlookup hfirst fun link hpass => hbeyond link (hpass.append rest)
          have hstart : (if destination.head? = some Path.slash then [] else place) =
              linkStart place destination := rfl
          simp only [hstart, htrail]
          exact hrest _ (samePending_end hlookup hpending) (hright.found hat hleads)

/-- Where a walk arrives at something, its parts are followed to that place. -/
theorem endsAt_of_walks (hsound : tree.Sound) {depth : Nat} {entry : Entry}
    (hwalks : tree.Walks .target links place parts (.present goal entry))
    (hplace : tree.at? place = some .directory) (hdepth : tree.Enough known depth)
    (hknown : tree.KnownRight known) (hunwalked : tree.Unwalked known links)
    (hvisible : tree.Visible place parts) :
    tree.EndsAt known goal (tree.follow depth known place parts) := by
  induction links using Nat.strongRecOn generalizing depth known place parts goal entry with
  | ind links ih =>
    obtain ⟨inner, hfollow, hinner⟩ := follow_eq_followWith tree depth
    rw [hfollow]
    refine followWith_endsAt hsound (P := fun known => tree.Enough known depth)
      (fun _ _ hp h => h.congr hp) ?_ hwalks hplace hdepth hknown hunwalked hvisible
    intro known place name destination fewer middle there hdepth hknown hunwalked hfewer hplace hat
      hlookup hfirst hvisible
    obtain ⟨d, rfl, hd⟩ := hdepth.begin hlookup hat
    -- of the numbers that suffice for the destination of the link the smallest is taken
    have hsome : ∃ n arrival, tree.Walks .target n (linkStart place destination)
        (destinationParts destination) arrival := ⟨fewer, _, hfirst⟩
    classical
    obtain ⟨arrival, hfewest⟩ := Nat.find_spec hsome
    obtain rfl := hfewest.unique hfirst
    have hleast := fun n (hn : n < Nat.find hsome) arrival hwalks =>
      Nat.find_min hsome hn ⟨arrival, hwalks⟩
    have hfew : Nat.find hsome ≤ fewer := Nat.find_min' hsome ⟨_, hfirst⟩
    refine ⟨_, hinner d rfl ▸ rfl, ih _ (Nat.lt_of_le_of_lt hfew hfewer) hfewest
      (at?_linkStart hplace destination) hd (hknown.begin _) ?_ hvisible⟩
    exact hunwalked.begin hat (Nat.le_trans hfew (Nat.le_of_lt hfewer)) hleast

/-! ## The end of a path -/

/-- Proper names on a way without links are passed one after the other. -/
theorem followWith_names {inner : List (Place × Option Place) → Place → List Text → Option Trail}
    {names : List Text} (hu : tree.Unlinked (place ++ names)) (hp : PlainParts names)
    (rest : List Text) :
    tree.followWith inner known place (names ++ rest) =
      tree.followWith inner known (place ++ names) rest := by
  induction names generalizing place with
  | nil => rw [List.nil_append, List.append_nil]
  | cons name names ih =>
    obtain ⟨⟨hne, hhere, hup⟩, hnames⟩ := List.forall_mem_cons.mp hp
    have hplace : place ++ [name] ++ names = place ++ name :: names := List.append_assoc ..
    have hunseen : tree.linkAt? (place ++ [name]) = none := hu _ ⟨names, hplace⟩
    rw [List.cons_append, followWith, if_neg (by simp [hne, hhere]), if_neg hup]
    simp only [hunseen]
    rw [ih (hplace ▸ hu) hnames, hplace]

/-- The end of a path is the same if it is taken from a directory or goes on from its place. -/
theorem endOf_ofPlace (hsound : tree.Sound) {directory : Place}
    (hd : tree.at? directory = some .directory) (parts : List Text) (working : Place) :
    tree.endOf working ⟨.root, directory ++ parts⟩ = tree.endOf directory ⟨.relative, parts⟩ := by
  have hplain : PlainParts directory := hsound.plain (by simp [hd])
  have hfollow : ∀ depth, tree.follow depth [] [] (directory ++ parts) =
      tree.follow depth [] directory parts := by
    intro depth
    obtain ⟨inner, hinner, -⟩ := follow_eq_followWith tree depth
    have hunlinked : tree.Unlinked ([] ++ directory) := hsound.unlinked hd
    rw [hinner, followWith_names hunlinked hplain, List.nil_append]
  have hroot : startOf working ⟨.root, directory ++ parts⟩ = [] := rfl
  have hstart : startOf directory ⟨.relative, parts⟩ = directory := rfl
  unfold endOf
  simp only [hroot, hstart, hfollow]

/-- The end of a path is where a walk along it arrives. -/
theorem endOf_of_walks (hsound : tree.Sound) {directory : Place} {entry : Entry}
    (hd : tree.at? directory = some .directory)
    (hwalks : tree.Walks .target links directory parts (.present goal entry))
    (hvisible : tree.Visible directory parts) :
    tree.endOf directory ⟨.relative, parts⟩ = goal := by
  have hnone : ∀ {met : Option Place} (p : Place),
      ([] : List (Place × Option Place)).lookup p ≠ some met := fun p h => nomatch h
  obtain ⟨known, hfollow, -⟩ := endsAt_of_walks hsound hwalks hd
    (enough_linkCount (fun _ _ => Iff.rfl)) (fun _ _ _ _ h => absurd h (hnone _))
    (fun _ _ _ h => absurd h (hnone _)) hvisible
  have hstart : startOf directory ⟨.relative, parts⟩ = directory := rfl
  unfold endOf
  simp only [hstart, hfollow]

end Phrasebook.FileTree
