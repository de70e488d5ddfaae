/-
# Phrasebook.Proofs.FileTree.Following -- paths without links stay what they are

Following a path looks at links only, each at a place to which no further link leads.  Writing files
keeps all of them, so it keeps where the path is followed to.  The number that bounds the following
is taken from the tree, and may shrink together with entries that nobody can see; what matters is
that it is large enough before and after.  It is, since no link is begun twice at the same time.
-/
import Mathlib.Data.List.Nodup
import Mathlib.Data.List.Perm.Subperm
import Phrasebook.Proofs.FileTree.Sound

namespace Phrasebook.FileTree

variable {tree tree' : FileTree} {place goal : Place} {known known' : List (Place × Option Place)}

/-! ## Enough depth -/

/-- In a list of different places at which links stand there are no more than the tree has links. -/
theorem length_le_linkCount {places : List Place} (hn : places.Nodup)
    (h : ∀ p ∈ places, ∃ destination, tree.at? p = some (.link destination)) :
    places.length ≤ tree.linkCount := by
  unfold linkCount
  rw [List.countP_eq_length_filter, ← List.length_map Prod.fst]
  refine (List.subperm_of_subset hn fun p hp => ?_).length_le
  obtain ⟨destination, hat⟩ := h p hp
  unfold at? at hat
  split at hat
  · cases hat
  · obtain ⟨before, after, hentries, -⟩ := List.lookup_eq_some_iff.mp hat
    refine List.mem_map.mpr ⟨(p, .link destination), List.mem_filter.mpr ⟨?_, rfl⟩, rfl⟩
    simp [hentries]

/-- A tree that has no links has none anywhere. -/
theorem linkless_of_linkCount (h : tree.linkCount = 0) : tree.Linkless := by
  intro place destination hat
  have hlength := length_le_linkCount (List.nodup_singleton place) fun p hp => by
    rw [List.mem_singleton.mp hp]
    exact ⟨destination, hat⟩
  rw [h] at hlength
  exact absurd hlength (by simp)

/-- The links that are being followed are the same. -/
def SamePending (known known' : List (Place × Option Place)) : Prop :=
  ∀ p, known'.lookup p = some none ↔ known.lookup p = some none

/-- The depth suffices for all links that are not being followed. -/
def Enough (tree : FileTree) (known : List (Place × Option Place)) (depth : Nat) : Prop :=
  ∀ places : List Place, places.Nodup →
    (∀ p ∈ places, known.lookup p ≠ some none ∧
      ∃ destination, tree.at? p = some (.link destination)) → places.length ≤ depth

theorem enough_linkCount (hs : SameLinks tree tree') : tree.Enough [] (tree'.linkCount + 1) := by
  intro places hn h
  refine Nat.le_succ_of_le (length_le_linkCount hn fun p hp => ?_)
  obtain ⟨destination, hat⟩ := (h p hp).2
  exact ⟨destination, (hs p destination).mpr hat⟩

theorem Enough.congr {depth : Nat} (h : tree.Enough known depth) (hp : SamePending known known') :
    tree.Enough known' depth :=
  fun places hn hplaces => h places hn fun p hm =>
    ⟨fun hpending => (hplaces p hm).1 ((hp p).mpr hpending), (hplaces p hm).2⟩

/-- While a link is followed that was not, one less is enough. -/
theorem Enough.begin {depth : Nat} {next : Place} {destination : Text}
    (h : tree.Enough known depth) (hnone : known.lookup next = none)
    (hat : tree.at? next = some (.link destination)) :
    ∃ d, depth = d + 1 ∧ tree.Enough ((next, none) :: known) d := by
  have hnext : known.lookup next ≠ some none := by simp [hnone]
  cases depth with
  | zero =>
    have hlength := h [next] (List.nodup_singleton next) fun p hp => by
      rw [List.mem_singleton.mp hp]
      exact ⟨hnext, destination, hat⟩
    exact absurd hlength (by simp)
  | succ d =>
    refine ⟨d, rfl, fun places hn hplaces => ?_⟩
    -- the new link could be added to the list
    have hfresh : next ∉ places := fun hm => (hplaces next hm).1 (by simp)
    have hlength := h (next :: places) (List.nodup_cons.mpr ⟨hfresh, hn⟩) fun p hp => by
      rcases List.mem_cons.mp hp with rfl | hp
      · exact ⟨hnext, destination, hat⟩
      · have hne : p ≠ next := fun heq => hfresh (heq ▸ hp)
        obtain ⟨hpending, hlink⟩ := hplaces p hp
        refine ⟨fun hknown => hpending ?_, hlink⟩
        rw [List.lookup_cons, beq_false_of_ne hne]
        exact hknown
    exact Nat.le_of_succ_le_succ hlength

/-! ## What following keeps -/

/-- A place with proper names, on the way to which no link is seen. -/
structure Settled (tree : FileTree) (place : Place) : Prop where
  plain : PlainParts place
  unlinked : tree.Unlinked place

/-- The links whose ends are known lead to settled places. -/
def KnownSettled (tree : FileTree) (known : List (Place × Option Place)) : Prop :=
  ∀ link goal, known.lookup link = some (some goal) → tree.Settled goal

/-- Following from known links ends at a settled place, with the same links pending. -/
def EndsSettled (tree : FileTree) (known : List (Place × Option Place)) (trail : Trail) : Prop :=
  ∀ goal known', trail = .arrived goal known' →
    tree.Settled goal ∧ tree.KnownSettled known' ∧ SamePending known known'

theorem settled_root : tree.Settled [] := ⟨fun _ hm => (nomatch hm), unlinked_root⟩

theorem Settled.up (h : tree.Settled place) : tree.Settled place.dropLast where
  plain := fun part hm => h.plain part (List.dropLast_subset _ hm)
  unlinked := h.unlinked.above (List.dropLast_prefix place)

theorem Settled.child (h : tree.Settled place) {name : Text} (hn : IsName name)
    (hnone : tree.linkAt? (place ++ [name]) = none) : tree.Settled (place ++ [name]) where
  plain := h.plain.child hn
  unlinked := h.unlinked.child hnone

theorem EndsSettled.looped (parts : List Text) : tree.EndsSettled known (.looped parts) :=
  fun _ _ h => nomatch h

/-- Once the end of a link is known it is no longer being followed. -/
theorem samePending_end {next : Place} (hnone : known.lookup next = none)
    (h : SamePending ((next, none) :: known) known') :
    SamePending known ((next, some goal) :: known') := by
  intro p
  by_cases heq : p = next
  · simp [heq, hnone]
  · have hp := h p
    rw [List.lookup_cons, beq_false_of_ne heq] at hp ⊢
    exact hp

theorem KnownSettled.cons {next : Place} (h : tree.KnownSettled known) (hgoal : tree.Settled goal) :
    tree.KnownSettled ((next, some goal) :: known) := by
  intro link end_ hlookup
  by_cases heq : link = next
  · rw [heq, List.lookup_cons_self] at hlookup
    obtain rfl := Option.some.inj (Option.some.inj hlookup)
    exact hgoal
  · rw [List.lookup_cons, beq_false_of_ne heq] at hlookup
    exact h link end_ hlookup

theorem KnownSettled.begin {next : Place} (h : tree.KnownSettled known) :
    tree.KnownSettled ((next, none) :: known) := by
  intro link goal hlookup
  by_cases heq : link = next
  · rw [heq, List.lookup_cons_self] at hlookup
    cases Option.some.inj hlookup
  · rw [List.lookup_cons, beq_false_of_ne heq] at hlookup
    exact h link goal hlookup

theorem EndsSettled.trans {trail : Trail} (h : tree.EndsSettled known' trail)
    (hp : SamePending known known') : tree.EndsSettled known trail := by
  intro goal last heq
  obtain ⟨hgoal, hknown, hpending⟩ := h goal last heq
  exact ⟨hgoal, hknown, fun p => (hpending p).trans (hp p)⟩

/-! ## Following after files have been written -/

section

variable {written : Place → Prop}

/-- If the links that begin on the way are followed to the same ends, so are the parts. -/
theorem followWith_kept (hsound : tree.Sound) (hk : Kept written tree tree')
    {P : List (Place × Option Place) → Prop}
    {inner inner' : List (Place × Option Place) → Place → List Text → Option Trail}
    (hP : ∀ known known', SamePending known known' → P known → P known')
    (hinner : ∀ known next start destination parts, P known → tree.KnownSettled known →
      tree.Settled start → known.lookup next = none →
      tree.at? next = some (.link destination) →
      ∃ trail, inner ((next, none) :: known) start parts = some trail ∧
        inner' ((next, none) :: known) start parts = some trail ∧
          tree.EndsSettled ((next, none) :: known) trail)
    (parts : List Text) (hdepth : P known) (hknown : tree.KnownSettled known)
    (hplace : tree.Settled place) :
    tree'.followWith inner' known place parts = tree.followWith inner known place parts ∧
      tree.EndsSettled known (tree.followWith inner known place parts) := by
  induction parts generalizing known place with
  | nil =>
    refine ⟨rfl, fun goal last h => ?_⟩
    obtain ⟨rfl, rfl⟩ := Trail.arrived.inj h
    exact ⟨hplace, hknown, fun p => Iff.rfl⟩
  | cons part rest ih =>
    unfold followWith
    by_cases hhere : (part.isEmpty || part = Path.here) = true
    · rw [if_pos hhere, if_pos hhere]
      exact ih hdepth hknown hplace
    rw [if_neg hhere, if_neg hhere]
    by_cases hup : part = Path.up
    · rw [if_pos hup, if_pos hup]
      exact ih hdepth hknown hplace.up
    rw [if_neg hup, if_neg hup]
    have hname : IsName part := by
      rw [Bool.or_eq_true, List.isEmpty_iff, decide_eq_true_eq, not_or] at hhere
      exact ⟨hhere.1, hhere.2, hup⟩
    have hplain := hplace.plain.child hname
    simp only [hsound.linkAt?_kept hk hplace.unlinked hplain]
    cases hseen : tree.linkAt? (place ++ [part]) with
    | none => exact ih hdepth hknown (hplace.child hname hseen)
    | some destination =>
      simp only
      cases hlookup : known.lookup (place ++ [part]) with
      | some met =>
        cases met with
        | some goal => exact ih hdepth hknown (hknown _ goal hlookup)
        | none => exact ⟨rfl, .looped _⟩
      | none =>
        -- a link that is met for the first time
        have hstart : tree.Settled (if destination.head? = some Path.slash then [] else place) := by
          split
          · exact settled_root
          · exact hplace
        obtain ⟨trail, htrail, htrail', hends⟩ := hinner known (place ++ [part]) _ destination
          (destinationParts destination) hdepth hknown hstart hlookup
          (hsound.at?_of_linkAt? hplace.unlinked hplain hseen)
        simp only [htrail, htrail']
        cases trail with
        | looped left => exact ⟨rfl, .looped _⟩
        | arrived goal known₁ =>
          obtain ⟨hgoal, hknown₁, hpending⟩ := hends goal known₁ rfl
          have hsame : SamePending known ((place ++ [part], some goal) :: known₁) :=
            samePending_end hlookup hpending
          obtain ⟨heq, hlast⟩ := ih (hP _ _ hsame hdepth) (hknown₁.cons hgoal) hgoal
          exact ⟨heq, hlast.trans hsame⟩

/-- With some depth left a link is followed with one less. -/
theorem follow_eq_followWith (tree : FileTree) (depth : Nat) :
    ∃ inner, tree.follow depth = tree.followWith inner ∧ ∀ d, depth = d + 1 →
      inner = fun known place parts => some (tree.follow d known place parts) := by
  cases depth with
  | zero => exact ⟨_, rfl, fun d h => nomatch h⟩
  | succ depth =>
    refine ⟨_, rfl, fun d h => ?_⟩
    obtain rfl := Nat.succ.inj h
    rfl

/-- With enough depth before and after, parts are followed to the same end. -/
theorem follow_kept (hsound : tree.Sound) (hk : Kept written tree tree') {depth depth' : Nat}
    (parts : List Text) (hdepth : tree.Enough known depth) (hdepth' : tree.Enough known depth')
    (hknown : tree.KnownSettled known) (hplace : tree.Settled place) :
    tree'.follow depth' known place parts = tree.follow depth known place parts ∧
      tree.EndsSettled known (tree.follow depth known place parts) := by
  induction depth using Nat.strongRecOn generalizing depth' known place parts with
  | ind depth ih =>
    obtain ⟨inner, hfollow, hinner⟩ := follow_eq_followWith tree depth
    obtain ⟨inner', hfollow', hinner'⟩ := follow_eq_followWith tree' depth'
    rw [hfollow, hfollow']
    refine followWith_kept hsound hk
      (P := fun known => tree.Enough known depth ∧ tree.Enough known depth')
      (fun _ _ hp h => ⟨h.1.congr hp, h.2.congr hp⟩) ?_ parts ⟨hdepth, hdepth'⟩ hknown hplace
    intro known next start destination parts ⟨henough, henough'⟩ hknown hstart hnone hat
    obtain ⟨d, rfl, hd⟩ := henough.begin hnone hat
    obtain ⟨d', rfl, hd'⟩ := henough'.begin hnone hat
    obtain ⟨heq, hends⟩ := ih d (Nat.lt_succ_self d) parts hd hd' hknown.begin hstart
    refine ⟨_, by rw [hinner d rfl], ?_, hends⟩
    rw [hinner' d' rfl]
    exact congrArg some heq

end

/-! ## Resolving after files have been written -/

/-- The place that a path without links names. -/
def endOf (tree : FileTree) (directory : Place) (path : Path) : Place :=
  match tree.follow (tree.linkCount + 1) [] (startOf directory path) path.parts with
  | .arrived place _ => place
  | .looped parts => collapse parts

theorem plain_collapse (parts : List Text) : PlainParts (collapse parts) := by
  -- the names that have been kept so far are proper ones
  suffices h : ∀ kept : Place, PlainParts kept → PlainParts (parts.foldl (fun acc part =>
      if part.isEmpty || part = Path.here then acc else if part = Path.up then acc.dropLast
      else acc ++ [part]) kept) from h [] fun _ hm => nomatch hm
  induction parts with
  | nil => exact fun _ h => h
  | cons part rest ih =>
    intro kept hkept
    refine ih _ ?_
    simp only
    split
    · exact hkept
    · next hhere =>
      split
      · exact fun part hm => hkept part (List.dropLast_subset _ hm)
      · next hup =>
        rw [Bool.or_eq_true, List.isEmpty_iff, decide_eq_true_eq, not_or] at hhere
        exact hkept.child ⟨hhere.1, hhere.2, hup⟩

variable {written : Place → Prop} {directory : Place} {path resolved : Path}

/-- A path is resolved to the place that it names, unless that cannot be asked for. -/
theorem resolve_eq : tree.resolve directory path = match pathError? path.text with
    | some .surrogateInPath => .error (.refused .surrogateInPath)
    | some .zeroInPath => .error (.refused .zeroInPath)
    | _ => match tree.arrive .target [] (Path.ofPlace (tree.endOf directory path)) with
      | .error .tooManyLinks => .error (.loop (Path.ofPlace (tree.endOf directory path)))
      | _ => .ok (Path.ofPlace (tree.endOf directory path)) := rfl

theorem resolve_eq_ok_iff :
    tree.resolve directory path = .ok resolved ↔
      pathError? path.text ≠ some .surrogateInPath ∧ pathError? path.text ≠ some .zeroInPath ∧
        resolved = Path.ofPlace (tree.endOf directory path) ∧
          tree.arrive .target [] resolved ≠ .error .tooManyLinks := by
  rw [resolve_eq]
  split
  · next h => simp [h]
  · next h => simp [h]
  · next hsurrogate hzero =>
    split
    · next harr =>
      constructor
      · intro h
        cases h
      · rintro ⟨-, -, rfl, hno⟩
        exact absurd harr hno
    · next hno =>
      constructor
      · intro h
        obtain rfl := Except.ok.inj h
        exact ⟨hsurrogate, hzero, rfl, hno⟩
      · rintro ⟨-, -, rfl, -⟩
        rfl

/-- In a sound tree the end of a path from a directory stays while files are written, and its names
are proper ones. -/
theorem endOf_kept (path : Path) (hsound : tree.Sound) (hk : Kept written tree tree')
    (hd : tree.at? directory = some .directory) :
    tree'.endOf directory path = tree.endOf directory path ∧
      PlainParts (tree.endOf directory path) := by
  have hstart : tree.Settled (startOf directory path) := by
    unfold startOf
    split
    · exact settled_root
    · exact ⟨hsound.plain (by simp [hd]), hsound.unlinked hd⟩
  obtain ⟨heq, hends⟩ := follow_kept hsound hk path.parts
    (enough_linkCount (fun _ _ => Iff.rfl)) (enough_linkCount hk.links) (fun _ _ h => nomatch h)
    hstart
  unfold endOf
  rw [heq]
  refine ⟨rfl, ?_⟩
  split
  · next place known hfollow => exact (hends place known hfollow).1.plain
  · exact plain_collapse _

/-- Where a path without links finds no file it finds none after files have been written, unless
one is written there: it is refused as before, or comes to a directory, or misses something. -/
theorem arrive_unfound (hsound : tree.Sound) (hk : Kept written tree tree')
    (hp : PlainParts place) (hu : tree.Unlinked place)
    (hshort : ∀ part ∈ place, part.byteLength ≤ partLimit)
    (hw : tree.Avoids [] (Path.ofPlace place) written)
    (hno : ∀ content, tree.status [] (Path.ofPlace place) ≠ .ok (.file content)) :
    (∃ e, tree.arrive .target [] (Path.ofPlace place) = .error e ∧
        tree'.arrive .target [] (Path.ofPlace place) = .error e) ∨
      (∃ p, tree'.arrive .target [] (Path.ofPlace place) = .ok (.present p .directory)) ∨
      (∃ p name, tree'.arrive .target [] (Path.ofPlace place) = .ok (.vacant p name)) ∨
      tree'.arrive .target [] (Path.ofPlace place) = .error .notFound ∨
      tree'.arrive .target [] (Path.ofPlace place) = .error .notDirectory := by
  cases herror : pathError? (Path.ofPlace place).text with
  | some e => exact Or.inl ⟨e, arrive_eq_error herror .target, arrive_eq_error herror .target⟩
  | none =>
    right
    have harrive : ∀ t : FileTree, t.arrive .target [] (Path.ofPlace place) =
        t.walk .target linkLimit [] place := fun _ => arrive_eq_walk herror .target
    have hroot : ∀ t : FileTree, t.at? [] = some .directory := fun _ => rfl
    have hclear := hsound.clear_target hu herror
    have hwalk := walk_clear linkLimit (hclear.congr hk.links) hp (hroot tree')
    rw [harrive]
    cases hend : tree'.walk .target linkLimit [] place with
    | error e =>
      rcases walk_clear_error (hclear.congr hk.links) hp hshort hend with rfl | rfl
      · exact Or.inr (Or.inr (Or.inl rfl))
      · exact Or.inr (Or.inr (Or.inr rfl))
    | ok arrival =>
      rw [hend] at hwalk
      obtain ⟨-, hat⟩ := hwalk
      rw [List.nil_append] at hat
      cases arrival with
      | vacant p name => exact Or.inr (Or.inl ⟨p, name, rfl⟩)
      | present p entry =>
        obtain ⟨rfl, hentry⟩ := hat
        cases entry with
        | directory => exact Or.inl ⟨p, rfl⟩
        | link destination =>
          exact absurd ((hk.links _ _).mp hentry)
            (hsound.at?_ne_link hu List.prefix_rfl herror destination)
        | file content =>
          -- a file that is not written was there before
          have hbefore := (hk.files p (hw p (Leads.of_clear hclear hp)) content).mp hentry
          have hthere : tree.at? p ≠ none := by simp [hbefore]
          have hopen : tree.Open [] p := open_of_above hshort fun q hq _ hne =>
            hsound.above hthere hq hne
          have hfound := walk_of_open linkLimit hclear hp (hroot tree) hopen hbefore
          refine absurd (status_eq_ok_iff.mpr ⟨p, ?_⟩) (hno content)
          rw [harrive]
          exact hfound

end Phrasebook.FileTree
