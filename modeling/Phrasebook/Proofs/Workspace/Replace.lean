/-
# Phrasebook.Proofs.Workspace.Replace -- writing a file beside its place and moving it there

`Replaced` says what an attempt to replace a file does to a tree without links.  All entries but two
stay as they are.  The file itself changes only if the attempt succeeds, and then holds the whole
new content.  The temporary file is gone after a success.  After a failure it stands there as before or
not at all, unless the host refuses to remove it: then it may be a file with something written to it.

A host lets what has been moved away be removed, too.  So one attempt that succeeds tells that no later
one leaves a temporary file behind.
-/
import Phrasebook.Proofs.Host
import Phrasebook.Proofs.Workspace.Directories

namespace Phrasebook.Workspace

/-- What an attempt to replace a file does to a tree; `written` is the content of the file if the
attempt succeeds. -/
structure Replaced (host : Host) (target : Path) (written : Option ByteArray)
    (tree tree' : FileTree) : Prop where
  others : ∀ p, p ≠ target.parts → p ≠ (temporaryPath target).parts → tree'.at? p = tree.at? p
  temporary :
    tree'.at? (temporaryPath target).parts = tree.at? (temporaryPath target).parts ∨
      tree.at? (temporaryPath target).parts ≠ some .directory ∧
        (tree'.at? (temporaryPath target).parts = none ∨
          ¬ host.Removes (temporaryPath target) ∧
            ∃ content, tree'.at? (temporaryPath target).parts = some (.file content))
  failed : written = none → tree'.at? target.parts = tree.at? target.parts
  succeeded : ∀ content, written = some content →
    tree.at? target.parts ≠ some .directory ∧ tree'.at? target.parts = some (.file content) ∧
      tree'.at? (temporaryPath target).parts = none ∧ tree'.Direct target ∧
      host.Removes (temporaryPath target)

namespace Replaced

variable {host : Host} {target : Path} {written : Option ByteArray} {tree tree' : FileTree}

/-- An attempt that comes to nothing. -/
theorem refl (host : Host) (target : Path) (tree : FileTree) :
    Replaced host target none tree tree :=
  ⟨fun _ _ _ => rfl, Or.inl rfl, fun _ => rfl, fun _ hc => nomatch hc⟩

/-- No directory disappears. -/
theorem keeps_directories (h : Replaced host target written tree tree') {p : Place}
    (hd : tree.at? p = some .directory) : tree'.at? p = some .directory := by
  by_cases htmp : p = (temporaryPath target).parts
  · subst htmp
    rcases h.temporary with he | ⟨hne, -⟩
    · exact he.trans hd
    · exact absurd hd hne
  by_cases htarget : p = target.parts
  · subst htarget
    cases written with
    | none => exact (h.failed rfl).trans hd
    | some content => exact absurd hd (h.succeeded content rfl).1
  · exact (h.others p htarget htmp).trans hd

/-- No link comes into being. -/
theorem linkless (h : Replaced host target written tree tree') (hl : tree.Linkless) :
    tree'.Linkless := by
  intro p destination hlink
  by_cases htmp : p = (temporaryPath target).parts
  · subst htmp
    rcases h.temporary with he | ⟨-, hnone | ⟨-, content, hfile⟩⟩
    · exact hl _ destination (he.symm.trans hlink)
    · cases hnone.symm.trans hlink
    · cases hfile.symm.trans hlink
  by_cases htarget : p = target.parts
  · subst htarget
    cases written with
    | none => exact hl _ destination ((h.failed rfl).symm.trans hlink)
    | some content =>
      rw [(h.succeeded content rfl).2.1] at hlink
      cases hlink
  · exact hl p destination ((h.others p htarget htmp).symm.trans hlink)

end Replaced

/-! ## Removing the temporary file -/

variable {w : World} {path : Path}

/-- Removing a temporary file changes the tree as `remove` does, or not at all if that fails. -/
theorem discard_cases (path : Path) (w : World) :
    (∃ e, ((∃ refusal, w.host.refuses w.tree (.remove path) = some refusal) ∨
          w.tree.remove w.directory path = .error e) ∧
        (World.run (discard path) w).2.tree = w.tree) ∨
      ∃ tree, w.tree.remove w.directory path = .ok tree ∧
        (World.run (discard path) w).2.tree = tree := by
  unfold discard
  rw [World.run_bind, World.run_liftM]
  rcases World.remove_cases path w with ⟨e, hremove, hw⟩ | ⟨tree, hremove, hw⟩
  · -- the failure is told or passed on
    refine Or.inl ⟨e, hremove, ?_⟩
    rw [hw]
    simp only
    split
    · rfl
    · rfl
    · split
      · rfl
      · rfl
  · refine Or.inr ⟨tree, hremove, ?_⟩
    rw [hw]
    rfl

/-- It changes nothing but the entry of the file. -/
theorem discard_tree (hl : w.tree.Linkless) (hp : path.Plain) :
    (World.run (discard path) w).2.tree = w.tree ∨
      w.tree.at? path.parts ≠ some .directory ∧
        (World.run (discard path) w).2.tree = w.tree.erase path.parts := by
  rcases discard_cases path w with ⟨-, -, htree⟩ | ⟨tree, hremove, htree⟩
  · exact Or.inl htree
  · obtain ⟨hne, rfl⟩ := FileTree.remove_ok hl hp hremove
    exact Or.inr ⟨hne, htree⟩

/-- A temporary file that can be removed is gone afterwards, unless the host refuses to remove it. -/
theorem discard_of_remove {tree : FileTree} (h : w.tree.remove w.directory path = .ok tree) :
    (World.run (discard path) w).2.tree = tree ∨
      (∃ refusal, w.host.refuses w.tree (.remove path) = some refusal) ∧
        (World.run (discard path) w).2.tree = w.tree := by
  rcases discard_cases path w with ⟨e, hrefused | hremove, htree⟩ | ⟨tree', hremove, htree⟩
  · exact Or.inr ⟨hrefused, htree⟩
  · exact nomatch h.symm.trans hremove
  · rw [htree]
    exact Or.inl (Except.ok.inj (hremove.symm.trans h))

/-! ## The file and its temporary sibling -/

/-- A file that can be replaced: it and its temporary sibling have plain paths and are two. -/
structure Replaceable (target : Path) : Prop where
  plain : target.Plain
  plain_temporary : (temporaryPath target).Plain
  distinct : (temporaryPath target).parts ≠ target.parts
  below : target.parts ≠ []
  below_temporary : (temporaryPath target).parts ≠ []

theorem plain_child {base : Path} {name : Text} (hb : base.Plain)
    (hn : name ≠ [] ∧ name ≠ Path.here ∧ name ≠ Path.up) : (base.child name).Plain where
  absolute := hb.absolute
  parts := by
    intro part hm
    rcases List.mem_append.mp hm with hm | hm
    · exact hb.parts part hm
    · rw [List.mem_singleton.mp hm]
      exact hn

theorem temporaryPath_child (base : Path) :
    temporaryPath (base.child sourceFileName) = base.child (sourceFileName ++ temporaryEnding) := by
  rw [temporaryPath, Path.sibling_child, Path.fileName_child]

/-- The source file of a directory can be replaced. -/
theorem replaceable_source {base : Path} (hb : base.Plain) :
    Replaceable (base.child sourceFileName) where
  plain := plain_child hb (by decide)
  plain_temporary := by
    rw [temporaryPath_child]
    exact plain_child hb (by decide)
  distinct := by
    rw [temporaryPath_child]
    simp only [Path.child, ne_eq, List.append_cancel_left_eq, List.cons.injEq, and_true]
    decide
  below := by simp [Path.child]
  below_temporary := by
    rw [temporaryPath_child]
    simp [Path.child]

/-! ## Replacing a file -/

section

variable {target : Path}

/-- A temporary file that is gone, or was not there, is the only difference. -/
theorem Replaceable.gone {host : Host} (h : Replaceable target) {tree tree' : FileTree}
    (hdir : tree.at? (temporaryPath target).parts ≠ some .directory)
    (hat : ∀ p, tree'.at? p = if p = (temporaryPath target).parts then none else tree.at? p) :
    Replaced host target none tree tree' := by
  refine ⟨?_, ?_, ?_, ?_⟩
  · intro p _ hne
    rw [hat, if_neg hne]
  · exact Or.inr ⟨hdir, Or.inl (by rw [hat, if_pos rfl])⟩
  · intro _
    rw [hat, if_neg (Ne.symm h.distinct)]
  · intro content hc
    cases hc

/-- A temporary file that was written and removed again leaves nothing behind. -/
theorem Replaceable.swept (h : Replaceable target) (host : Host) {tree : FileTree}
    {content : ByteArray} (hdir : tree.at? (temporaryPath target).parts ≠ some .directory) :
    Replaced host target none tree
      ((tree.put (temporaryPath target).parts (.file content)).erase
        (temporaryPath target).parts) := by
  refine h.gone hdir fun p => ?_
  rw [FileTree.at?_erase, FileTree.at?_put _ h.below_temporary]
  by_cases hp : p = (temporaryPath target).parts
  · rw [if_pos ⟨hp ▸ h.below_temporary, hp⟩, if_pos hp]
  · rw [if_neg (fun hc => hp hc.2), if_neg hp, if_neg hp]

/-- One that must not be removed stays. -/
theorem Replaceable.left {host : Host} (h : Replaceable target) {tree : FileTree}
    {content : ByteArray} (hdir : tree.at? (temporaryPath target).parts ≠ some .directory)
    (hkept : ¬ host.Removes (temporaryPath target)) :
    Replaced host target none tree (tree.put (temporaryPath target).parts (.file content)) := by
  have hat := FileTree.at?_put tree h.below_temporary (.file content)
  refine ⟨?_, Or.inr ⟨hdir, Or.inr ⟨hkept, content, ?_⟩⟩, ?_, fun _ hc => nomatch hc⟩
  · intro p _ hne
    rw [hat, if_neg hne]
  · rw [hat, if_pos rfl]
  · intro _
    rw [hat, if_neg (Ne.symm h.distinct)]

/-- A temporary file that was written and moved over its target replaces it. -/
theorem Replaceable.moved {host : Host} (h : Replaceable target) {tree : FileTree}
    {content : ByteArray} (hremoves : host.Removes (temporaryPath target))
    (htemp : tree.at? (temporaryPath target).parts ≠ some .directory)
    (htarget : tree.at? target.parts ≠ some .directory)
    (hd : (tree.put (temporaryPath target).parts (.file content)).Direct target) :
    Replaced host target (some content) tree
      (((tree.put (temporaryPath target).parts (.file content)).erase
        (temporaryPath target).parts).put target.parts (.file content)) := by
  have hat : ∀ p, (((tree.put (temporaryPath target).parts (.file content)).erase
      (temporaryPath target).parts).put target.parts (.file content)).at? p =
        if p = target.parts then some (.file content)
        else if p = (temporaryPath target).parts then none else tree.at? p := by
    intro p
    rw [FileTree.at?_put _ h.below, FileTree.at?_erase, FileTree.at?_put _ h.below_temporary]
    by_cases hp : p = (temporaryPath target).parts
    · simp only [hp, h.below_temporary, ne_eq, not_false_eq_true, and_self, if_true]
    · simp only [hp, and_false, if_false]
  have htmp : (((tree.put (temporaryPath target).parts (.file content)).erase
      (temporaryPath target).parts).put target.parts (.file content)).at?
        (temporaryPath target).parts = none := by
    rw [hat, if_neg h.distinct, if_pos rfl]
  refine ⟨?_, Or.inr ⟨htemp, Or.inl htmp⟩, (fun hc => nomatch hc), ?_⟩
  · intro p hne hne'
    rw [hat, if_neg hne, if_neg hne']
  · intro content' hc
    obtain rfl := Option.some.inj hc
    refine ⟨htarget, by rw [hat, if_pos rfl], htmp, hd.mono ?_, hremoves⟩
    intro p hp
    rw [FileTree.at?_put _ h.below_temporary] at hp
    rw [hat]
    by_cases hpt : p = (temporaryPath target).parts
    · rw [if_pos hpt] at hp
      cases hp
    · rw [if_neg hpt] at hp
      rw [if_neg (fun e : p = target.parts => htarget (e ▸ hp)), if_neg hpt, hp]

/-- Giving up before anything was written leaves at most the temporary file away. -/
theorem Replaceable.discarded (h : Replaceable target) (hl : w.tree.Linkless) :
    Replaced w.host target none w.tree
      (World.run (discard (temporaryPath target)) w).2.tree := by
  rcases discard_tree hl h.plain_temporary with he | ⟨hdir, he⟩
  · rw [he]
    exact .refl w.host target w.tree
  · rw [he]
    refine h.gone hdir fun p => ?_
    rw [FileTree.at?_erase]
    by_cases hp : p = (temporaryPath target).parts
    · rw [if_pos ⟨hp ▸ h.below_temporary, hp⟩, if_pos hp]
    · rw [if_neg (fun hc => hp hc.2), if_neg hp]

/-- Giving up after the temporary file was written leaves nothing of it, unless it must not be
removed. -/
theorem Replaceable.givenUp (h : Replaceable target) (hl : w.tree.Linkless) {content : ByteArray}
    {tree : FileTree} (hwrite : w.tree.write w.directory (temporaryPath target) content = .ok tree) :
    Replaced w.host target none w.tree
      (World.run (discard (temporaryPath target)) { w with tree }).2.tree := by
  obtain ⟨hdirect, hdir, rfl⟩ := FileTree.write_ok hl h.plain_temporary hwrite
  -- the file stands there now, so that the tree allows to remove it
  have hremove : (w.tree.put (temporaryPath target).parts (.file content)).remove w.directory
      (temporaryPath target) = .ok _ :=
    FileTree.remove_of_direct (hl.put_file h.below_temporary content) h.plain_temporary
      (hdirect.mono fun p hp => FileTree.put_file_keeps h.below_temporary hdir content hp)
      (by rw [FileTree.at?_put _ h.below_temporary, if_pos rfl])
  rcases discard_of_remove
      (w := { w with tree := w.tree.put (temporaryPath target).parts (.file content) }) hremove with
    htree | ⟨⟨refusal, hrefused⟩, htree⟩
  · rw [htree]
    exact h.swept w.host hdir
  · rw [htree]
    refine h.left hdir fun hremoves => ?_
    cases (hremoves _).symm.trans hrefused

/-- A fault that is not about a name. -/
def NoNameFault (fault : Fault) : Prop := ∀ f, fault ≠ .user (.name f)

theorem noNameFault_output (path : Path) (e : FileError) : NoNameFault (outputFault path e) := by
  intro f
  unfold outputFault
  split <;> exact fun h => nomatch h

/-- If a temporary file cannot be removed, the fault is not about a name. -/
theorem discard_fault {fault : Fault} (h : (World.run (discard path) w).1 = .error fault) :
    NoNameFault fault := by
  revert h
  unfold discard
  rw [World.run_bind, World.run_liftM]
  rcases World.remove_cases path w with ⟨e, -, hw⟩ | ⟨tree, -, hw⟩
  · rw [hw]
    cases e <;> intro h <;> cases h <;> exact fun f hf => nomatch hf
  · rw [hw]
    exact fun h => nomatch h

/-- Tidying up before a fault is passed on ends in a fault whatever happens. -/
theorem run_discard_throw (path : Path) {fault : Fault} (hf : NoNameFault fault) (w : World) :
    ∃ fault', NoNameFault fault' ∧
      World.run (discard path >>= fun _ => (throw fault : Task (StateM World) Unit)) w =
        (.error fault', (World.run (discard path) w).2) := by
  rw [World.run_bind]
  cases hrun : World.run (discard path) w with
  | mk outcome w' =>
    cases outcome with
    | ok _ => exact ⟨fault, hf, rfl⟩
    | error fault' => exact ⟨fault', discard_fault (congrArg Prod.fst hrun), rfl⟩

/-- Replacing a file fails before its temporary sibling is opened, or after that was written in part or
as a whole; in both cases it is tidied up and nothing is done after that.  Otherwise the sibling has been
written and moved. -/
theorem replaceFile_cases (target : Path) (text : Text) (w : World) :
    (∃ fault, NoNameFault fault ∧ World.run (replaceFile target text) w =
        (.error fault, (World.run (discard (temporaryPath target)) w).2)) ∨
      (∃ fault part tree, NoNameFault fault ∧
        w.tree.write w.directory (temporaryPath target) part = .ok tree ∧
        World.run (replaceFile target text) w =
          (.error fault, (World.run (discard (temporaryPath target)) { w with tree }).2)) ∨
      ∃ content tree tree', text.encode? = some content ∧
        w.tree.write w.directory (temporaryPath target) content = .ok tree ∧
        w.host.Removes (temporaryPath target) ∧
        tree.rename w.directory (temporaryPath target) target = .ok tree' ∧
        World.run (replaceFile target text) w = (.ok (), { w with tree := tree' }) := by
  unfold replaceFile
  rw [World.run_bind, World.run_liftM]
  rcases World.write_cases (temporaryPath target) (text.encode?.getD .empty) w with
    ⟨e, hw⟩ | ⟨e, part, tree, hwrite, hw⟩ | ⟨tree, hwrite, hw⟩
  · rw [hw]
    exact Or.inl (run_discard_throw (temporaryPath target) (noNameFault_output target e) w)
  · rw [hw]
    obtain ⟨fault, hfault, hrun⟩ := run_discard_throw (temporaryPath target)
      (noNameFault_output target e) { w with tree }
    exact Or.inr (Or.inl ⟨fault, part, tree, hfault, hwrite, hrun⟩)
  rw [hw]
  cases henc : text.encode? with
  | none =>
    simp only [Option.isNone_none, if_true, World.throw_bind]
    have hcrash : NoNameFault (.crash .unencodable) := fun f h => nomatch h
    obtain ⟨fault, hfault, hrun⟩ :=
      run_discard_throw (temporaryPath target) hcrash { w with tree }
    exact Or.inr (Or.inl ⟨fault, _, tree, hfault, hwrite, hrun⟩)
  | some content =>
    rw [henc] at hwrite
    simp only [Option.isNone_some, Bool.false_eq_true, if_false]
    rw [World.run_bind, World.run_liftM]
    rcases World.rename_cases (temporaryPath target) target { w with tree } with
      ⟨e, hw₁⟩ | ⟨tree', hallowed, hrename, hw₁⟩
    · rw [hw₁]
      obtain ⟨fault, hfault, hrun⟩ := run_discard_throw (temporaryPath target)
        (noNameFault_output target e) { w with tree }
      exact Or.inr (Or.inl ⟨fault, content, tree, hfault, hwrite, hrun⟩)
    · rw [hw₁]
      exact Or.inr (Or.inr ⟨content, tree, tree', rfl, hwrite, Host.removes_of_rename hallowed,
        hrename, rfl⟩)

/-- Replacing a file either puts the whole content there or leaves the file as it was. -/
theorem replaceFile_replaced (hl : w.tree.Linkless) (h : Replaceable target) (text : Text) :
    match World.run (replaceFile target text) w with
    | (.ok _, w') => ∃ content, text.encode? = some content ∧
        Replaced w.host target (some content) w.tree w'.tree
    | (.error fault, w') => NoNameFault fault ∧ Replaced w.host target none w.tree w'.tree := by
  rcases replaceFile_cases target text w with ⟨fault, hfault, hrun⟩ |
    ⟨fault, part, tree, hfault, hwrite, hrun⟩ |
    ⟨content, tree, tree', henc, hwrite, hremoves, hrename, hrun⟩
  · rw [hrun]
    exact ⟨hfault, h.discarded hl⟩
  · rw [hrun]
    exact ⟨hfault, h.givenUp hl hwrite⟩
  · rw [hrun]
    obtain ⟨-, hdir, rfl⟩ := FileTree.write_ok hl h.plain_temporary hwrite
    obtain ⟨entry, hentry, hd, htarget, rfl⟩ := FileTree.rename_ok
      (hl.put_file h.below_temporary content) h.plain_temporary h.plain h.distinct hrename
    rw [FileTree.at?_put _ h.below_temporary, if_pos rfl] at hentry
    obtain rfl := Option.some.inj hentry
    rw [FileTree.at?_put _ h.below_temporary, if_neg (Ne.symm h.distinct)] at htarget
    exact ⟨content, henc, h.moved hremoves hdir htarget hd⟩

end

end Phrasebook.Workspace
