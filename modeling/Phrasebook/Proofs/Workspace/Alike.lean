/-
# Phrasebook.Proofs.Workspace.Alike -- what has been told makes no difference

Two worlds are alike if they differ in nothing but their messages.  No operation reads these, so in
alike worlds it gives the same and leaves alike worlds.  `Unheeding` is this property; sequences have
it if their parts do, and so it holds of writing a batch.

What a run writes can therefore be described in the world in which it starts, although reading a
file tells something before its batches are written.
-/
import Phrasebook.Proofs.Workspace.Batches

namespace Phrasebook

namespace World

/-- Two worlds with the same tree and the same working directory, on the same host. -/
structure Alike (w w' : World) : Prop where
  tree : w'.tree = w.tree
  directory : w'.directory = w.directory
  host : w'.host = w.host

namespace Alike

variable {w w' w'' : World}

theorem refl (w : World) : Alike w w := ⟨rfl, rfl, rfl⟩

theorem symm (h : Alike w w') : Alike w' w := ⟨h.tree.symm, h.directory.symm, h.host.symm⟩

theorem trans (h : Alike w w') (h' : Alike w' w'') : Alike w w'' :=
  ⟨h'.tree.trans h.tree, h'.directory.trans h.directory, h'.host.trans h.host⟩

/-- Telling something leaves an alike world. -/
theorem told (w : World) (messages : List Message) : Alike w { w with messages } :=
  ⟨rfl, rfl, rfl⟩

end Alike

end World

namespace Workspace

open World (Alike)

variable {α β : Type}

/-! ## Operations that do not heed messages -/

/-- In alike worlds the operation gives the same, and leaves alike worlds. -/
def Unheeding (op : World → α × World) : Prop :=
  ∀ w w', Alike w w' → (op w').1 = (op w).1 ∧ Alike (op w).2 (op w').2

namespace Unheeding

theorem pure (a : α) : Unheeding (Pure.pure a : StateM World α) := fun _ _ h => ⟨rfl, h⟩

theorem bind {op : StateM World α} {next : α → StateM World β} (h : Unheeding op)
    (hnext : ∀ a, Unheeding (next a)) : Unheeding (op >>= next) := by
  intro w w' halike
  obtain ⟨hresult, hworld⟩ := h w w' halike
  rw [World.bind_apply, World.bind_apply, hresult]
  exact hnext (op w).1 _ _ hworld

/-- A change of the tree depends on the tree, the directory and the host alone. -/
theorem change (c : Change) : Unheeding (World.change c) := by
  intro w w' h
  unfold World.change
  rw [h.tree, h.directory, h.host]
  cases w.host.refuses w.tree c with
  | some refusal => exact ⟨rfl, rfl, rfl, rfl⟩
  | none =>
    cases c.apply w.tree w.directory with
    | error e => exact ⟨rfl, h⟩
    | ok tree => exact ⟨rfl, rfl, rfl, rfl⟩

/-- So does the answer to a question about them. -/
theorem ask (question : Host → FileTree → Place → α) : Unheeding (World.ask question) := by
  intro w w' h
  refine ⟨?_, h⟩
  show question w'.host w'.tree w'.directory = question w.host w.tree w.directory
  rw [h.tree, h.directory, h.host]

/-! ### Tasks -/

theorem liftM {op : StateM World α} (h : Unheeding op) :
    Unheeding (World.run (MonadLiftT.monadLift op : Task (StateM World) α)) := by
  intro w w' halike
  obtain ⟨hresult, hworld⟩ := h w w' halike
  exact ⟨congrArg Except.ok hresult, hworld⟩

theorem throw (fault : Fault) :
    Unheeding (World.run (MonadExcept.throw fault : Task (StateM World) α)) :=
  fun _ _ h => ⟨rfl, h⟩

theorem give (a : α) : Unheeding (World.run (Pure.pure a : Task (StateM World) α)) :=
  fun _ _ h => ⟨rfl, h⟩

theorem tell (level : Level) (text : Text) :
    Unheeding (World.run (Workspace.tell level text)) :=
  fun _ _ h => ⟨rfl, h.tree, h.directory, h.host⟩

/-- A sequence of tasks goes on after the first, or stops at its fault. -/
theorem sequence {task : Task (StateM World) α} {next : α → Task (StateM World) β}
    (h : Unheeding (World.run task)) (hnext : ∀ a, Unheeding (World.run (next a))) :
    Unheeding (World.run (task >>= next)) := by
  intro w w' halike
  obtain ⟨hresult, hworld⟩ := h w w' halike
  rw [World.run_bind, World.run_bind]
  generalize World.run task w = ran at hresult hworld ⊢
  generalize World.run task w' = ran' at hresult hworld ⊢
  obtain ⟨outcome, w₁⟩ := ran
  obtain ⟨outcome', w₁'⟩ := ran'
  obtain rfl : outcome' = outcome := hresult
  cases outcome' with
  | error fault => exact ⟨rfl, hworld⟩
  | ok a => exact hnext a w₁ w₁' hworld

/-- A task that is done for the items of a list does so for each of them. -/
theorem foldlM {step : β → α → Task (StateM World) β}
    (h : ∀ b a, Unheeding (World.run (step b a))) (as : List α) (b : β) :
    Unheeding (World.run (as.foldlM step b)) := by
  induction as generalizing b with
  | nil => exact .give b
  | cons a as ih =>
    rw [List.foldlM_cons]
    exact (h b a).sequence ih

end Unheeding

/-- A task that only asks does not heed messages. -/
theorem Asks.unheeding {σ : Type} {question : Host → FileTree → Place → σ}
    {task : Task (StateM World) α} (h : Asks question task) : Unheeding (World.run task) := by
  intro w w' halike
  have heq : question w'.host w'.tree w'.directory = question w.host w.tree w.directory := by
    rw [halike.tree, halike.directory, halike.host]
  obtain ⟨messages, hrun⟩ := h.quiet w
  obtain ⟨messages', hrun'⟩ := h.agree heq
  rw [hrun', hrun]
  exact ⟨rfl, halike.tree, halike.directory, halike.host⟩

/-! ## Writing a batch -/

theorem unheeding_ensureDirectory (path : Path) :
    Unheeding (ensureDirectory (m := StateM World) path) := by
  refine Unheeding.bind (.change _) fun made => ?_
  cases made with
  | ok _ => exact .pure _
  | error e =>
    simp only
    split
    · exact .pure _
    · refine Unheeding.bind (.ask _) fun answer => ?_
      rcases answer with e' | ⟨_ | _⟩
      · exact .pure _
      · exact .pure _
      · exact .pure _

theorem unheeding_ensureDirectories (path : Path) :
    Unheeding (ensureDirectories (m := StateM World) path) := by
  induction h : path.parts.length using Nat.strongRecOn generalizing path with
  | ind n ih =>
    rw [ensureDirectories]
    refine (unheeding_ensureDirectory path).bind fun made => ?_
    split
    · by_cases hroot : path.parts = []
      · rw [if_pos hroot]
        exact .pure _
      · rw [if_neg hroot]
        have hshort : path.parent.parts.length < n := by
          have := List.length_pos_iff.mpr hroot
          simp only [Path.parent, List.length_dropLast]
          omega
        refine (ih _ hshort path.parent rfl).bind fun above => ?_
        cases above with
        | error e => exact .pure _
        | ok _ => exact unheeding_ensureDirectory path
    · exact .pure _

theorem unheeding_discard (path : Path) : Unheeding (World.run (discard path)) := by
  refine Unheeding.sequence (Unheeding.liftM (.change _)) fun removed => ?_
  split
  · exact .give _
  · exact .give _
  · split
    · exact .tell _ _
    · exact .throw _

theorem unheeding_replaceFile (path : Path) (text : Text) :
    Unheeding (World.run (replaceFile path text)) := by
  have hgivesUp : ∀ fault : Fault, Unheeding (World.run
      (discard (temporaryPath path) >>= fun _ => (throw fault : Task (StateM World) Unit))) :=
    fun fault => (unheeding_discard _).sequence fun _ => .throw fault
  refine Unheeding.sequence (Unheeding.liftM (.change _)) fun written => ?_
  cases written with
  | error e => exact hgivesUp _
  | ok _ =>
    simp only
    split
    · exact hgivesUp _
    · refine Unheeding.sequence (Unheeding.liftM (.change _)) fun moved => ?_
      cases moved with
      | error e => exact hgivesUp _
      | ok _ => exact .give _

theorem unheeding_generate (batch : Batch) (settings : Settings) :
    Unheeding (World.run (generate batch settings)) := by
  intro w w' h
  have hrun := run_generate batch settings w
  have hrun' := run_generate batch settings w'
  cases htext : sourceText batch settings with
  | error fault =>
    rw [htext] at hrun hrun'
    rw [hrun, hrun']
    exact ⟨rfl, h⟩
  | ok text =>
    rw [htext] at hrun hrun'
    obtain ⟨messages, hrun⟩ := hrun
    obtain ⟨messages', hrun'⟩ := hrun'
    rw [hrun, hrun']
    exact ⟨rfl, h.tree, h.directory, h.host⟩

/-- Whether a batch is written, and what that leaves, does not depend on messages. -/
theorem unheeding_emit (root : Path) (settings : Settings) (batch : Batch) :
    Unheeding (World.run (emit root settings batch)) := by
  refine (unheeding_generate batch settings).sequence fun text => ?_
  refine Unheeding.sequence (Unheeding.liftM (unheeding_ensureDirectories _)) fun made => ?_
  cases made with
  | error e => exact .throw _
  | ok _ =>
    refine (unheeding_replaceFile _ text).sequence fun _ => ?_
    exact (Unheeding.tell _ _).sequence fun _ => .give _

/-- Nor does it depend on them what generating a file comes to. -/
theorem unheeding_generateFile (root : Path) (settings : Settings) (report : Report) (file : Path) :
    Unheeding (World.run (generateFile root settings report file)) := by
  refine (asks_loadPhrases file).unheeding.sequence fun batches => ?_
  refine Unheeding.foldlM (fun report batch => ?_) batches report
  exact (unheeding_emit root settings batch).sequence fun _ => .give _

/-! ## Writing one batch after another -/

variable {root : Path} {settings : Settings} {w w' : World} {batches others : List Batch}

/-- Each of the batches is written, in the world that those before it leave. -/
def AllWritten (root : Path) (settings : Settings) : List Batch → World → Prop
  | [], _ => True
  | batch :: batches, w =>
    (World.run (emit root settings batch) w).1 = .ok (targetPath root batch.package) ∧
      AllWritten root settings batches (World.run (emit root settings batch) w).2

namespace AllWritten

theorem append (h : AllWritten root settings batches w)
    (h' : AllWritten root settings others (worldAfter root settings batches w)) :
    AllWritten root settings (batches ++ others) w := by
  induction batches generalizing w with
  | nil => exact h'
  | cons batch batches ih => exact ⟨h.1, ih h.2 h'⟩

end AllWritten

/-! ## Reading one file after another -/

end Workspace

end Phrasebook
