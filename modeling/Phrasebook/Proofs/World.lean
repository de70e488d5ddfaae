/-
# Phrasebook.Proofs.World -- commands as functions on worlds

Run in a world, a task gives an outcome and the world after it.  A sequence of tasks runs the second
in the world that the first has left, and stops at a fault; every operation of a workspace is an
edit of the file tree or a question about it.  These equations are all that the theory of commands
uses of the monads they are written in.
-/
import Phrasebook.World

namespace Phrasebook.World

variable {α β : Type}

/-- Runs a task in a world. -/
def run (task : Task (StateM World) α) (w : World) : Except Fault α × World := task.run w

/-- The world after it has been told something. -/
def told (w : World) (level : Level) (text : Text) : World :=
  { w with messages := w.messages ++ [⟨level, text⟩] }

@[simp] theorem told_tree (w : World) (level : Level) (text : Text) :
    (w.told level text).tree = w.tree := rfl

/-! ## Sequences -/

@[simp] theorem run_pure (a : α) (w : World) : run (pure a) w = (.ok a, w) := rfl

@[simp] theorem run_throw (fault : Fault) (w : World) :
    run (throw fault : Task (StateM World) α) w = (.error fault, w) := rfl

@[simp] theorem throw_bind (fault : Fault) (next : α → Task (StateM World) β) :
    ((throw fault : Task (StateM World) α) >>= next) = throw fault := rfl

/-- A sequence of tasks stops at the first fault. -/
theorem run_bind (task : Task (StateM World) α) (next : α → Task (StateM World) β) (w : World) :
    run (task >>= next) w =
      match run task w with
      | (.ok a, w') => run (next a) w'
      | (.error fault, w') => (.error fault, w') := by
  show ExceptT.bindCont next (task.run w).1 (task.run w).2 = _
  unfold run
  rcases task.run w with ⟨outcome, w'⟩
  cases outcome <;> rfl

/-- A task that gives something leaves a world. -/
theorem exists_run {task : Task (StateM World) α} {w : World} {a : α}
    (h : (run task w).1 = .ok a) : ∃ w', run task w = (.ok a, w') :=
  ⟨(run task w).2, Prod.ext h rfl⟩

theorem run_bind_of_ok {task : Task (StateM World) α} {next : α → Task (StateM World) β}
    {w w' : World} {a : α} (h : run task w = (.ok a, w')) :
    run (task >>= next) w = run (next a) w' := by
  rw [run_bind, h]

/-- A sequence of tasks fails in the first, or in the second in the world that the first leaves. -/
theorem run_bind_eq_error_iff {task : Task (StateM World) α} {next : α → Task (StateM World) β}
    {w : World} {fault : Fault} :
    (run (task >>= next) w).1 = .error fault ↔
      (run task w).1 = .error fault ∨
        ∃ a w', run task w = (.ok a, w') ∧ (run (next a) w').1 = .error fault := by
  rw [run_bind]
  rcases run task w with ⟨outcome, w'⟩
  cases outcome with
  | error fault' => simp
  | ok a =>
    constructor
    · exact fun h => Or.inr ⟨a, w', rfl, h⟩
    · rintro (h | ⟨b, w₁, h, hnext⟩)
      · cases h
      · obtain ⟨hb, rfl⟩ := Prod.mk.inj h
        obtain rfl := Except.ok.inj hb
        exact hnext

/-- Of a sequence that fails the first task has failed, or the second has, in the world that the
first has left; and the world stays as it is then. -/
theorem run_bind_eq_error {task : Task (StateM World) α} {next : α → Task (StateM World) β}
    {w w' : World} {fault : Fault} (h : run (task >>= next) w = (.error fault, w')) :
    run task w = (.error fault, w') ∨
      ∃ a w₁, run task w = (.ok a, w₁) ∧ run (next a) w₁ = (.error fault, w') := by
  rw [run_bind] at h
  rcases hfirst : run task w with ⟨outcome, w₁⟩
  rw [hfirst] at h
  cases outcome with
  | error fault' =>
    obtain ⟨hfault, rfl⟩ := Prod.mk.inj h
    obtain rfl := Except.error.inj hfault
    exact Or.inl rfl
  | ok a => exact Or.inr ⟨a, w₁, rfl, h⟩

/-- Where a task fails that is done for the items of a list, it has been done for those before. -/
theorem run_foldlM_eq_error {step : β → α → Task (StateM World) β} {as : List α} {b : β}
    {w w' : World} {fault : Fault} (h : run (as.foldlM step b) w = (.error fault, w')) :
    ∃ before a after b' w₁, as = before ++ a :: after ∧
      run (before.foldlM step b) w = (.ok b', w₁) ∧ run (step b' a) w₁ = (.error fault, w') := by
  induction as generalizing b w with
  | nil => cases h
  | cons a as ih =>
    rw [List.foldlM_cons] at h
    rcases run_bind_eq_error h with hstep | ⟨b₁, w₁, hstep, hrest⟩
    · exact ⟨[], a, as, b, w, rfl, rfl, hstep⟩
    · obtain ⟨before, a', after, b', w₂, rfl, hbefore, hfails⟩ := ih hrest
      refine ⟨a :: before, a', after, b', w₂, rfl, ?_, hfails⟩
      rw [List.foldlM_cons, run_bind_of_ok hstep]
      exact hbefore

/-- A task that is done for the items of a list fails for one of them, after it has been done for
those before. -/
theorem run_foldlM_eq_error_iff {step : β → α → Task (StateM World) β} {as : List α} {b : β}
    {w : World} {fault : Fault} :
    (run (as.foldlM step b) w).1 = .error fault ↔
      ∃ before a after b' w', as = before ++ a :: after ∧
        run (before.foldlM step b) w = (.ok b', w') ∧ (run (step b' a) w').1 = .error fault := by
  constructor
  · intro h
    obtain ⟨before, a, after, b', w₁, has, hbefore, hstep⟩ := run_foldlM_eq_error (Prod.ext h rfl)
    exact ⟨before, a, after, b', w₁, has, hbefore, congrArg Prod.fst hstep⟩
  · rintro ⟨before, a, after, b', w₁, rfl, hbefore, hstep⟩
    rw [List.foldlM_append, run_bind_of_ok hbefore, List.foldlM_cons, run_bind_eq_error_iff]
    exact Or.inl hstep

/-- An operation without faults of its own never stops a sequence. -/
@[simp] theorem run_liftM (op : StateM World α) (w : World) :
    run (liftM op : Task (StateM World) α) w = (.ok (op w).1, (op w).2) := rfl

@[simp] theorem run_tell (level : Level) (text : Text) (w : World) :
    run (Workspace.tell level text) w = (.ok (), w.told level text) := rfl

/-! ## Operations -/

@[simp] theorem pure_apply (a : α) (w : World) : (pure a : StateM World α) w = (a, w) := rfl

/-- Operations follow one another in the worlds that they leave. -/
@[simp] theorem bind_apply (op : StateM World α) (next : α → StateM World β) (w : World) :
    (op >>= next) w = next (op w).1 (op w).2 := rfl

/-- A change is refused by the host, or by the tree, or changes the tree. -/
theorem change_cases (c : Change) (w : World) :
    (∃ refusal, w.host.refuses w.tree c = some refusal ∧
        change c w = (.error refusal.error, { w with tree := refusal.leaves c w.tree w.directory })) ∨
      (∃ e, c.apply w.tree w.directory = .error e ∧ change c w = (.error e, w)) ∨
        ∃ tree, w.host.refuses w.tree c = none ∧ c.apply w.tree w.directory = .ok tree ∧
          change c w = (.ok (), { w with tree }) := by
  unfold change
  cases hrefused : w.host.refuses w.tree c with
  | some refusal => exact Or.inl ⟨refusal, rfl, rfl⟩
  | none =>
    cases happly : c.apply w.tree w.directory with
    | error e => exact Or.inr (Or.inl ⟨e, rfl, rfl⟩)
    | ok tree => exact Or.inr (Or.inr ⟨tree, rfl, rfl, rfl⟩)

/-- A change other than writing has been made, or the world is what it was. -/
theorem change_cases_of_whole {c : Change} (w : World)
    (hwhole : ∀ refusal : Refusal, refusal.leaves c w.tree w.directory = w.tree) :
    (∃ e, change c w = (.error e, w)) ∨
      ∃ tree, w.host.refuses w.tree c = none ∧ c.apply w.tree w.directory = .ok tree ∧
        change c w = (.ok (), { w with tree }) := by
  rcases change_cases c w with ⟨refusal, -, hw⟩ | ⟨e, -, hw⟩ | hdone
  · rw [hwhole] at hw
    exact Or.inl ⟨_, hw⟩
  · exact Or.inl ⟨e, hw⟩
  · exact Or.inr hdone

theorem makeDirectory_cases (path : Path) (w : World) :
    (∃ e, Workspace.makeDirectory (m := StateM World) path w = (.error e, w)) ∨
      ∃ tree, w.tree.makeDirectory w.directory path = .ok tree ∧
        Workspace.makeDirectory (m := StateM World) path w = (.ok (), { w with tree }) := by
  rcases change_cases_of_whole (c := .makeDirectory path) w fun _ => rfl with
    hfailed | ⟨tree, -, hmade, hw⟩
  · exact Or.inl hfailed
  · exact Or.inr ⟨tree, hmade, hw⟩

/-- A file is not opened, or it has been opened and holds some content, all of it if writing has not
failed. -/
theorem write_cases (path : Path) (content : ByteArray) (w : World) :
    (∃ e, Workspace.write (m := StateM World) path content w = (.error e, w)) ∨
      (∃ e part tree, w.tree.write w.directory path part = .ok tree ∧
        Workspace.write (m := StateM World) path content w = (.error e, { w with tree })) ∨
      ∃ tree, w.tree.write w.directory path content = .ok tree ∧
        Workspace.write (m := StateM World) path content w = (.ok (), { w with tree }) := by
  rcases change_cases (.write path content) w with ⟨refusal, -, hw⟩ | ⟨e, -, hw⟩ |
    ⟨tree, -, hwritten, hw⟩
  · cases hpart : refusal.written with
    | none =>
      have hleaves : refusal.leaves (.write path content) w.tree w.directory = w.tree := by
        simp only [Refusal.leaves, hpart]
      rw [hleaves] at hw
      exact Or.inl ⟨_, hw⟩
    | some part =>
      cases hbroken : w.tree.write w.directory path part with
      | error e =>
        have hleaves : refusal.leaves (.write path content) w.tree w.directory = w.tree := by
          simp only [Refusal.leaves, hpart, hbroken]
        rw [hleaves] at hw
        exact Or.inl ⟨_, hw⟩
      | ok tree =>
        have hleaves : refusal.leaves (.write path content) w.tree w.directory = tree := by
          simp only [Refusal.leaves, hpart, hbroken]
        rw [hleaves] at hw
        exact Or.inr (Or.inl ⟨_, part, tree, hbroken, hw⟩)
  · exact Or.inl ⟨e, hw⟩
  · exact Or.inr (Or.inr ⟨tree, hwritten, hw⟩)

theorem rename_cases (source target : Path) (w : World) :
    (∃ e, Workspace.rename (m := StateM World) source target w = (.error e, w)) ∨
      ∃ tree, w.host.refuses w.tree (.rename source target) = none ∧
        w.tree.rename w.directory source target = .ok tree ∧
        Workspace.rename (m := StateM World) source target w = (.ok (), { w with tree }) :=
  change_cases_of_whole w fun _ => rfl

/-- A file is not removed because the host refuses it, or the tree does. -/
theorem remove_cases (path : Path) (w : World) :
    (∃ e, ((∃ refusal, w.host.refuses w.tree (.remove path) = some refusal) ∨
          w.tree.remove w.directory path = .error e) ∧
        Workspace.remove (m := StateM World) path w = (.error e, w)) ∨
      ∃ tree, w.tree.remove w.directory path = .ok tree ∧
        Workspace.remove (m := StateM World) path w = (.ok (), { w with tree }) := by
  rcases change_cases (.remove path) w with ⟨refusal, hrefused, hw⟩ | ⟨e, hremove, hw⟩ |
    ⟨tree, -, hremoved, hw⟩
  · exact Or.inl ⟨_, Or.inl ⟨refusal, hrefused⟩, hw⟩
  · exact Or.inl ⟨e, Or.inr hremove, hw⟩
  · exact Or.inr ⟨tree, hremoved, hw⟩

/-! ## What stays -/

/-- A task changes neither the host nor the working directory. -/
def Staying (task : Task (StateM World) α) : Prop :=
  ∀ w, (run task w).2.host = w.host ∧ (run task w).2.directory = w.directory

namespace Staying

variable {task : Task (StateM World) α}

theorem pure (a : α) : Staying (Pure.pure a : Task (StateM World) α) := fun _ => ⟨rfl, rfl⟩

theorem throw (fault : Fault) : Staying (MonadExcept.throw fault : Task (StateM World) α) :=
  fun _ => ⟨rfl, rfl⟩

theorem tell (level : Level) (text : Text) : Staying (Workspace.tell level text) :=
  fun _ => ⟨rfl, rfl⟩

theorem change (c : Change) :
    Staying (liftM (World.change c) : Task (StateM World) (Except FileError Unit)) := by
  intro w
  rw [run_liftM]
  rcases change_cases c w with ⟨refusal, -, hw⟩ | ⟨e, -, hw⟩ | ⟨tree, -, -, hw⟩
  · rw [hw]
    exact ⟨rfl, rfl⟩
  · rw [hw]
    exact ⟨rfl, rfl⟩
  · rw [hw]
    exact ⟨rfl, rfl⟩

theorem bind {next : α → Task (StateM World) β} (h : Staying task)
    (hnext : ∀ a, Staying (next a)) : Staying (task >>= next) := by
  intro w
  have hw := h w
  rw [run_bind]
  rcases hrun : run task w with ⟨outcome, w'⟩
  rw [hrun] at hw
  cases outcome with
  | error fault => exact hw
  | ok a => exact ⟨(hnext a w').1.trans hw.1, (hnext a w').2.trans hw.2⟩

theorem foldlM {step : β → α → Task (StateM World) β} (h : ∀ b a, Staying (step b a)) (b : β)
    (as : List α) : Staying (as.foldlM step b) := by
  induction as generalizing b with
  | nil => exact .pure b
  | cons a as ih =>
    rw [List.foldlM_cons]
    exact (h b a).bind ih

end Staying

end Phrasebook.World
