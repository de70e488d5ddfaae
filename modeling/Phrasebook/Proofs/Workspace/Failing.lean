/-
# Phrasebook.Proofs.Workspace.Failing -- what writing fails with

Once the input files are accepted a run can still fail: a name may be illegal, the file system may
refuse a directory or a file, the output root may be a link that leads back to itself, a path may
be one that cannot be handed to the system, and a text may have no form in bytes.  `FailsWith`
bounds the faults of a task, and `WritingFault` is the bound for writing batches below a root.  A
batch whose text is there fails with a `StoringFault` at most, which is about its file.
-/
import Phrasebook.Proofs.Emission.Listing
import Phrasebook.Proofs.Workspace.Asking

namespace Phrasebook.Workspace

variable {path : Path} {settings : Settings} {batch : Batch}

/-! ## Tasks and their faults -/

/-- A task fails only with faults of a kind. -/
def FailsWith {α : Type} (kind : Fault → Prop) (task : Task (StateM World) α) : Prop :=
  ∀ w fault, (World.run task w).1 = .error fault → kind fault

namespace FailsWith

variable {α β : Type} {kind : Fault → Prop} {task : Task (StateM World) α}

theorem pure (a : α) : FailsWith kind (Pure.pure a : Task (StateM World) α) :=
  fun _ _ h => nomatch h

theorem throw {fault : Fault} (h : kind fault) :
    FailsWith kind (MonadExcept.throw fault : Task (StateM World) α) := fun _ _ hrun =>
  Except.error.inj hrun ▸ h

theorem tell (level : Level) (text : Text) : FailsWith kind (Workspace.tell level text) :=
  fun _ _ h => nomatch h

theorem bind {next : α → Task (StateM World) β} (h : FailsWith kind task)
    (hnext : ∀ a, FailsWith kind (next a)) : FailsWith kind (task >>= next) := by
  intro w fault hrun
  rcases World.run_bind_eq_error_iff.mp hrun with hfirst | ⟨a, w', -, hrest⟩
  · exact h w fault hfirst
  · exact hnext a w' fault hrest

theorem foldlM {step : β → α → Task (StateM World) β} (h : ∀ b a, FailsWith kind (step b a))
    (b : β) (as : List α) : FailsWith kind (as.foldlM step b) := by
  intro w fault hrun
  obtain ⟨-, a, -, b', w', -, -, hstep⟩ := World.run_foldlM_eq_error_iff.mp hrun
  exact h b' a w' fault hstep

end FailsWith

/-! ## Source texts -/

/-- The faults with which batches are not written. -/
inductive WritingFault : Fault → Prop
  | name (fault : Java.NameFault) : WritingFault (.user (.name fault))
  | output (path : Path) (e : FileError) : WritingFault (.user (.output path e))
  | loop (path : Path) : WritingFault (.crash (.linkLoop path))
  | unaddressed {e : FileError} : e.isFromSystem = false → WritingFault (.crash (.system e))
  | unencodable : WritingFault (.crash .unencodable)

/-- The faults with which a source file is not put in its place, although there is a text for it. -/
inductive StoringFault : Fault → Prop
  | output (path : Path) (e : FileError) : StoringFault (.user (.output path e))
  | unaddressed {e : FileError} : e.isFromSystem = false → StoringFault (.crash (.system e))
  | unencodable : StoringFault (.crash .unencodable)

theorem StoringFault.writing {fault : Fault} (h : StoringFault fault) : WritingFault fault := by
  cases h with
  | output path e => exact .output path e
  | unaddressed hsystem => exact .unaddressed hsystem
  | unencodable => exact .unencodable

end Phrasebook.Workspace
