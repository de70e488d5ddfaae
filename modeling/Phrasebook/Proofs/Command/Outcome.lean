/-
# Phrasebook.Proofs.Command.Outcome -- how a run ends

A run ends with zero and what it prints, with two and one message, or with a fault that nothing
accounts for.  Which of the three it is depends on its input files first.  `Reads` says which phrase
files a command comes to read, and in which world: a generating run has written files by then.  A
run ends with the fault of the input file that is refused (`InputRefused`), and if that fault is the
user's, with its message.

If no input file is refused, a run can fail with faults of its own (`OwnFault`), of which generating
runs have the most, for their output root is resolved, and paths and texts that come from the input
files are handed to the system.  And what a run has come to may not be taken by standard output.

All of this holds of any host: whatever it refuses, however it reads documents, and whatever can be
printed.
-/
import Phrasebook.Proofs.Command.Generate
import Phrasebook.Proofs.Fault
import Phrasebook.Proofs.Workspace.Failing
import Phrasebook.Proofs.Workspace.Loading

namespace Phrasebook.Workspace

open CommandLine (Command)

variable {version : Text} {command : Command} {w : World} {fault : Fault}

/-! ## Which files are read -/

/-- A command, run in a world, comes to read a phrase file, and in another world. -/
inductive Reads (version : Text) : Command → World → Path → World → Prop
  | generate {before after : List Path} {file : Path} {output config : Option Path}
      {settings : Settings} {root : Path} {report : Report} {w w₀ w₁ : World} :
      World.run (plan config output) w = (.ok (settings, root), w₀) →
      World.run (before.foldlM (generateFile root settings)
        { toolVersion := version, outputRoot := root.text }) w₀ = (.ok report, w₁) →
      Reads version (.generate (before ++ file :: after) output config) w file w₁
  | render {file : Path} {package : Option Text} {config : Option Path}
      {found : Settings × Option Path} {w w₁ : World} :
      World.run (settingsFor config) w = (.ok found, w₁) →
      Reads version (.render file package config) w file w₁
  | list {file : Path} {w : World} : Reads version (.list file) w file w

/-- How a run ends is determined by what its command gives, and it leaves the tree that the command
leaves. -/
theorem execute_outcome (version : Text) (command : Command) (w : World) :
    (execute version command w).1 = (match (World.run (perform version command) w).1 with
      | .ok output => endPrinting w.host output
      | .error (.crash crash) => .crashed crash
      | .error (.user fault) => .exit 2 [] (fault.message.trimEnd ++ "\n")) ∧
    (execute version command w).2.tree = (World.run (perform version command) w).2.tree := by
  have hrun : ExceptT.run (perform (m := StateM World) version command) w =
      World.run (perform version command) w := rfl
  have hhost := (perform_staying version command w).1
  revert hhost
  unfold execute runCommand
  rw [World.bind_apply, hrun]
  rcases World.run (perform version command) w with ⟨outcome, w₁⟩
  intro hhost
  cases outcome with
  | ok output =>
    simp only at hhost ⊢
    rw [finish_apply, hhost]
    exact ⟨rfl, rfl⟩
  | error fault => cases fault <;> exact ⟨rfl, rfl⟩

/-- For a command line that is understood its command is run. -/
theorem runProgram_of_read {arguments : List Text} {request : CommandLine.Request}
    (h : CommandLine.read arguments = .ok request) :
    runProgram (m := StateM World) version arguments w = execute version request.command w := by
  unfold runProgram
  rw [h]
  rfl

/-- A world with a phrase file. -/
def holding (content : ByteArray) : World where
  tree := ⟨[(["w"], .directory), (["w", "p.yaml"], .file content)]⟩
  directory := ["w"]

/-- The bytes of a text. -/
def bytesOf (text : Text) : ByteArray := text.encode?.getD .empty

/-- The bytes of an opening bracket. -/
def bracket : ByteArray := bytesOf "["

end Phrasebook.Workspace
