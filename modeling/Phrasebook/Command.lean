/-
# Phrasebook.Command -- running the commands

`generate` writes the source file of every batch of its files and reports them, `render` prints the
source text of one batch, and `list` prints the decoded phrases.  Settings are those of the file
given, which then has to exist, or of the working directory.

A command that succeeds prints everything at its end, so that a failed one prints nothing; the files
written before the failure stay.  Printing fails if standard output does not take the text, and nothing
accounts for that.
-/
import Phrasebook.CommandLine
import Phrasebook.Report
import Phrasebook.Workspace.Input
import Phrasebook.Workspace.Output

namespace Phrasebook

namespace Workspace

variable {m : Type → Type} [Monad m] [Workspace m]

/-- The settings for a run, and the file they are from. -/
def settingsFor (config : Option Path) : Task m (Settings × Option Path) := do
  let file ← match config with
    | some path =>
      if (← kind? path) = some .file then pure (some path)
      else throw (.user (.settings (some path) .settingsNotFound))
    | none => findSettings (← liftM (Workspace.directory (m := m)))
  return (← loadSettings file, file)

/-- The batch of a file that is asked for. -/
def choose (batches : List Batch) (package : Option Text) (source : Path) :
    Except UserFault Batch :=
  match package, batches with
  | some package, _ =>
    match batches.find? fun b => b.package = package with
    | some batch => .ok batch
    | none => .error (.choice source (.noSuchPackage package))
  | none, [batch] => .ok batch
  | none, _ => .error (.choice source (.severalPackages (batches.map Batch.package)))

/-- Writes the batches of a file and adds them to the report. -/
def generateFile (root : Path) (settings : Settings) (report : Report) (file : Path) :
    Task m Report := do
  let batches ← loadPhrases file
  batches.foldlM (fun report batch => do
    let path ← emit root settings batch
    return report.add batch path.text) report

/-- Runs a command and gives what it prints. -/
def perform (version : Text) : CommandLine.Command → Task m Text
  | .generate files output config => do
    let (settings, file) ← settingsFor config
    let root ← outputRoot settings file output
    let start : Report := { toolVersion := version, outputRoot := root.text }
    let report ← files.foldlM (generateFile root settings) start
    return report.toJson.document
  | .render file package config => do
    let (settings, _) ← settingsFor config
    let batches ← loadPhrases file
    match choose batches package file with
    | .ok batch => generate batch settings
    | .error fault => throw (.user fault)
  | .list file => do return (listing (← loadPhrases file)).document

/-- How a run ends: with an exit code, what it has printed and the text for standard error, or without
any because of a fault nothing accounts for. -/
inductive Outcome where
  | exit (code : Nat) (output errors : Text)
  | crashed (crash : Crash)
deriving DecidableEq, Repr

/-- Prints what a run gives that ends well.  A text is refused if it has no form in bytes. -/
def finish (output : Text) : m Outcome := do
  if ← Workspace.print output then return .exit 0 output []
  return .crashed .unencodable

/-- Runs a command to its end. -/
def runCommand (version : Text) (command : CommandLine.Command) : m Outcome := do
  match ← (perform version command).run with
  | .ok output => finish output
  | .error (.crash crash) => return .crashed crash
  | .error (.user fault) =>
    Workspace.log ⟨.debug, "User error"⟩
    return .exit 2 [] (fault.message.trimEnd ++ "\n")

/-- Ends a program that runs no command. -/
def runStop (version : Text) : CommandLine.Stop → m Outcome
  | .help program => finish ((CommandLine.Stop.help program).message ++ "\n")
  | .version => finish (CommandLine.Grammar.programName ++ " " ++ version ++ "\n")
  | stop => return .exit 2 [] (stop.message ++ "\n")

/-- Runs the program with its arguments. -/
def runProgram (version : Text) (arguments : List Text) : m Outcome :=
  match CommandLine.read arguments with
  | .error stop => runStop version stop
  | .ok request => runCommand version request.command

end Workspace

/-- The level of the log for a command line. -/
def logLevel (arguments : List Text) (environment : Option Text) : Level :=
  match CommandLine.read arguments with
  | .error _ => Level.requested false environment
  | .ok request => Level.requested request.debug environment

end Phrasebook
