/-
# Phrasebook.Main -- the program

The program runs its commands on the files of the machine.  Messages go to standard error as soon as
they are told; what a command prints is written at its end, and refused if it has no form in UTF-8.
Standard error takes every text and shows lone surrogates as escapes.
-/
import Phrasebook.Command
import Phrasebook.Version

namespace Phrasebook

/-- Actions of the program, which know the level of the log. -/
abbrev Session := ReaderT Level IO

namespace Session

/-! ## Errors of the machine -/

/-- The error with a number, which has words of its own if the number is known.  Some actions give
the number with its sign reversed. -/
def errorOf (number : UInt32) (words : String) : FileError :=
  let known : List FileError := [.notFound, .alreadyExists, .notDirectory, .isDirectory, .nameTooLong,
    .notEmpty, .tooManyLinks]
  let number := number.toInt32.toInt.natAbs
  (known.find? fun e => e.number = number).getD (.other number (Text.ofString words))

/-- Why an action failed. -/
def causeOf : IO.Error → FileError
  | .alreadyExists _ number words | .otherError number words | .resourceBusy number words
  | .resourceVanished number words | .unsupportedOperation number words
  | .hardwareFault number words | .unsatisfiedConstraints number words
  | .illegalOperation number words | .protocolError number words | .timeExpired number words
  | .interrupted _ number words | .noFileOrDirectory _ number words
  | .invalidArgument _ number words | .permissionDenied _ number words
  | .resourceExhausted _ number words | .inappropriateType _ number words
  | .noSuchThing _ number words => errorOf number words
  | .unexpectedEof => errorOf 5 "Input/output error"
  | .userError words => errorOf 5 words

/-- Does something at a path, giving its failure as a value. -/
def attempt {α : Type} (path : Path) (action : String → IO α) : Session (Except FileError α) := do
  match path.text.toString? with
  | none => return .error .surrogateInPath
  | some name =>
    if name.contains '\x00' then return .error .zeroInPath
    try return .ok (← action name)
    catch e => return .error (causeOf e)

/-! ## The workspace -/

/-- The working directory. -/
def workingDirectory : Session Path :=
  return Path.ofText (Text.ofString (← IO.currentDir).toString)

/-- What a path leads to, links followed. -/
def status (path : Path) : Session (Except FileError FileKind) :=
  attempt path fun name => do
    match (← ((← IO.currentDir) / name).metadata).type with
    | .dir => return .directory
    | _ => return .file

/-- The path without links that has the given parts, the last one first.  Parts and links that lead
nowhere are kept. -/
def resolvedBackwards (anchor : Anchor) : List Text → Session (Except ResolveFault Path)
  | [] => return .ok ⟨.root, []⟩
  | part :: above => do
    let path : Path := ⟨anchor, (part :: above).reverse⟩
    match ← attempt path fun name => return (← IO.FS.realPath name).toString with
    | .ok name => return .ok (Path.ofText (Text.ofString name))
    | .error e =>
      if !e.isFromSystem then return .error (.refused e)
      if (← status path) matches .error .tooManyLinks then return .error (.loop path)
      match ← resolvedBackwards anchor above with
      | .ok directory =>
        return .ok (if part = Path.up then directory.parent else directory.child part)
      | fault => return fault

/-- Writes a line to standard error. -/
def tellError (line : Text) : IO Unit := do
  IO.eprintln (line.escaped.toString?.getD "")

instance : Workspace Session where
  directory := workingDirectory
  status := status
  read path := attempt path fun name => IO.FS.readBinFile name
  makeDirectory path := attempt path fun name => IO.FS.createDir name
  write path content := attempt path fun name => IO.FS.writeBinFile name content
  rename source target := do
    match target.text.toString? with
    | none => return .error .surrogateInPath
    | some newName => attempt source fun name => IO.FS.rename name newName
  remove path := attempt path fun name => IO.FS.removeFile name
  resolve path := do
    let path := (← workingDirectory) ++ path
    resolvedBackwards path.anchor path.parts.reverse
  parse text := return Yaml.load text
  print text := do
    match text.encode? with
    | none => return false
    | some bytes => do
      (← IO.getStdout).write bytes
      return true
  log message := do
    if message.isShown (← read) then tellError message.line

end Session

/-! ## Running -/

/-- The version of the program. -/
def version : Text := toolVersion fun name => if name = "paraphrase" then some "0.1.0" else none

/-- Tells how a run has ended and gives the exit code; what it has to print is printed by then. -/
def Workspace.Outcome.conclude : Workspace.Outcome → IO UInt32
  | .exit code _ errors => do
    IO.eprint (errors.escaped.toString?.getD "")
    return code.toUInt32
  | .crashed crash => do
    Session.tellError (crash.message?.getD "unexpected fault")
    return 1

/-- Runs the program with its arguments and gives the exit code. -/
def run (arguments : List String) : IO UInt32 := do
  let arguments := arguments.map Text.ofString
  let environment := (← IO.getEnv "PARAPHRASE_DEBUG").map Text.ofString
  let outcome : Session Workspace.Outcome := Workspace.runProgram version arguments
  (← ReaderT.run outcome (logLevel arguments environment)).conclude

end Phrasebook

/-- The entry point. -/
def main (arguments : List String) : IO UInt32 := Phrasebook.run arguments
