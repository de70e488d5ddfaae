/-
# Phrasebook.CommandLine -- what a command line asks for

The arguments of the program are read in two parts, those up to the command by the grammar of the
program and those after it by the grammar of the command.  What neither part takes is refused in the
end.  A switch that asks for help or for the version ends the reading where it stands, before a fault
that comes later.

An empty value of a switch counts as no value, and so does the separator; a package, though, may be
empty, and the separator stands for one that is nowhere to be found.
-/
import Phrasebook.CommandLine.Scan
import Phrasebook.Path

namespace Phrasebook.CommandLine

/-- A command with its operands and switches. -/
inductive Command where
  | generate (files : List Path) (output config : Option Path)
  | render (file : Path) (package : Option Text) (config : Option Path)
  | list (file : Path)
deriving DecidableEq, Repr

/-- What a command line asks for. -/
structure Request where
  debug : Bool
  command : Command
deriving DecidableEq, Repr

/-- Why the program ends without running a command. -/
inductive Stop where
  | help (program : Text)
  | version
  | refused (program : Text) (problem : Problem)
deriving DecidableEq, Repr

/-- The last value of a switch. -/
def lastValue (found : List Found) (s : Switch) : Option Text :=
  (found.filterMap fun
    | .switch t value => if t = s then value else none
    | .operand _ => none).getLast?

/-- The last value of a switch as a path, if it counts. -/
def lastPath (found : List Found) (s : Switch) : Option Path :=
  ((lastValue found s).filter fun t => !t.isEmpty && t ≠ separatorText).map Path.ofText

/-- The package that the separator stands for. -/
def noPackage : Text := "[]"

/-- The last package. -/
def lastPackage (found : List Found) : Option Text :=
  (lastValue found .package).map fun t => if t = separatorText then noPackage else t

/-- The operands. -/
def operands (found : List Found) : List Text :=
  found.flatMap fun
    | .operand values => values
    | .switch _ _ => []

/-- A command from what has been read after it. -/
def Command.ofFound (c : CommandName) (found : List Found) : Command :=
  let files := (operands found).map Path.ofText
  match c with
  | .generate => .generate files (lastPath found .output) (lastPath found .config)
  | .render =>
    .render (files.head?.getD { }) (lastPackage found) (lastPath found .config)
  | .list => .list (files.head?.getD { })

/-- Whether a switch has been read. -/
def isSet (found : List Found) (s : Switch) : Bool := found.contains (.switch s none)

/-- Reads the arguments after a command. -/
def readCommand (c : CommandName) (arguments : List Text) : Except Stop (Command × List Text) :=
  let g := Grammar.ofCommand c
  let scanned := g.scanArguments arguments
  if isSet scanned.found .help then .error (.help g.program)
  else match scanned.left with
    | .error problem => .error (.refused g.program problem)
    | .ok left => .ok (Command.ofFound c scanned.found, left)

/-- The first request for help or for the version. -/
def firstStop? (found : List Found) : Option Stop :=
  found.findSome? fun
    | .switch .help _ => some (.help Grammar.main.program)
    | .switch .version _ => some .version
    | _ => none

/-- Reads the arguments of the program. -/
def read (arguments : List Text) : Except Stop Request :=
  let refuse (problem : Problem) : Except Stop Request :=
    .error (.refused Grammar.main.program problem)
  let scanned := Grammar.main.scanArguments arguments
  match firstStop? scanned.found with
  | some stop => .error stop
  | none =>
    match operands scanned.found with
    | [] =>
      match scanned.left with
      | .error problem => refuse problem
      | .ok _ => refuse (.operandMissing .command)
    | word :: rest =>
      match CommandName.ofWord? word with
      | none => refuse (.unknownCommand word)
      | some c => do
        let (command, left) ← readCommand c rest
        let left := (scanned.left.toOption.getD []) ++ left
        if left.isEmpty then return { debug := isSet scanned.found .debug, command }
        else refuse (.unrecognized left)

/-- The message of a refused command line. -/
def Stop.message : Stop → Text
  | .help program => "usage: " ++ program ++ " ..."
  | .version => []
  | .refused program problem => program ++ ": error: " ++ problem.message

end Phrasebook.CommandLine
