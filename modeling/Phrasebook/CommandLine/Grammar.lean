/-
# Phrasebook.CommandLine.Grammar -- the switches and operands of the commands

A command line starts with switches for the whole program and a command, and goes on with the
switches and the operands of that command.  A grammar lists the switches that may stand in one such
part, in the order in which they are named in messages, and the operand that has to.
-/
import Phrasebook.Text.Quoted

namespace Phrasebook.CommandLine

/-- The switches. -/
inductive Switch where
  | help
  | version
  | debug
  | output
  | config
  | package
deriving DecidableEq, Repr

namespace Switch

/-- The spellings of a switch. -/
def spellings : Switch → List Text
  | help => ["-h", "--help"]
  | version => ["-v", "--version"]
  | debug => ["--debug"]
  | output => ["-o", "--output"]
  | config => ["--config"]
  | package => ["--package"]

/-- Whether a switch takes a value. -/
def takesValue : Switch → Bool
  | output | config | package => true
  | _ => false

/-- The name of a switch in messages. -/
def name (s : Switch) : Text := Text.join "/" s.spellings

end Switch

/-- The commands. -/
inductive CommandName where
  | generate
  | render
  | list
deriving DecidableEq, Repr

namespace CommandName

/-- All commands, as they are listed in messages. -/
def all : List CommandName := [generate, render, list]

/-- The word of a command. -/
def word : CommandName → Text
  | generate => "generate"
  | render => "render"
  | list => "list"

/-- The command with a given word. -/
def ofWord? (word : Text) : Option CommandName := all.find? fun c => c.word = word

end CommandName

/-- What has to stand on a part of the command line beside switches. -/
inductive Operand where
  | oneFile
  | files
  | command
deriving DecidableEq, Repr

/-- The name of an operand in messages. -/
def Operand.name : Operand → Text
  | .oneFile | .files => "FILE"
  | .command => "cmd"

/-- What may stand on one part of the command line. -/
structure Grammar where
  program : Text
  switches : List Switch
  operand : Operand
deriving DecidableEq, Repr

namespace Grammar

/-- The name of the program. -/
def programName : Text := "paraphrase"

/-- The part before the command and the command itself. -/
def main : Grammar := ⟨programName, [.help, .version, .debug], .command⟩

/-- The part after a command. -/
def ofCommand (c : CommandName) : Grammar :=
  let program := programName ++ " " ++ c.word
  match c with
  | .generate => ⟨program, [.help, .output, .config], .files⟩
  | .render => ⟨program, [.help, .package, .config], .oneFile⟩
  | .list => ⟨program, [.help], .oneFile⟩

/-- All spellings with their switches, in order. -/
def spellings (g : Grammar) : List (Text × Switch) :=
  g.switches.flatMap fun s => s.spellings.map fun spelling => (spelling, s)

end Grammar

/-! ## What can be wrong -/

/-- What is wrong with a command line. -/
inductive Problem where
  | ambiguous (given : Text) (spellings : List Text)
  | valueMissing (switch : Switch)
  | valueIgnored (switch : Switch) (value : Text)
  | operandMissing (operand : Operand)
  | unknownCommand (word : Text)
  | unrecognized (arguments : List Text)
deriving DecidableEq, Repr

/-- The problem in words. -/
def Problem.message : Problem → Text
  | .ambiguous given spellings =>
    "ambiguous option: " ++ given ++ " could match " ++ Text.join ", " spellings
  | .valueMissing switch => "argument " ++ switch.name ++ ": expected one argument"
  | .valueIgnored switch value =>
    "argument " ++ switch.name ++ ": ignored explicit argument " ++ value.quoted
  | .operandMissing operand => "the following arguments are required: " ++ operand.name
  | .unknownCommand word =>
    "argument " ++ Operand.command.name ++ ": invalid choice: " ++ word.quoted ++ " (choose from " ++
      Text.join ", " (CommandName.all.map fun c => c.word.quoted) ++ ")"
  | .unrecognized arguments => "unrecognized arguments: " ++ Text.join " " arguments

end Phrasebook.CommandLine
