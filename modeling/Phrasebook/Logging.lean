/-
# Phrasebook.Logging -- messages about a run

A message has a level, and a log shows the messages from its own level upwards, each on a line that
opens with the level.  Setting up a log again changes its level and never adds a second outlet.
-/
import Phrasebook.Text

namespace Phrasebook

/-- The levels of messages, in ascending order. -/
inductive Level where
  | debug
  | info
  | warning
deriving DecidableEq, Repr

namespace Level

/-- The name of a level. -/
def name : Level → Text
  | debug => "DEBUG"
  | info => "INFO"
  | warning => "WARNING"

/-- The rank of a level. -/
def rank : Level → Nat
  | debug => 0
  | info => 1
  | warning => 2

/-- The level of a log: everything on request, else warnings.  The variable of the environment
requests it by any value but the empty one. -/
def requested (debug : Bool) (environment : Option Text) : Level :=
  if debug || !(environment.getD []).isEmpty then .debug else .warning

end Level

/-- A message with its level. -/
structure Message where
  level : Level
  text : Text
deriving DecidableEq, Repr

namespace Message

/-- The line of a message. -/
def line (m : Message) : Text := "[" ++ m.level.name ++ "] " ++ m.text

/-- Whether a log of a given level shows a message. -/
def isShown (level : Level) (m : Message) : Bool := level.rank ≤ m.level.rank

end Message

/-- A log: its level, the number of its outlets, and whether it has been set up. -/
structure Log where
  level : Level := .debug
  outlets : Nat := 0
  ready : Bool := false
deriving DecidableEq, Repr

/-- Sets up a log: the level is adjusted each time, and the first time an outlet is added if there
is none. -/
def Log.setUp (log : Log) (debug : Bool) (environment : Option Text) : Log where
  level := Level.requested debug environment
  outlets := if log.ready || log.outlets ≠ 0 then log.outlets else 1
  ready := true

end Phrasebook
