/-
# Phrasebook.Json -- the JSON text of reports

Reports and listings are JSON values printed with two spaces for each level, members in the order
given, and all characters but quotes, backslashes and control characters as they are.  An empty list
and an empty object are printed on one line.
-/
import Phrasebook.Text

namespace Phrasebook

/-- A JSON value; the members of an object are in order. -/
inductive Json where
  | null
  | bool (b : Bool)
  | int (n : Int)
  | text (t : Text)
  | list (items : List Json)
  | object (members : List (Text × Json))
deriving Inhabited, Repr

namespace Json

/-! ## Strings -/

/-- A code point inside a JSON string. -/
def escape : CodePoint → Text
  | .scalar '"' => "\\\""
  | .scalar '\\' => "\\\\"
  | .scalar '\n' => "\\n"
  | .scalar '\r' => "\\r"
  | .scalar '\t' => "\\t"
  | .scalar '\x08' => "\\b"
  | .scalar '\x0c' => "\\f"
  | c => if c.val < 0x20 then "\\u" ++ Text.hex 4 c.val else [c]

/-- A text as a JSON string. -/
def quote (t : Text) : Text := "\"" ++ t.flatMap escape ++ "\""

/-! ## Layout -/

/-- A line break and the indentation of a level. -/
def newline (level : Nat) : Text :=
  (.scalar '\n' : CodePoint) :: List.replicate (2 * level) (.scalar ' ' : CodePoint)

/-- Printed items of a level inside their brackets. -/
def bracket (opening closing : Text) (level : Nat) (items : List Text) : Text :=
  if items.isEmpty then opening ++ closing
  else
    opening ++ newline (level + 1) ++ Text.join ("," ++ newline (level + 1)) items ++
      newline level ++ closing

mutual

/-- A value printed at a level. -/
def print (level : Nat) : Json → Text
  | null => "null"
  | bool b => if b then "true" else "false"
  | int n => Text.ofInt n
  | text t => quote t
  | list items => bracket "[" "]" level (printItems (level + 1) items)
  | object members => bracket "\x7b" "\x7d" level (printMembers (level + 1) members)

/-- The items of a list, printed at a level. -/
def printItems (level : Nat) : List Json → List Text
  | [] => []
  | item :: items => print level item :: printItems level items

/-- The members of an object, printed at a level. -/
def printMembers (level : Nat) : List (Text × Json) → List Text
  | [] => []
  | (name, value) :: members =>
    (quote name ++ ": " ++ print level value) :: printMembers level members

end

/-- A value as a document that ends with a newline. -/
def document (value : Json) : Text := value.print 0 ++ "\n"

end Json

end Phrasebook
