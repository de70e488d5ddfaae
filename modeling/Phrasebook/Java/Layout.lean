/-
# Phrasebook.Java.Layout -- lines at an indentation level

A `Layout` is what has been printed so far: finished lines and the current level.  A line takes the
indentation of the level at which it is added, except that an empty line stays empty.  Going below
level zero is an error, which balanced use never meets.
-/
import Phrasebook.Text

namespace Phrasebook.Java

/-- The indentation of one level. -/
def indentUnit : Text := "  "

/-- The indentation of a level. -/
def indentation : Nat → Text
  | 0 => []
  | n + 1 => indentUnit ++ indentation n

/-- Printed lines and the current indentation level. -/
structure Layout where
  lines : Array Text := #[]
  level : Nat := 0

namespace Layout

/-- A line as it is printed at a level. -/
def atLevel (level : Nat) (text : Text) : Text :=
  if text.isEmpty then [] else indentation level ++ text

/-- Adds a line at the current level. -/
def line (out : Layout) (text : Text) : Layout :=
  { out with lines := out.lines.push (atLevel out.level text) }

/-- Adds several lines at the current level. -/
def addLines (out : Layout) (texts : List Text) : Layout := texts.foldl line out

/-- Goes one level deeper. -/
def indent (out : Layout) : Layout := { out with level := out.level + 1 }

/-- Goes one level back, if there is one. -/
def dedent? (out : Layout) : Option Layout :=
  match out.level with
  | 0 => none
  | n + 1 => some { out with level := n }

/-- The lines as one text, in which a newline follows the last line. -/
def text (out : Layout) : Text := Text.join "\n" out.lines.toList ++ "\n"

@[simp] theorem line_level (out : Layout) (t : Text) : (out.line t).level = out.level := rfl

@[simp] theorem line_lines (out : Layout) (t : Text) :
    (out.line t).lines.toList = out.lines.toList ++ [atLevel out.level t] := by simp [line]

@[simp] theorem addLines_level (out : Layout) (ts : List Text) :
    (out.addLines ts).level = out.level := by
  induction ts generalizing out with
  | nil => rfl
  | cons t ts ih => simpa [addLines] using ih (out.line t)

@[simp] theorem addLines_lines (out : Layout) (ts : List Text) :
    (out.addLines ts).lines.toList = out.lines.toList ++ ts.map (atLevel out.level) := by
  induction ts generalizing out with
  | nil => simp [addLines]
  | cons t ts ih =>
    have h := ih (out.line t)
    simp only [addLines, List.foldl_cons] at h ⊢
    rw [h]
    simp

end Layout

end Phrasebook.Java
