/-
# Phrasebook.Text.Lines -- line boundaries and blank text

Text that ends up in comments is cut into lines before it is printed, so every character that some
reader may take for a line end has to count as one.  `lines` cuts at all of them, and `isBlank`
recognises the text that shows nothing on a line.

A final line break does not open another line: the lines of `a` and of `a` followed by a break are
the same, and the empty text has no line at all.
-/
import Phrasebook.Text

namespace Phrasebook

namespace CodePoint

/-- A character that ends a line: the vertical controls, the information separators, next line, and
the line and paragraph separators. -/
def isLineBreak : CodePoint → Bool
  | scalar c =>
    let n := c.toNat
    (0x0A ≤ n && n ≤ 0x0D) || (0x1C ≤ n && n ≤ 0x1E) || n == 0x85 || n == 0x2028 || n == 0x2029
  | surrogate _ => false

/-- A character that leaves no mark: the space characters of every script, the controls that move
the print position, and the information separators. -/
def isBlank : CodePoint → Bool
  | scalar c =>
    let n := c.toNat
    (0x09 ≤ n && n ≤ 0x0D) || (0x1C ≤ n && n ≤ 0x20) || n == 0x85 || n == 0xA0 || n == 0x1680 ||
      (0x2000 ≤ n && n ≤ 0x200A) || n == 0x2028 || n == 0x2029 || n == 0x202F || n == 0x205F ||
      n == 0x3000
  | surrogate _ => false

end CodePoint

namespace Text

/-- The lines of a text; a carriage return and the line feed after it are one break. -/
def lines : Text → List Text
  | [] => []
  | .scalar '\r' :: .scalar '\n' :: cs => [] :: lines cs
  | c :: cs =>
    if c.isLineBreak then [] :: lines cs
    else match lines cs with
      | [] => [[c]]
      | l :: ls => (c :: l) :: ls

/-- The lines a comment is printed on: those of its text, and one blank line if there is none. -/
def commentLines (t : Text) : List Text :=
  match lines t with
  | [] => [[]]
  | ls => ls

/-- Nothing of the text shows. -/
def isBlank (t : Text) : Bool := t.all CodePoint.isBlank

/-- The text without the blanks at its end. -/
def trimEnd (t : Text) : Text := (t.reverse.dropWhile CodePoint.isBlank).reverse

/-- A text is empty, or it begins with a break, with the one character of its last line, or with a
character that goes on with the first line of the rest. -/
@[elab_as_elim]
theorem lines_induction {motive : Text → Prop} (nil : motive [])
    (broken : ∀ t rest, rest <:+ t → lines t = [] :: lines rest → motive rest → motive t)
    (last : ∀ c rest, c.isLineBreak = false → lines (c :: rest) = [[c]] → motive (c :: rest))
    (within : ∀ c rest l ls, c.isLineBreak = false → lines rest = l :: ls →
      lines (c :: rest) = (c :: l) :: ls → motive rest → motive (c :: rest)) (t : Text) :
    motive t := by
  fun_induction lines t
  · exact nil
  · next rest ih => exact broken _ rest ⟨[_, _], rfl⟩ (by rw [lines]) ih
  · next c rest hpair hbreak ih =>
    exact broken _ rest ⟨[c], rfl⟩ (by rw [lines.eq_3 _ _ hpair, if_pos hbreak]) ih
  · next c rest hpair hbreak hrest _ =>
    refine last c rest (Bool.eq_false_iff.mpr hbreak) ?_
    rw [lines.eq_3 _ _ hpair, if_neg hbreak, hrest]
  · next c rest hpair hbreak l ls hrest ih =>
    refine within c rest l ls (Bool.eq_false_iff.mpr hbreak) hrest ?_ ih
    rw [lines.eq_3 _ _ hpair, if_neg hbreak, hrest]

/-- No line holds a line break. -/
theorem not_isLineBreak_of_mem_lines (t : Text) :
    ∀ l ∈ lines t, ∀ c ∈ l, c.isLineBreak = false := by
  intro l hl d hd
  induction t using lines_induction generalizing l with
  | nil => cases hl
  | broken t rest _ hlines ih =>
    rw [hlines] at hl
    rcases List.mem_cons.mp hl with rfl | hl
    · cases hd
    · exact ih l hl hd
  | last c rest hc hlines =>
    rw [hlines, List.mem_singleton] at hl
    rw [hl, List.mem_singleton] at hd
    exact hd ▸ hc
  | within c rest first ls hc hrest hlines ih =>
    rw [hlines] at hl
    rw [hrest] at ih
    rcases List.mem_cons.mp hl with rfl | hl
    · rcases List.mem_cons.mp hd with rfl | hd
      · exact hc
      · exact ih first List.mem_cons_self hd
    · exact ih l (List.mem_cons_of_mem first hl) hd

/-- Every break becomes a line feed, a carriage return and the line feed after it becoming one:
the form in which an input file is read. -/
def withLineFeeds : Text → Text
  | [] => []
  | .scalar '\r' :: .scalar '\n' :: cs => (.scalar '\n' : CodePoint) :: withLineFeeds cs
  | .scalar '\r' :: cs => (.scalar '\n' : CodePoint) :: withLineFeeds cs
  | c :: cs => c :: withLineFeeds cs

end Text

end Phrasebook
