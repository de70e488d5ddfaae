/-
# Phrasebook.Proofs.Json.Grammar -- the grammar of JSON

Which value a text denotes is said by the rules of the language and not by how values are printed.
The grammar allows much that is never printed: white space around every value and every mark, numbers
with a fraction or an exponent, every character as an escape, and pairs of escapes for characters
beyond the first 65536.

A number denotes a rational number, and a value here holds integers only.  A text with another number
in it is JSON all the same, but denotes no such value.
-/
import Mathlib.Algebra.Field.Rat
import Phrasebook.Json
import Phrasebook.Number.Integer

namespace Phrasebook.Json

/-! ## White space and marks -/

/-- A space, a tab, a line feed and a carriage return. -/
def spaces : Text := [.scalar ' ', .scalar '\t', .scalar '\n', .scalar '\r']

/-- What separates values, and what closes a list or an object. -/
def marks : Text := [.scalar ',', .scalar ':', .scalar ']', .scalar '\x7d']

/-- A text of white space only. -/
def IsSpace (t : Text) : Prop := ∀ c ∈ t, c ∈ spaces

instance (t : Text) : Decidable (IsSpace t) := inferInstanceAs (Decidable (∀ c ∈ t, _))

section Lists

variable {α : Type} (item : Text → α → Prop)

/-- A text of a rule with white space around it. -/
inductive Spaced : Text → α → Prop
  | mk {w t w' : Text} {a : α} (before : IsSpace w) (inner : item t a) (after : IsSpace w') :
      Spaced (w ++ (t ++ w')) a

/-- Texts of a rule with commas between them. -/
inductive Sequence : Text → List α → Prop
  | last {t : Text} {a : α} (only : item t a) : Sequence t [a]
  | more {t s : Text} {a : α} {as : List α} (first : item t a) (rest : Sequence s as) :
      Sequence (t ++ .scalar ',' :: s) (a :: as)

/-- Texts of a rule in brackets, or white space for none. -/
inductive Enclosed (opening closing : CodePoint) : Text → List α → Prop
  | none {w : Text} (space : IsSpace w) : Enclosed opening closing (opening :: (w ++ [closing])) []
  | some {s : Text} {as : List α} (items : Sequence item s as) :
      Enclosed opening closing (opening :: (s ++ [closing])) as

end Lists

/-! ## Numbers -/

/-- A whole number, without zeros in front of other digits. -/
def IsWhole (t : Text) (n : Nat) : Prop :=
  t.toNat? = some n ∧ (t.head? = some (.scalar '0') → t.length = 1)

/-- What may follow the whole part of a number: a point and digits. -/
inductive Fraction : Text → ℚ → Prop
  | none : Fraction [] 0
  | digits {t : Text} {n : Nat} (h : t.toNat? = some n) :
      Fraction (.scalar '.' :: t) (n / 10 ^ t.length)

/-- The integer that digits denote, behind a sign or without one. -/
def signed? (t : Text) : Option Int :=
  t.splitSign.2.toNat?.map fun (n : Nat) => if t.splitSign.1 then -(n : Int) else n

/-- What may come last in a number: the power of ten it is multiplied by. -/
inductive Exponent : Text → Int → Prop
  | none : Exponent [] 0
  | digits {c : CodePoint} {t : Text} {e : Int} (hc : c = .scalar 'e' ∨ c = .scalar 'E')
      (h : signed? t = some e) : Exponent (c :: t) e

/-- A number without a sign. -/
inductive Unsigned : Text → ℚ → Prop
  | mk {t u s : Text} {n : Nat} {f : ℚ} {e : Int} (whole : IsWhole t n) (fraction : Fraction u f)
      (exponent : Exponent s e) : Unsigned (t ++ (u ++ s)) ((n + f) * 10 ^ e)

/-- A number. -/
inductive Numeral : Text → ℚ → Prop
  | plain {t : Text} {q : ℚ} (h : Unsigned t q) : Numeral t q
  | negative {t : Text} {q : ℚ} (h : Unsigned t q) : Numeral (.scalar '-' :: t) (-q)

/-! ## Strings -/

/-- The mark around a string. -/
def quoteMark : CodePoint := .scalar '"'

/-- The character that opens an escape. -/
def escapeMark : CodePoint := .scalar '\\'

/-- What a short escape stands for, by the character after the escape mark. -/
def shortEscape? : CodePoint → Option CodePoint
  | .scalar '"' => some (.scalar '"')
  | .scalar '\\' => some (.scalar '\\')
  | .scalar '/' => some (.scalar '/')
  | .scalar 'b' => some (.scalar '\x08')
  | .scalar 'f' => some (.scalar '\x0c')
  | .scalar 'n' => some (.scalar '\n')
  | .scalar 'r' => some (.scalar '\r')
  | .scalar 't' => some (.scalar '\t')
  | _ => none

/-- A piece of a string: a code point, or a number of four digits that may be half of one. -/
inductive Piece where
  | point (c : CodePoint)
  | unit (n : Nat)
deriving DecidableEq, Repr

/-- A text as a piece of a string. -/
inductive IsPiece : Text → Piece → Prop
  | plain {c : CodePoint} (visible : 0x20 ≤ c.val) (noQuote : c ≠ quoteMark)
      (noEscape : c ≠ escapeMark) : IsPiece [c] (.point c)
  | short {c d : CodePoint} (h : shortEscape? c = some d) : IsPiece [escapeMark, c] (.point d)
  | long {t : Text} {n : Nat} (hlength : t.length = 4) (h : t.digits? 16 = some n) :
      IsPiece (escapeMark :: .scalar 'u' :: t) (.unit n)

/-- A text as pieces of a string. -/
inductive ArePieces : Text → List Piece → Prop
  | nil : ArePieces [] []
  | cons {t s : Text} {p : Piece} {ps : List Piece} (first : IsPiece t p) (rest : ArePieces s ps) :
      ArePieces (t ++ s) (p :: ps)

/-- The code points of pieces; the two halves of a surrogate pair are one. -/
def joined : List Piece → Text
  | [] => []
  | .point c :: ps => c :: joined ps
  | .unit high :: .unit low :: ps =>
    if 0xD800 ≤ high ∧ high < 0xDC00 ∧ 0xDC00 ≤ low ∧ low < 0xE000 then
      (CodePoint.ofNat? (0x10000 + 0x400 * (high - 0xD800) + (low - 0xDC00))).toList ++ joined ps
    else (CodePoint.ofNat? high).toList ++ joined (.unit low :: ps)
  | .unit n :: ps => (CodePoint.ofNat? n).toList ++ joined ps

/-- A string in quotes. -/
inductive Quoted : Text → Text → Prop
  | mk {s : Text} {ps : List Piece} (pieces : ArePieces s ps) :
      Quoted (quoteMark :: (s ++ [quoteMark])) (joined ps)

example : Quoted "\"\\ud83D\\uDE00\\/\"" [.scalar '😀', .scalar '/'] :=
  .mk (.cons (.long (t := [.scalar 'd', .scalar '8', .scalar '3', .scalar 'D']) rfl rfl)
    (.cons (.long (t := [.scalar 'D', .scalar 'E', .scalar '0', .scalar '0']) rfl rfl)
      (.cons (.short rfl) .nil)))

/-! ## Values -/

/-- A member of an object, if its value is one by a given rule. -/
inductive Member (value : Text → Json → Prop) : Text → Text × Json → Prop
  | mk {t u : Text} {name : Text} {v : Json} (left : Spaced Quoted t name)
      (right : Spaced value u v) : Member value (t ++ .scalar ':' :: u) (name, v)

/-- The value that a text denotes, without white space around it. -/
inductive Denotes : Text → Json → Prop
  | null : Denotes "null" .null
  | true : Denotes "true" (.bool Bool.true)
  | false : Denotes "false" (.bool Bool.false)
  | number {t : Text} {n : Int} (h : Numeral t n) : Denotes t (.int n)
  | text {t s : Text} (h : Quoted t s) : Denotes t (.text s)
  | list {t : Text} {items : List Json} (h : Enclosed (Spaced Denotes) '[' ']' t items) :
      Denotes t (.list items)
  | object {t : Text} {members : List (Text × Json)}
      (h : Enclosed (Member Denotes) '\x7b' '\x7d' t members) : Denotes t (.object members)

/-- A whole text denotes a value. -/
def IsDocument (t : Text) (v : Json) : Prop := Spaced Denotes t v

end Phrasebook.Json
