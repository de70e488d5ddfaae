/-
# Phrasebook.Text -- text as a list of code points

Names, documentation and paths reach this library as text that need not be well-formed Unicode: an
escape in an input file may denote half of a surrogate pair.  A `CodePoint` is therefore a Unicode
scalar value or a lone surrogate, and a `Text` is a list of them.  Whether a text can be written as
UTF-8 is a question about the text (`Phrasebook.Text.Encoding`), not about its type.

The order on texts is the order of their code points.
-/

namespace Phrasebook

/-! ## Code points -/

/-- A Unicode scalar value, or the lone surrogate `U+D800 + u`. -/
inductive CodePoint where
  | scalar (c : Char)
  | surrogate (u : Fin 2048)
deriving DecidableEq, Inhabited, Repr

namespace CodePoint

instance : Coe Char CodePoint := ⟨.scalar⟩

/-- The number of a code point. -/
def val : CodePoint → Nat
  | scalar c => c.toNat
  | surrogate u => 0xD800 + u.val

/-- The code point with a number, when there is one. -/
def ofNat? (n : Nat) : Option CodePoint :=
  if h : n.isValidChar then some (.scalar (Char.ofNatAux n h))
  else if n - 0xD800 < 2048 then some (.surrogate (Fin.ofNat 2048 (n - 0xD800)))
  else none

/-- The character a code point is, unless it is a lone surrogate. -/
def toChar? : CodePoint → Option Char
  | scalar c => some c
  | surrogate _ => none

/-- An ASCII letter. -/
def isLetter : CodePoint → Bool
  | scalar c => c.isAlpha
  | surrogate _ => false

/-- An ASCII digit. -/
def isDigit : CodePoint → Bool
  | scalar c => c.isDigit
  | surrogate _ => false

/-- The value of a hexadecimal digit. -/
def hexValue? : CodePoint → Option Nat
  | scalar c =>
    if c.isDigit then some (c.toNat - 48)
    else if 'a' ≤ c ∧ c ≤ 'f' then some (c.toNat - 87)
    else if 'A' ≤ c ∧ c ≤ 'F' then some (c.toNat - 55)
    else none
  | surrogate _ => none

end CodePoint

/-! ## Texts -/

/-- A sequence of code points. -/
abbrev Text := List CodePoint

namespace Text

/-- The text of a string; no string holds a lone surrogate. -/
def ofString (s : String) : Text := s.toList.map .scalar

instance : Coe String Text := ⟨ofString⟩

/-- The string with the same code points, unless one of them is a lone surrogate. -/
def toString? (t : Text) : Option String :=
  (t.mapM CodePoint.toChar?).map String.ofList

/-- The pieces, with a separator between neighbours. -/
def join (sep : Text) (pieces : List Text) : Text := sep.intercalate pieces

/-- The pieces between the occurrences of a code point; there is always at least one. -/
def split (sep : CodePoint) : Text → List Text
  | [] => [[]]
  | c :: cs =>
    if c = sep then [] :: split sep cs
    else match split sep cs with
      | [] => [[c]]
      | piece :: pieces => (c :: piece) :: pieces

theorem split_ne_nil (sep : CodePoint) : ∀ t : Text, split sep t ≠ []
  | [] => by simp [split]
  | c :: cs => by
    by_cases h : c = sep
    · simp [split, h]
    · cases hs : split sep cs <;> simp [split, h, hs]

/-- A text without the separator is its own only piece. -/
theorem split_of_not_mem {sep : CodePoint} : ∀ {t : Text}, sep ∉ t → split sep t = [t]
  | [], _ => rfl
  | c :: cs, h => by
    have hc : c ≠ sep := fun e => h (by simp [e])
    have hcs : sep ∉ cs := fun m => h (by simp [m])
    simp [split, hc, split_of_not_mem hcs]

/-- The order of texts by their code points, a text coming after each of its own beginnings. -/
def le : Text → Text → Bool
  | [], _ => true
  | _ :: _, [] => false
  | a :: as, b :: bs => if a.val = b.val then le as bs else a.val < b.val

/-- The texts in ascending order. -/
def sort (ts : List Text) : List Text := ts.mergeSort le

/-- The decimal digits of a number, without leading zeros. -/
def ofNat (n : Nat) : Text := (Nat.toDigits 10 n).map .scalar

/-- The decimal digits of an integer, after a minus sign if it is negative. -/
def ofInt : Int → Text
  | .ofNat n => ofNat n
  | .negSucc n => (.scalar '-' : CodePoint) :: ofNat (n + 1)

/-- The lower-case hexadecimal digits of a number, filled up with zeros to a width. -/
def hex (width n : Nat) : Text :=
  let digits := Nat.toDigits 16 n
  (List.replicate (width - digits.length) '0' ++ digits).map .scalar

/-- The number a run of decimal digits denotes, when it is one. -/
def toNat? : Text → Option Nat
  | [] => none
  | t => t.foldl (fun acc c => do
      let n ← acc
      match c with
      | .scalar d => if d.isDigit then some (10 * n + (d.toNat - 48)) else none
      | .surrogate _ => none) (some 0)

/-- Replaces the text `old` by `new`, from left to right and without overlap. -/
def replace (old new : Text) (t : Text) : Text := go t 0
where
  /-- `skip` counts the code points of a match that are still to be passed over. -/
  go : Text → Nat → Text
    | [], _ => []
    | _ :: cs, skip + 1 => go cs skip
    | c :: cs, 0 =>
      if !old.isEmpty && old.isPrefixOf (c :: cs) then new ++ go cs (old.length - 1)
      else c :: go cs 0

/-- Whether a text occurs in another one. -/
def occursIn (part : Text) : Text → Bool
  | [] => part.isEmpty
  | c :: cs => part.isPrefixOf (c :: cs) || occursIn part cs

end Text

end Phrasebook
