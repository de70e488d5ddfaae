/-
# Phrasebook.Text.Encoding -- texts as bytes

Files hold UTF-8.  Writing fails on a lone surrogate, which has no UTF-8 form, and reading fails on
bytes that are no UTF-8.  Neither direction repairs anything; `replaced` and `escaped` do, where a text
has to have a form.
-/
import Phrasebook.Text

namespace Phrasebook

namespace Text

/-- The UTF-8 form of a text, unless it holds a lone surrogate. -/
def encode? (t : Text) : Option ByteArray := (toString? t).map String.toUTF8

/-- The text with a given UTF-8 form. -/
def decode? (bytes : ByteArray) : Option Text := (String.fromUTF8? bytes).map ofString

/-- A text with a UTF-8 form in place of one that may have none: each half of a surrogate pair would
take three bytes, and gives way to three replacement characters. -/
def replaced (t : Text) : Text :=
  t.flatMap fun
    | .scalar c => [.scalar c]
    | .surrogate _ => List.replicate 3 (.scalar '\uFFFD')

/-- A text with its lone surrogates written as escapes, which is how standard error shows them. -/
def escaped (t : Text) : Text :=
  t.flatMap fun
    | .scalar c => [.scalar c]
    | .surrogate u => "\\u" ++ hex 4 (CodePoint.surrogate u).val

/-- The number of bytes of a text in UTF-8, a lone surrogate counting as one byte, which is how it
stands for an undecodable byte in a file name. -/
def byteLength : Text → Nat
  | [] => 0
  | .scalar c :: t => c.utf8Size + byteLength t
  | .surrogate _ :: t => 1 + byteLength t

end Text

end Phrasebook
