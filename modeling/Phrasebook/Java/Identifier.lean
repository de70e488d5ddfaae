/-
# Phrasebook.Java.Identifier -- names that may be emitted into Java source

A package segment, a phrase name and a token name all become identifiers of the generated source.
An identifier here is a plain ASCII name that is not a reserved word.  `checkIdentifier` and
`checkPackage` return the name they accept and otherwise say what is wrong with it; for the empty
name, a reserved word and a malformed name the answers differ, in this order.

Names outside ASCII, which the Java language would allow, are refused on purpose.
-/
import Phrasebook.Text

namespace Phrasebook.Java

/-! ## Identifiers -/

/-- A character that may open an identifier. -/
def isIdentifierStart (c : CodePoint) : Bool :=
  c.isLetter || c = '_' || c = '$'

/-- A character that may follow in an identifier. -/
def isIdentifierPart (c : CodePoint) : Bool :=
  isIdentifierStart c || c.isDigit

/-- The shape of an identifier, reserved words included. -/
def isPlainName : Text → Bool
  | [] => false
  | c :: cs => isIdentifierStart c && cs.all isIdentifierPart

/-- The keywords of the language and its three literal words. -/
def reservedWords : List Text := List.map Text.ofString [
  "abstract", "assert", "boolean", "break", "byte", "case", "catch", "char", "class", "const",
  "continue", "default", "do", "double", "else", "enum", "extends", "final", "finally", "float",
  "for", "goto", "if", "implements", "import", "instanceof", "int", "interface", "long", "native",
  "new", "package", "private", "protected", "public", "return", "short", "static", "strictfp",
  "super", "switch", "synchronized", "this", "throw", "throws", "transient", "try", "void",
  "volatile", "while", "_", "true", "false", "null"]

/-- A name that may stand as an identifier. -/
def isIdentifier (name : Text) : Bool := isPlainName name && !reservedWords.contains name

/-- Only a start character is a part without being a digit. -/
theorem isIdentifierPart_of_start {c : CodePoint} (h : isIdentifierStart c = true) :
    isIdentifierPart c = true := by simp [isIdentifierPart, h]

/-- No identifier is empty. -/
theorem isPlainName_ne_nil {name : Text} (h : isPlainName name = true) : name ≠ [] := by
  rintro rfl
  simp [isPlainName] at h

/-- Every character of a plain name is an identifier part. -/
theorem isIdentifierPart_of_mem {name : Text} (h : isPlainName name = true) :
    ∀ c ∈ name, isIdentifierPart c = true := by
  cases name with
  | nil => simp
  | cons c cs =>
    simp only [isPlainName, Bool.and_eq_true, List.all_eq_true] at h
    intro d hd
    rcases List.mem_cons.mp hd with rfl | hd
    · exact isIdentifierPart_of_start h.1
    · exact h.2 d hd

/-! ## What can be wrong with a name -/

/-- The reasons for which a name is refused. -/
inductive Flaw where
  | empty
  | reserved
  | malformed
  | badSegment (segment : Text)
  | redeclared
  | repeatedIn (phrase : Text)
deriving DecidableEq, Repr

/-- A flaw in words. -/
def Flaw.message : Flaw → Text
  | .empty => "must not be empty"
  | .reserved => "is a reserved Java keyword"
  | .malformed => "is not a valid Java identifier"
  | .badSegment segment => "segment '" ++ segment ++ "' is not a valid Java identifier"
  | .redeclared => "is declared more than once"
  | .repeatedIn phrase => "is repeated in phrase '" ++ phrase ++ "'"

/-- A refused name, with the role in which it was checked. -/
structure NameFault where
  role : Text
  name : Text
  flaw : Flaw
deriving DecidableEq, Repr

/-- The fault as it is shown to a user. -/
def NameFault.message (f : NameFault) : Text :=
  "Invalid " ++ f.role ++ " '" ++ f.name ++ "': " ++ f.flaw.message

/-- The role of a package name. -/
def packageRole : Text := "package"

/-- The role of a phrase name. -/
def phraseRole : Text := "phrase name"

/-- The role of a token name. -/
def tokenRole : Text := "token name"

/-! ## Checking -/

/-- The flaw of a name by its own form. -/
def flaw? (name : Text) : Option Flaw :=
  if name.isEmpty then some .empty
  else if reservedWords.contains name then some .reserved
  else if isPlainName name then none
  else some .malformed

/-- The name itself, if it is an identifier. -/
def checkIdentifier (role name : Text) : Except NameFault Text :=
  match flaw? name with
  | none => .ok name
  | some flaw => .error ⟨role, name, flaw⟩

/-- A name has no flaw exactly when it is an identifier. -/
theorem flaw?_eq_none_iff (name : Text) : flaw? name = none ↔ isIdentifier name = true := by
  unfold flaw? isIdentifier
  cases name with
  | nil => simp [isPlainName]
  | cons c cs =>
    cases hr : reservedWords.contains (c :: cs) <;> cases hp : isPlainName (c :: cs) <;>
      simp [-List.contains_eq_mem]

/-- The flaw of a package name: it is empty, or its first segment that is no identifier. -/
def packageFlaw? (package : Text) : Option Flaw :=
  if package.isEmpty then some .empty
  else ((Text.split '.' package).find? fun s => !isIdentifier s).map .badSegment

/-- The package name itself, if all of its dotted segments are identifiers. -/
def checkPackage (package : Text) : Except NameFault Text :=
  match packageFlaw? package with
  | none => .ok package
  | some flaw => .error ⟨packageRole, package, flaw⟩

/-- A dotted sequence of identifiers. -/
def isPackageName (package : Text) : Bool := (Text.split '.' package).all isIdentifier

/-- A package name has no flaw exactly when each of its segments is an identifier. -/
theorem packageFlaw?_eq_none_iff (package : Text) :
    packageFlaw? package = none ↔ isPackageName package = true := by
  cases package with
  | nil => simp [packageFlaw?, isPackageName, Text.split, isIdentifier, isPlainName]
  | cons c cs => simp [packageFlaw?, isPackageName]

end Phrasebook.Java
