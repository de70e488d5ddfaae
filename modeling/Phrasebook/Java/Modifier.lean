/-
# Phrasebook.Java.Modifier -- declaration modifiers in canonical order

Modifiers have one order, that of `Modifier.all`, in which they are always printed.  `normalize`
also drops repetitions, while `sorted` keeps them; both depend on how often each modifier occurs and
on nothing else.
-/
import Phrasebook.Text

namespace Phrasebook.Java

/-- The modifiers a generated declaration may carry. -/
inductive Modifier where
  | isPublic
  | isProtected
  | isPrivate
  | isAbstract
  | isStatic
  | isFinal
deriving DecidableEq, Repr

namespace Modifier

/-- All modifiers in canonical order. -/
def all : List Modifier := [isPublic, isProtected, isPrivate, isAbstract, isStatic, isFinal]

/-- The word a modifier is printed as. -/
def keyword : Modifier → Text
  | isPublic => "public"
  | isProtected => "protected"
  | isPrivate => "private"
  | isAbstract => "abstract"
  | isStatic => "static"
  | isFinal => "final"

theorem mem_all (m : Modifier) : m ∈ all := by cases m <;> decide

/-- The modifier printed as a word. -/
def ofKeyword? (word : Text) : Option Modifier := all.find? fun m => m.keyword = word

/-- The modifiers in canonical order, each as often as it is given. -/
def sorted (ms : List Modifier) : List Modifier :=
  all.flatMap fun m => List.replicate (ms.count m) m

/-- The modifiers in canonical order, each once. -/
def normalize (ms : List Modifier) : List Modifier := all.filter ms.contains

/-- The words of the modifiers in canonical order, each followed by a space. -/
def text (ms : List Modifier) : Text :=
  (sorted ms).flatMap fun m => m.keyword ++ " "

/-- Sorting keeps every modifier with its multiplicity. -/
theorem count_sorted (ms : List Modifier) (m : Modifier) : (sorted ms).count m = ms.count m := by
  cases m <;> simp [sorted, all, List.count_replicate]

/-- Normalisation keeps exactly the modifiers that are given. -/
theorem mem_normalize (ms : List Modifier) (m : Modifier) : m ∈ normalize ms ↔ m ∈ ms := by
  simp [normalize, mem_all]

end Modifier

end Phrasebook.Java
