/-
# Phrasebook.Proofs.Java.Escapes -- the translation of Unicode escapes

The first step of reading Java replaces Unicode escapes: a backslash that is not itself escaped, one
or more `u` and four hexadecimal digits stand for one character, before anything is known of
comments and strings.  `translate` is this step.  It has no result if digits are missing.

A text is translated in parts, if it is cut where no escape can go on.
-/
import Phrasebook.Text

namespace Phrasebook.Java

/-! ## Escapes -/

/-- The character that opens an escape. -/
def backslash : CodePoint := .scalar '\\'

/-- The character after it, once or more often. -/
def escapeMark : CodePoint := .scalar 'u'

/-- Where the translation of a text stands. -/
inductive Reading where
  /-- Behind a character that escapes nothing. -/
  | plain
  /-- Behind a backslash that is not escaped itself. -/
  | escape
  /-- Behind such a backslash and a `u`. -/
  | marked
  /-- Behind some of the digits, with their value; after the next digit there are `more` to come. -/
  | digits (more value : Nat)
deriving DecidableEq, Repr

/-- The translation of what follows. -/
def translateFrom : Reading → Text → Option Text
  | .plain, [] => some []
  | .plain, c :: cs =>
    if c = backslash then translateFrom .escape cs else (translateFrom .plain cs).map (c :: ·)
  | .escape, [] => some [backslash]
  | .escape, c :: cs =>
    if c = escapeMark then translateFrom .marked cs
    else (translateFrom .plain cs).map fun t => backslash :: c :: t
  | .marked, [] => none
  | .marked, c :: cs =>
    if c = escapeMark then translateFrom .marked cs
    else c.hexValue?.bind fun d => translateFrom (.digits 2 d) cs
  | .digits _ _, [] => none
  | .digits more value, c :: cs => c.hexValue?.bind fun d =>
    match more with
    | more + 1 => translateFrom (.digits more (16 * value + d)) cs
    | 0 => (CodePoint.ofNat? (16 * value + d)).bind fun e => (translateFrom .plain cs).map (e :: ·)

/-- The text with every escape replaced, unless one is incomplete. -/
def translate (t : Text) : Option Text := translateFrom .plain t

example : translate "a\\\\u0\\uu002Fb" = some ("a\\\\u0/b" : Text) := by decide

/-- Without a backslash there is nothing to be replaced. -/
theorem translate_append_of_backslash_not_mem {s : Text} (h : backslash ∉ s) (t : Text) :
    translate (s ++ t) = (translate t).map (s ++ ·) := by
  induction s with
  | nil =>
    show translate t = _
    cases translate t <;> rfl
  | cons c s ih =>
    have hc : c ≠ backslash := fun heq => h (heq ▸ List.mem_cons_self ..)
    have hs := ih fun hm => h (List.mem_cons_of_mem c hm)
    show (if c = backslash then _ else (translate (s ++ t)).map (c :: ·)) = _
    rw [if_neg hc, hs, Option.map_map]
    rfl

theorem translate_of_backslash_not_mem {t : Text} (h : backslash ∉ t) : translate t = some t := by
  have happend := translate_append_of_backslash_not_mem h []
  rw [List.append_nil] at happend
  rw [happend]
  show some (t ++ []) = _
  rw [List.append_nil]

/-- A character that no escape goes on with. -/
def EndsEscapes (c : CodePoint) : Prop :=
  c ≠ backslash ∧ c ≠ escapeMark ∧ c.hexValue? = none

/-- At such a character a text is translated in two parts. -/
theorem translate_seam {c : CodePoint} (hc : EndsEscapes c) (s t : Text) :
    translate (s ++ c :: t) =
      (translate s).bind fun s' => (translate t).map fun t' => s' ++ c :: t' := by
  obtain ⟨hbackslash, hmark, hhex⟩ := hc
  have hfrom : ∀ r, translateFrom r (s ++ c :: t) =
      (translateFrom r s).bind fun s' => (translateFrom .plain t).map fun t' => s' ++ c :: t' := by
    induction s with
    | nil =>
      -- the seam ends a backslash that escapes nothing, and it is no digit that is still missing
      intro r
      cases r with
      | plain => simp [translateFrom, hbackslash]
      | escape => simp [translateFrom, hmark]
      | marked => simp [translateFrom, hmark, hhex]
      | digits more value => simp [translateFrom, hhex]
    | cons d s ih =>
      intro r
      rw [List.cons_append]
      cases r with
      | plain =>
        rw [translateFrom, translateFrom]
        split
        · exact ih .escape
        · rw [ih .plain, Option.map_bind, Option.bind_map]
          simp only [Function.comp_def, Option.map_map, List.cons_append]
      | escape =>
        rw [translateFrom, translateFrom]
        split
        · exact ih .marked
        · rw [ih .plain, Option.map_bind, Option.bind_map]
          simp only [Function.comp_def, Option.map_map, List.cons_append]
      | marked =>
        rw [translateFrom, translateFrom]
        split
        · exact ih .marked
        · rw [Option.bind_assoc]
          exact congrArg d.hexValue?.bind (funext fun v => ih (.digits 2 v))
      | digits more value =>
        rw [translateFrom, translateFrom, Option.bind_assoc]
        refine congrArg d.hexValue?.bind (funext fun v => ?_)
        cases more with
        | succ more => exact ih (.digits more (16 * value + v))
        | zero =>
          rw [Option.bind_assoc]
          refine congrArg (CodePoint.ofNat? (16 * value + v)).bind (funext fun e => ?_)
          rw [ih .plain, Option.map_bind, Option.bind_map]
          simp only [Function.comp_def, Option.map_map, List.cons_append]
  exact hfrom .plain

end Phrasebook.Java
