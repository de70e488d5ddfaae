/-
# Phrasebook.Proofs.Text.Closing -- texts that cannot end a block comment

A block comment ends where a star is followed by a slash.  `Unclosed` says that this happens nowhere
in a text, as a condition on neighbours, so that of a text put together from parts only the seams
have to be looked at.

Printing documentation exchanges every end of a comment for something else.  No new one comes into
being by that, nor by cutting the result into lines.
-/
import Mathlib.Data.List.Chain
import Phrasebook.Text.Lines

namespace Phrasebook.Text

/-- The first character of the end of a block comment. -/
def star : CodePoint := .scalar '*'

/-- The second one. -/
def slash : CodePoint := .scalar '/'

/-- Neighbours that do not end a block comment. -/
def Harmless (c d : CodePoint) : Prop := ¬ (c = star ∧ d = slash)

/-- No star is followed by a slash. -/
def Unclosed (t : Text) : Prop := t.IsChain Harmless

instance (c d : CodePoint) : Decidable (Harmless c d) :=
  inferInstanceAs (Decidable (¬ (c = star ∧ d = slash)))

instance (t : Text) : Decidable (Unclosed t) :=
  inferInstanceAs (Decidable (t.IsChain Harmless))

theorem unclosed_nil : Unclosed [] := List.isChain_nil

theorem unclosed_append {s t : Text} :
    Unclosed (s ++ t) ↔
      Unclosed s ∧ Unclosed t ∧ ∀ c ∈ s.getLast?, ∀ d ∈ t.head?, Harmless c d :=
  List.isChain_append

theorem unclosed_cons {c : CodePoint} {t : Text} :
    Unclosed (c :: t) ↔ (∀ d ∈ t.head?, Harmless c d) ∧ Unclosed t :=
  List.isChain_cons

/-- Without a slash there is no end of a comment. -/
theorem unclosed_of_slash_not_mem {t : Text} (h : slash ∉ t) : Unclosed t := by
  induction t with
  | nil => exact unclosed_nil
  | cons c t ih =>
    rw [unclosed_cons]
    refine ⟨?_, ih fun hm => h (List.mem_cons_of_mem c hm)⟩
    rintro d hd ⟨-, rfl⟩
    exact h (List.mem_cons_of_mem c (List.mem_of_mem_head? hd))

/-- The end of a comment occurs in a text exactly if the text is not unclosed. -/
theorem occursIn_iff_not_unclosed (t : Text) : occursIn "*/" t = true ↔ ¬ Unclosed t := by
  induction t with
  | nil => exact iff_of_false (by decide) (not_not.mpr unclosed_nil)
  | cons c t ih =>
    rw [occursIn, Bool.or_eq_true, ih, unclosed_cons, not_and_or]
    refine or_congr ?_ Iff.rfl
    show (star == c && List.isPrefixOf [slash] t) = true ↔ _
    cases t with
    | nil => simp
    | cons d t =>
      simp only [List.isPrefixOf, Bool.and_true, Bool.and_eq_true, beq_iff_eq, List.head?_cons,
        Option.mem_some_iff, forall_eq', Harmless, not_not]
      exact and_congr eq_comm eq_comm

/-! ## Documentation -/

/-- What documentation has in the place of the end of a comment. -/
def blockEndEntity : Text := "*&#47;"

/-- The text that stands in a comment for a given one. -/
def uncloseRest (t : Text) (skip : Nat) : Text := replace.go "*/" blockEndEntity t skip

/-- What is left of a text opens with the character it opened with. -/
theorem head?_uncloseRest (c : CodePoint) (t : Text) :
    (uncloseRest (c :: t) 0).head? = some c := by
  unfold uncloseRest
  rw [replace.go]
  split
  · next h =>
    -- what is exchanged opens with a star, and so does what it is exchanged for
    have hstar : star = c := by
      have hprefix : (star == c && List.isPrefixOf [slash] t) = true := h
      simpa using (Bool.and_eq_true_iff.mp hprefix).1
    rw [← hstar]
    rfl
  · rfl

/-- However much of a match is still to be passed over, the rest of the text is unclosed. -/
theorem unclosed_uncloseRest (t : Text) (skip : Nat) : Unclosed (uncloseRest t skip) := by
  induction t generalizing skip with
  | nil => cases skip <;> exact unclosed_nil
  | cons c t ih =>
    cases skip with
    | succ skip => exact ih skip
    | zero =>
      unfold uncloseRest
      rw [replace.go]
      split
      · refine unclosed_append.mpr ⟨by decide, ih _, ?_⟩
        -- the entity ends with a semicolon
        rintro _ ⟨⟩ d - ⟨hc, -⟩
        exact absurd hc (by decide)
      · next h =>
        refine unclosed_cons.mpr ⟨?_, ih 0⟩
        cases t with
        | nil => exact fun d hd => nomatch hd
        | cons e t =>
          intro d hd
          have hhead : (uncloseRest (e :: t) 0).head? = some d := hd
          rw [head?_uncloseRest] at hhead
          obtain rfl := Option.some.inj hhead
          rintro ⟨rfl, rfl⟩
          exact h rfl

/-- Nothing in printed documentation ends a comment. -/
theorem unclosed_replace (t : Text) : Unclosed (replace "*/" "*&#47;" t) :=
  unclosed_uncloseRest t 0

/-- A part of an unclosed text is unclosed. -/
theorem Unclosed.of_part {s t : Text} (h : Unclosed t) (hs : s <:+: t) : Unclosed s := by
  obtain ⟨before, behind, rfl⟩ := hs
  exact (unclosed_append.mp (unclosed_append.mp h).1).2.1

/-! ## Lines -/

/-- The first line of a text is its beginning. -/
theorem prefix_of_lines_eq_cons {t l : Text} {ls : List Text} (h : lines t = l :: ls) : l <+: t := by
  induction t using lines_induction generalizing l ls with
  | nil => cases h
  | broken t rest _ hlines _ =>
    obtain ⟨rfl, -⟩ := List.cons.inj (hlines.symm.trans h)
    exact List.nil_prefix
  | last c rest _ hlines =>
    obtain ⟨rfl, -⟩ := List.cons.inj (hlines.symm.trans h)
    exact List.prefix_append [c] rest
  | within c rest m ms _ hrest hlines ih =>
    obtain ⟨rfl, -⟩ := List.cons.inj (hlines.symm.trans h)
    exact List.cons_prefix_cons.mpr ⟨rfl, ih hrest⟩

/-- The lines of a text are parts of it. -/
theorem infix_of_mem_lines {t l : Text} (h : l ∈ lines t) : l <:+: t := by
  induction t using lines_induction with
  | nil => cases h
  | broken t rest hsuffix hlines ih =>
    rw [hlines] at h
    rcases List.mem_cons.mp h with rfl | h
    · exact List.nil_prefix.isInfix
    · exact (ih h).trans hsuffix.isInfix
  | last c rest _ hlines =>
    rw [hlines, List.mem_singleton] at h
    rw [h]
    exact (List.prefix_append [c] rest).isInfix
  | within c rest m ms _ hrest hlines ih =>
    rw [hlines] at h
    -- only the first line goes on with the character in front of it
    rcases List.mem_cons.mp h with rfl | h
    · exact (List.cons_prefix_cons.mpr ⟨rfl, prefix_of_lines_eq_cons hrest⟩).isInfix
    · exact List.infix_cons (ih (hrest ▸ List.mem_cons_of_mem m h))

/-- What is printed of a text on a line is a part of the text. -/
theorem infix_of_mem_commentLines {t l : Text} (h : l ∈ commentLines t) : l <:+: t := by
  unfold commentLines at h
  split at h
  · rw [List.mem_singleton.mp h]
    exact List.nil_prefix.isInfix
  · exact infix_of_mem_lines h

/-- A text without a line break. -/
def Unbroken (t : Text) : Prop := ∀ c ∈ t, c.isLineBreak = false

instance (t : Text) : Decidable (Unbroken t) :=
  inferInstanceAs (Decidable (∀ c ∈ t, c.isLineBreak = false))

theorem Unbroken.append {s t : Text} (hs : Unbroken s) (ht : Unbroken t) : Unbroken (s ++ t) :=
  fun c hc => (List.mem_append.mp hc).elim (hs c) (ht c)

theorem Unbroken.not_mem {t : Text} (h : Unbroken t) {c : CodePoint} (hc : c.isLineBreak = true) :
    c ∉ t := by
  intro hm
  rw [h c hm] at hc
  exact Bool.noConfusion hc

/-- The lines of a comment are single lines. -/
theorem unbroken_of_mem_commentLines {t l : Text} (h : l ∈ commentLines t) : Unbroken l := by
  unfold commentLines at h
  split at h
  · rw [List.mem_singleton.mp h]
    exact fun c hc => absurd hc List.not_mem_nil
  · exact not_isLineBreak_of_mem_lines t l h

end Phrasebook.Text
