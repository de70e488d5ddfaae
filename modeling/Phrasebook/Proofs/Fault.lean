/-
# Phrasebook.Proofs.Fault -- messages that show something

What the user is told is never blank.  Every message begins with words of its own or has them behind
a number or a path, whatever the names, paths and texts are that it is about.
-/
import Mathlib.Data.List.TakeWhile
import Phrasebook.Fault
import Phrasebook.Text.Lines

namespace Phrasebook

namespace Text

/-- A text shows something. -/
def Visible (t : Text) : Prop := ∃ c ∈ t, c.isBlank = false

instance (t : Text) : Decidable t.Visible := inferInstanceAs (Decidable (∃ c ∈ t, _))

variable {s t : Text}

theorem Visible.append_left (h : s.Visible) (t : Text) : (s ++ t).Visible := by
  obtain ⟨c, hc, hblank⟩ := h
  exact ⟨c, List.mem_append_left t hc, hblank⟩

theorem Visible.append_right (s : Text) (h : t.Visible) : (s ++ t).Visible := by
  obtain ⟨c, hc, hblank⟩ := h
  exact ⟨c, List.mem_append_right s hc, hblank⟩

end Text

open Text (Visible)

theorem Mismatch.message_visible (m : Mismatch) : m.message.Visible := by
  cases m with
  | expected what found =>
    have hbegin : ("expected " : Text).Visible := by decide
    exact ((hbegin.append_left what).append_left _).append_left found
  | notOfClass found name =>
    have hbegin : ("cannot coerce " : Text).Visible := by decide
    exact ((hbegin.append_left found).append_left _).append_left name
  | unknownKeys names =>
    have hbegin : ("unknown key(s): " : Text).Visible := by decide
    exact hbegin.append_left _
  | unwritableKeys => decide
  | missingField => decide
  | invalidModel name faults =>
    have hmiddle : (" validation error(s) for " : Text).Visible := by decide
    exact (hmiddle.append_right _).append_left name
  | noAlternative => decide

theorem ContentFlaw.message_visible (flaw : ContentFlaw) : flaw.message.Visible := by
  cases flaw with
  | notMapping found =>
    have hbegin : ("expected a mapping at top level, got " : Text).Visible := by decide
    exact hbegin.append_left found
  | mismatch fault =>
    show fault.message.Visible
    unfold DecodeFault.message
    split
    · exact fault.mismatch.message_visible
    · exact fault.mismatch.message_visible.append_right _
  | bothForms => decide
  | missingPackage => decide

theorem InputFlaw.message_visible (flaw : InputFlaw) : flaw.message.Visible := by
  cases flaw with
  | notFound => decide
  | settingsNotFound => decide
  | unreadable e =>
    have hbegin : ("cannot read file: " : Text).Visible := by decide
    exact hbegin.append_left _
  | malformed problem =>
    have hbegin : ("invalid YAML: " : Text).Visible := by decide
    exact hbegin.append_left problem
  | content flaw => exact flaw.message_visible

theorem ChoiceFlaw.message_visible (flaw : ChoiceFlaw) : flaw.message.Visible := by
  cases flaw with
  | noSuchPackage package =>
    have hbegin : ("package '" : Text).Visible := by decide
    exact (hbegin.append_left package).append_left _
  | severalPackages packages =>
    have hbegin : ("several packages (" : Text).Visible := by decide
    exact (hbegin.append_left _).append_left _

theorem aboutFile_visible (path : Option Path) {message : Text} (h : message.Visible) :
    (aboutFile path message).Visible := by
  cases path with
  | none => exact h
  | some path => exact h.append_right _

/-- Every message for the user shows something. -/
theorem UserFault.message_visible (fault : UserFault) : fault.message.Visible := by
  cases fault with
  | phraseFile path flaw => exact aboutFile_visible path flaw.message_visible
  | settings path flaw => exact aboutFile_visible path flaw.message_visible
  | name fault =>
    have hbegin : ("Invalid " : Text).Visible := by decide
    exact (((hbegin.append_left _).append_left _).append_left _).append_left _ |>.append_left _
  | output path e =>
    have hbegin : ("Failed to write " : Text).Visible := by decide
    exact ((hbegin.append_left _).append_left _).append_left _
  | choice source flaw => exact aboutFile_visible (some source) flaw.message_visible

end Phrasebook
