/-
# Phrasebook.Proofs.Text.Numeral -- decimal numbers in text

A number is written with digits alone and is read back from them.  The converse is not true of every
run of digits, for zeros may stand in front: a number is written without them.
-/
import Phrasebook.Text

namespace Phrasebook.Text

/-! ## Written numbers -/

/-- The digits of a number are digits. -/
theorem isDigit_ofNat (n : Nat) : ∀ c ∈ ofNat n, c.isDigit = true := by
  intro c hc
  obtain ⟨d, hd, rfl⟩ := List.mem_map.mp hc
  exact Nat.isDigit_of_mem_toDigits (by decide) (by decide) hd

/-- Digits that are read after the number `acc` continue it. -/
theorem toNat?_foldl {digits : List Char} (h : ∀ d ∈ digits, d.isDigit = true) (acc : Nat) :
    (digits.map CodePoint.scalar).foldl (fun acc c => do
      let n ← acc
      match c with
      | .scalar d => if d.isDigit then some (10 * n + (d.toNat - 48)) else none
      | .surrogate _ => none) (some acc) = some (Nat.ofDigitChars 10 digits acc) := by
  induction digits generalizing acc with
  | nil => rfl
  | cons d ds ih =>
    have hd : d.isDigit = true := h d (List.mem_cons_self ..)
    have htail := ih (fun e he => h e (List.mem_cons_of_mem d he)) (10 * acc + (d.toNat - 48))
    rw [List.map_cons, List.foldl_cons]
    simp only [bind, Option.bind, hd, if_true]
    exact htail

/-- A number is read back from its digits. -/
theorem toNat?_ofNat (n : Nat) : toNat? (ofNat n) = some n := by
  have hdigits : ∀ d ∈ Nat.toDigits 10 n, d.isDigit = true := fun d hd =>
    Nat.isDigit_of_mem_toDigits (by decide) (by decide) hd
  have hread := toNat?_foldl hdigits 0
  rw [Nat.ofDigitChars_toDigits (by decide) (by decide)] at hread
  have hne : ofNat n ≠ [] := fun h => Nat.toDigits_ne_nil (List.map_eq_nil_iff.mp h)
  unfold toNat?
  split
  · next h => exact absurd h hne
  · exact hread

/-- Only zero is written with a zero in front. -/
theorem head?_ofNat {n : Nat} (h : (ofNat n).head? = some (.scalar '0')) : n = 0 := by
  induction n using Nat.strongRecOn with
  | ind n ih =>
    by_cases hn : n < 10
    · rw [ofNat, Nat.toDigits_of_lt_base hn] at h
      have hdigit : ∀ k < 10, (CodePoint.scalar k.digitChar = .scalar '0') → k = 0 := by decide
      exact hdigit n hn (Option.some.inj h)
    · -- The first digit is that of the number without its last digit, which is not zero.
      have hfirst : ofNat n = ofNat (n / 10) ++ [.scalar (n % 10).digitChar] := by
        rw [ofNat, ofNat, Nat.toDigits_of_base_le (by decide) (Nat.le_of_not_lt hn), List.map_append]
        rfl
      have hne : ofNat (n / 10) ≠ [] := fun h => Nat.toDigits_ne_nil (List.map_eq_nil_iff.mp h)
      rw [hfirst, List.head?_append, Option.or_of_isSome (List.isSome_head?.mpr hne)] at h
      have hzero := ih (n / 10) (by omega) h
      omega

/-! ## Runs of digits -/

/-- A run that is read on as a number consists of digits, and a number has been read before it. -/
theorem isDigit_of_foldl {t : Text} {acc : Option Nat} {n : Nat}
    (h : t.foldl (fun acc c => do
      let n ← acc
      match c with
      | .scalar d => if d.isDigit then some (10 * n + (d.toNat - 48)) else none
      | .surrogate _ => none) acc = some n) :
    acc.isSome ∧ ∀ c ∈ t, c.isDigit = true := by
  induction t generalizing acc with
  | nil => exact ⟨Option.isSome_of_eq_some h, fun c hc => absurd hc List.not_mem_nil⟩
  | cons c t ih =>
    rw [List.foldl_cons] at h
    obtain ⟨hstep, htail⟩ := ih h
    obtain ⟨m, hm⟩ := Option.isSome_iff_exists.mp hstep
    obtain ⟨k, rfl, hc⟩ := Option.bind_eq_some_iff.mp hm
    refine ⟨rfl, List.forall_mem_cons.mpr ⟨?_, htail⟩⟩
    cases c with
    | surrogate u => cases hc
    | scalar d =>
      by_cases hd : d.isDigit = true
      · exact hd
      · dsimp only at hc
        rw [if_neg hd] at hc
        cases hc

/-- What is read as a number is a run of digits, and not empty. -/
theorem isDigit_of_toNat? {t : Text} {n : Nat} (h : t.toNat? = some n) :
    t ≠ [] ∧ ∀ c ∈ t, c.isDigit = true := by
  unfold toNat? at h
  split at h
  · cases h
  · next hne => exact ⟨hne, (isDigit_of_foldl h).2⟩

end Phrasebook.Text
