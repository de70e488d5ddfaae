/-
# Phrasebook.Proofs.Text.Order -- the order of texts is linear

Texts are compared code point by code point.  Different code points have different numbers, a lone
surrogate never that of a character, so that texts which precede each other are the same.  A list of
texts therefore has one sorted form, whatever order it is given in.
-/
import Phrasebook.Text

namespace Phrasebook

/-- A code point is known by its number. -/
theorem CodePoint.val_injective {c d : CodePoint} (h : c.val = d.val) : c = d := by
  cases c with
  | scalar a =>
    cases d with
    | scalar b => rw [Char.toNat_inj.mp h]
    | surrogate u =>
      have ha : a.toNat < 0xD800 ∨ 0xDFFF < a.toNat ∧ a.toNat < 0x110000 := a.valid
      have hval : a.toNat = 0xD800 + u.val := h
      omega
  | surrogate u =>
    cases d with
    | scalar b =>
      have hb : b.toNat < 0xD800 ∨ 0xDFFF < b.toNat ∧ b.toNat < 0x110000 := b.valid
      have hval : 0xD800 + u.val = b.toNat := h
      omega
    | surrogate w =>
      have hval : 0xD800 + u.val = 0xD800 + w.val := h
      have huw : u = w := by omega
      rw [huw]

namespace Text

/-- The order of two texts is that of their first code points, or else that of what follows. -/
theorem le_cons_iff {a b : CodePoint} {as bs : Text} :
    le (a :: as) (b :: bs) = true ↔ a.val < b.val ∨ a = b ∧ le as bs = true := by
  rw [le]
  by_cases h : a.val = b.val
  · rw [if_pos h]
    obtain rfl := CodePoint.val_injective h
    simp
  · rw [if_neg h]
    have hne : a ≠ b := fun hab => h (congrArg CodePoint.val hab)
    simp [hne]

theorem le_total (s t : Text) : le s t = true ∨ le t s = true := by
  induction s generalizing t with
  | nil => exact .inl rfl
  | cons a as ih =>
    cases t with
    | nil => exact .inr rfl
    | cons b bs =>
      rw [le_cons_iff, le_cons_iff]
      rcases Nat.lt_trichotomy a.val b.val with hlt | heq | hgt
      · exact .inl (.inl hlt)
      · have hab := CodePoint.val_injective heq
        exact (ih bs).imp (fun h => .inr ⟨hab, h⟩) fun h => .inr ⟨hab.symm, h⟩
      · exact .inr (.inl hgt)

theorem le_trans {s t u : Text} (hst : le s t = true) (htu : le t u = true) : le s u = true := by
  induction s generalizing t u with
  | nil => rfl
  | cons a as ih =>
    cases t with
    | nil => cases hst
    | cons b bs =>
      cases u with
      | nil => cases htu
      | cons c cs =>
        rw [le_cons_iff] at hst htu ⊢
        rcases hst with hab | ⟨rfl, hst⟩
        · rcases htu with hbc | ⟨rfl, -⟩
          · exact .inl (Nat.lt_trans hab hbc)
          · exact .inl hab
        · exact htu.imp_right fun h => ⟨h.1, ih hst h.2⟩

theorem le_antisymm {s t : Text} (hst : le s t = true) (hts : le t s = true) : s = t := by
  induction s generalizing t with
  | nil =>
    cases t with
    | nil => rfl
    | cons b bs => cases hts
  | cons a as ih =>
    cases t with
    | nil => cases hst
    | cons b bs =>
      rw [le_cons_iff] at hst hts
      rcases hst with hab | ⟨rfl, hst⟩
      · rcases hts with hba | ⟨rfl, -⟩
        · omega
        · omega
      · rcases hts with hlt | ⟨-, hts⟩
        · omega
        · rw [ih hst hts]

/-- Texts are sorted to the same list in whatever order they are given. -/
theorem sort_eq_of_perm {ts us : List Text} (h : ts.Perm us) : sort ts = sort us := by
  have htotal : ∀ s t : Text, (le s t || le t s) = true := by
    intro s t
    rw [Bool.or_eq_true]
    exact le_total s t
  have hsorted : ∀ l : List Text, (sort l).Pairwise fun s t => le s t = true :=
    List.pairwise_mergeSort (fun _ _ _ => le_trans) htotal
  have hperm : (sort ts).Perm (sort us) :=
    (List.mergeSort_perm ts le).trans (h.trans (List.mergeSort_perm us le).symm)
  exact List.Perm.eq_of_pairwise (fun _ _ _ _ => le_antisymm) (hsorted ts) (hsorted us) hperm

end Text

end Phrasebook
