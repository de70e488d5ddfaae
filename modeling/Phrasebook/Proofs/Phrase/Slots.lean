/-
# Phrasebook.Proofs.Phrase.Slots -- the position of a token is that of its first occurrence

The slots of a phrase are computed by going on with the rest of the tokens and dropping those that
came before.  `FirstAt` says without any order of computation which position a token has, and the
slots are exactly these pairs, in ascending order of the positions.
-/
import Phrasebook.Phrase

namespace Phrasebook

/-! ## First occurrences -/

section FirstAt

variable {α : Type _} {xs : List α} {x y : α} {i j : Nat}

/-- The item stands at a position, and not before it. -/
def FirstAt (xs : List α) (x : α) (i : Nat) : Prop :=
  xs[i]? = some x ∧ ∀ j < i, xs[j]? ≠ some x

instance [DecidableEq α] : Decidable (FirstAt xs x i) := inferInstanceAs (Decidable (_ ∧ _))

theorem FirstAt.mem (h : FirstAt xs x i) : x ∈ xs := List.mem_of_getElem? h.1

theorem FirstAt.lt (h : FirstAt xs x i) : i < xs.length := (List.getElem?_eq_some_iff.mp h.1).1

theorem FirstAt.unique (hi : FirstAt xs x i) (hj : FirstAt xs x j) : i = j := by
  rcases Nat.lt_trichotomy i j with h | h | h
  · exact absurd hi.1 (hj.2 i h)
  · exact h
  · exact absurd hj.1 (hi.2 j h)

/-- An item stands first at the beginning, or else behind an item that differs from it. -/
theorem firstAt_cons :
    FirstAt (y :: xs) x i ↔ y = x ∧ i = 0 ∨ y ≠ x ∧ ∃ j, i = j + 1 ∧ FirstAt xs x j := by
  constructor
  · rintro ⟨hat, hbefore⟩
    cases i with
    | zero => exact Or.inl ⟨Option.some.inj hat, rfl⟩
    | succ j =>
      have hne : y ≠ x := fun heq => hbefore 0 (Nat.succ_pos j) (congrArg some heq)
      exact Or.inr ⟨hne, j, rfl, hat, fun k hk => hbefore (k + 1) (Nat.succ_lt_succ hk)⟩
  · rintro (⟨rfl, rfl⟩ | ⟨hne, j, rfl, hat, hbefore⟩)
    · exact ⟨rfl, fun j hj => absurd hj (Nat.not_lt_zero j)⟩
    · refine ⟨hat, fun k hk => ?_⟩
      cases k with
      | zero => exact fun heq => hne (Option.some.inj heq)
      | succ k => exact hbefore k (Nat.lt_of_succ_lt_succ hk)

theorem exists_firstAt (h : x ∈ xs) : ∃ i, FirstAt xs x i := by
  induction xs with
  | nil => cases h
  | cons y xs ih =>
    by_cases hy : y = x
    · exact ⟨0, firstAt_cons.mpr (Or.inl ⟨hy, rfl⟩)⟩
    · obtain ⟨j, hj⟩ := ih ((List.mem_cons.mp h).resolve_left fun heq => hy heq.symm)
      exact ⟨j + 1, firstAt_cons.mpr (Or.inr ⟨hy, j, rfl, hj⟩)⟩

/-- Without repetitions every occurrence is the first. -/
theorem firstAt_iff_of_nodup (h : xs.Nodup) : FirstAt xs x i ↔ xs[i]? = some x := by
  refine ⟨And.left, fun hat => ?_⟩
  obtain ⟨j, hj⟩ := exists_firstAt (List.mem_of_getElem? hat)
  obtain rfl := (List.getElem?_inj hj.lt h).mp (hj.1.trans hat.symm)
  exact hj

/-- An injective function keeps the first position. -/
theorem FirstAt.map {β : Type _} {f : α → β} (hf : ∀ a b, f a = f b → a = b)
    (h : FirstAt xs x i) : FirstAt (xs.map f) (f x) i := by
  refine ⟨by rw [List.getElem?_map, h.1]; rfl, fun j hj heq => ?_⟩
  rw [List.getElem?_map] at heq
  obtain ⟨z, hz, hzx⟩ := Option.map_eq_some_iff.mp heq
  exact h.2 j hj (hf z x hzx ▸ hz)

end FirstAt

/-! ## The positions of tokens -/

/-- A token is paired with the first position at which it stands. -/
theorem mem_firstPositions_iff {start : Nat} {ts : List Text} {t : Text} {n : Nat} :
    (t, n) ∈ firstPositions start ts ↔ ∃ i, n = start + i ∧ FirstAt ts t i := by
  induction ts generalizing start with
  | nil => simp [firstPositions, FirstAt]
  | cons u us ih =>
    simp only [firstPositions, List.mem_cons, List.mem_filter, ih, firstAt_cons, decide_eq_true_eq,
      Prod.mk.injEq]
    constructor
    · rintro (⟨rfl, rfl⟩ | ⟨⟨i, rfl, hi⟩, hne⟩)
      · exact ⟨0, rfl, Or.inl ⟨rfl, rfl⟩⟩
      · exact ⟨i + 1, by omega, Or.inr ⟨fun heq => hne heq.symm, i, rfl, hi⟩⟩
    · rintro ⟨_, rfl, ⟨rfl, rfl⟩ | ⟨hne, i, rfl, hi⟩⟩
      · exact Or.inl ⟨rfl, rfl⟩
      · exact Or.inr ⟨⟨i, by omega, hi⟩, fun heq => hne heq.symm⟩

/-- The positions ascend, and no token comes again. -/
theorem pairwise_firstPositions (start : Nat) (ts : List Text) :
    (firstPositions start ts).Pairwise fun a b => a.1 ≠ b.1 ∧ a.2 < b.2 := by
  induction ts generalizing start with
  | nil => exact .nil
  | cons u us ih =>
    rw [firstPositions, List.pairwise_cons]
    refine ⟨fun slot hslot => ?_, (ih (start + 1)).filter _⟩
    obtain ⟨hmem, hne⟩ := List.mem_filter.mp hslot
    obtain ⟨i, hi, -⟩ := mem_firstPositions_iff.mp hmem
    exact ⟨fun heq => (of_decide_eq_true hne) heq.symm, by simp only; omega⟩

/-- Leaving out repetitions and leaving out items may be done in either order. -/
theorem eraseDups_filter {α : Type} [BEq α] [LawfulBEq α] (p : α → Bool) (xs : List α) :
    (xs.filter p).eraseDups = xs.eraseDups.filter p := by
  -- The items after the first one are fewer when its repetitions have been left out.
  induction hlength : xs.length using Nat.strongRecOn generalizing xs with
  | ind n ih =>
    subst hlength
    cases xs with
    | nil => rfl
    | cons x xs =>
      have hfewer : (xs.filter fun y => !y == x).length < (x :: xs).length :=
        Nat.lt_succ_of_le (List.length_filter_le _ _)
      have htail := ih _ hfewer _ rfl
      rw [List.eraseDups_cons]
      by_cases hx : p x = true
      · rw [List.filter_cons_of_pos hx, List.filter_cons_of_pos hx, List.eraseDups_cons, ← htail,
          List.filter_filter, List.filter_filter]
        simp only [Bool.and_comm]
      · have hsame : (xs.filter fun y => !y == x).filter p = xs.filter p := by
          rw [List.filter_filter]
          refine List.filter_congr fun y _ => ?_
          by_cases hy : y == x
          · rw [eq_of_beq hy, Bool.eq_false_iff.mpr hx, Bool.false_and]
          · simp [hy]
        rw [List.filter_cons_of_neg hx, List.filter_cons_of_neg hx, ← htail, hsame]

/-- The positions are those of the different tokens, in order of first appearance. -/
theorem firstPositions_eq_map (start : Nat) (ts : List Text) :
    firstPositions start ts = ts.eraseDups.map fun t => (t, start + ts.idxOf t) := by
  induction ts generalizing start with
  | nil => rfl
  | cons u us ih =>
    rw [firstPositions, List.eraseDups_cons, List.map_cons, ih, List.idxOf_cons_self,
      Nat.add_zero, eraseDups_filter, List.filter_map]
    congr 1
    have hfilter : us.eraseDups.filter ((fun slot : Text × Nat => decide (slot.1 ≠ u)) ∘
        fun t => (t, start + 1 + us.idxOf t)) = us.eraseDups.filter fun t => !t == u :=
      List.filter_congr fun t _ => by rw [Bool.eq_iff_iff]; simp
    rw [hfilter]
    refine List.map_congr_left fun t ht => ?_
    have hne : u ≠ t := fun heq => by simp [heq] at ht
    rw [List.idxOf_cons, beq_false_of_ne hne, cond_false]
    congr 1
    omega

/-- The slots of a phrase are its different tokens in order of first appearance, each with its first
index. -/
theorem Phrase.slots_eq_map (p : Phrase) :
    p.slots = p.tokens.eraseDups.map fun t => (t, p.tokens.idxOf t) := by
  simp only [Phrase.slots, firstPositions_eq_map, Nat.zero_add]

theorem Phrase.mem_slots_iff {p : Phrase} {t : Text} {i : Nat} :
    (t, i) ∈ p.slots ↔ FirstAt p.tokens t i := by
  simp [Phrase.slots, mem_firstPositions_iff]

end Phrasebook
