/-
# Phrasebook.Proofs.Java.Modifier -- the canonical order of modifiers

Modifiers are ordered by their ranks.  A list in ascending order is fixed by how often it holds each
modifier, and one in strictly ascending order by which ones it holds.  So `sorted` gives the only
ascending list with the given multiplicities, and `normalize` the only strictly ascending one with
the given members; the order in which modifiers are given is of no account to either.

The two agree: without its repetitions, the former is the latter (`dedup_sorted`).
-/
import Phrasebook.Java.Modifier
import Mathlib.Data.List.Dedup
import Mathlib.Data.List.Sort

namespace Phrasebook.Java.Modifier

/-! ## The order -/

/-- The place of a modifier in the canonical order. -/
def rank : Modifier → Nat
  | isPublic => 1
  | isProtected => 2
  | isPrivate => 3
  | isAbstract => 4
  | isStatic => 5
  | isFinal => 6

theorem rank_injective : Function.Injective rank := by
  intro a b
  cases a <;> cases b <;> decide

instance : PartialOrder Modifier := PartialOrder.lift rank rank_injective

instance : DecidableLT Modifier := fun a b => inferInstanceAs (Decidable (a.rank < b.rank))

theorem pairwise_all : all.Pairwise (· < ·) := by decide

/-! ## Each as often as it is given -/

theorem perm_sorted (ms : List Modifier) : (sorted ms).Perm ms :=
  List.perm_iff_count.mpr (count_sorted ms)

theorem pairwise_sorted (ms : List Modifier) : (sorted ms).Pairwise (· ≤ ·) := by
  rw [sorted, List.pairwise_flatMap]
  constructor
  · intro m _
    exact List.pairwise_replicate.mpr (Or.inr le_rfl)
  · refine pairwise_all.imp fun hlt x hx y hy => ?_
    rw [List.eq_of_mem_replicate hx, List.eq_of_mem_replicate hy]
    exact hlt.le

/-- There is one way to put modifiers in ascending order. -/
theorem eq_sorted {ms ws : List Modifier} (hperm : ws.Perm ms) (hws : ws.Pairwise (· ≤ ·)) :
    ws = sorted ms :=
  List.Perm.eq_of_pairwise' hws (pairwise_sorted ms) (hperm.trans (perm_sorted ms).symm)

theorem sorted_perm {ms ms' : List Modifier} (h : ms.Perm ms') : sorted ms = sorted ms' :=
  eq_sorted ((perm_sorted ms).trans h) (pairwise_sorted ms)

/-! ## Each once -/

theorem pairwise_normalize (ms : List Modifier) : (normalize ms).Pairwise (· < ·) :=
  pairwise_all.filter _

/-- The modifiers `ns` are those among `ms`, in strictly ascending order. -/
structure IsNormalForm (ms ns : List Modifier) : Prop where
  mem_iff : ∀ m, m ∈ ns ↔ m ∈ ms
  ascending : ns.Pairwise (· < ·)

/-- There is one way to put modifiers in strictly ascending order. -/
theorem isNormalForm_iff {ms ns : List Modifier} : IsNormalForm ms ns ↔ ns = normalize ms := by
  constructor
  · intro h
    refine h.ascending.eq_of_mem_iff (pairwise_normalize ms) fun m => ?_
    rw [h.mem_iff, mem_normalize]
  · rintro rfl
    exact ⟨mem_normalize ms, pairwise_normalize ms⟩

theorem normalize_eq_iff {ms ms' : List Modifier} :
    normalize ms = normalize ms' ↔ ∀ m, m ∈ ms ↔ m ∈ ms' := by
  constructor
  · intro h m
    rw [← mem_normalize ms, h, mem_normalize]
  · intro h
    refine isNormalForm_iff.mp ⟨fun m => ?_, pairwise_normalize ms⟩
    rw [mem_normalize, h]

theorem normalize_normalize (ms : List Modifier) : normalize (normalize ms) = normalize ms :=
  normalize_eq_iff.mpr (mem_normalize ms)

theorem sorted_normalize (ms : List Modifier) : sorted (normalize ms) = normalize ms :=
  (eq_sorted (List.Perm.refl _) ((pairwise_normalize ms).imp le_of_lt)).symm

/-- Without repetitions, the modifiers in ascending order are those in strictly ascending order. -/
theorem dedup_sorted (ms : List Modifier) : (sorted ms).dedup = normalize ms := by
  have hle : (sorted ms).dedup.Pairwise (· ≤ ·) :=
    (pairwise_sorted ms).sublist (List.dedup_sublist _)
  have hlt : (sorted ms).dedup.Pairwise (· < ·) :=
    (hle.and (List.nodup_dedup _)).imp fun ⟨h, hne⟩ => lt_of_le_of_ne h hne
  exact isNormalForm_iff.mp ⟨fun m => List.mem_dedup.trans (perm_sorted ms).mem_iff, hlt⟩

/-! ## Words -/

/-- The words of modifiers as they are given, each followed by a space. -/
def words (ms : List Modifier) : Text := ms.flatMap fun m => m.keyword ++ " "

theorem text_eq_words (ms : List Modifier) : text ms = words (sorted ms) := rfl

end Phrasebook.Java.Modifier
