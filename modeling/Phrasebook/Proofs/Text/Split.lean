/-
# Phrasebook.Proofs.Text.Split -- cutting a text at a separator is exact

`Text.split` is the splitting of lists, so its laws are those of the library: joining the pieces
gives the text back, and pieces that do not hold the separator are found again.  Lines are such
pieces: `unlines` ends each with a newline, and the text determines lines that hold none.
-/
import Phrasebook.Text

namespace Phrasebook.Text

variable {sep : CodePoint}

/-- Splitting a text is splitting the list of its code points. -/
theorem split_eq_splitOn (sep : CodePoint) (t : Text) : split sep t = t.splitOn sep := by
  induction t with
  | nil => rfl
  | cons c cs ih =>
    rw [List.splitOn_cons_eq_if_modifyHead, split, ih]
    by_cases h : c = sep
    · simp [h]
    · cases hs : cs.splitOn sep with
      | nil => exact absurd hs (List.splitOn_ne_nil sep cs)
      | cons piece pieces => simp [h]

/-- A beginning without the separator is the first piece. -/
theorem split_append_cons {s : Text} (h : sep ∉ s) (t : Text) :
    split sep (s ++ sep :: t) = s :: split sep t := by
  induction s with
  | nil => rw [List.nil_append, split, if_pos rfl]
  | cons c s ih =>
    have hc : c ≠ sep := fun heq => h (heq ▸ List.mem_cons_self ..)
    have hs : sep ∉ s := fun hm => h (List.mem_cons_of_mem c hm)
    rw [List.cons_append, split, if_neg hc, ih hs]

/-- The pieces of a text, joined again, are the text. -/
theorem join_split (sep : CodePoint) (t : Text) : join [sep] (split sep t) = t := by
  rw [split_eq_splitOn]
  exact List.intercalate_splitOn sep

/-- A text is determined by its pieces. -/
theorem split_injective {s t : Text} (h : split sep s = split sep t) : s = t := by
  rw [← join_split sep s, h, join_split]

/-- Pieces without the separator are found again. -/
theorem split_join {pieces : List Text} (hne : pieces ≠ []) (h : ∀ p ∈ pieces, sep ∉ p) :
    split sep (join [sep] pieces) = pieces := by
  rw [split_eq_splitOn]
  exact List.splitOn_intercalate sep h hne

/-- What appending keeps holds of joined pieces, if it holds of these and of the separator. -/
theorem join_of_append {P : Text → Prop} (hnil : P []) (happend : ∀ {s t}, P s → P t → P (s ++ t))
    {sep : Text} (hsep : P sep) {pieces : List Text} (h : ∀ p ∈ pieces, P p) :
    P (join sep pieces) := by
  induction pieces with
  | nil => exact hnil
  | cons p ps ih =>
    obtain ⟨hp, hps⟩ := List.forall_mem_cons.mp h
    cases ps with
    | nil =>
      rw [join, List.intercalate_singleton]
      exact hp
    | cons q qs =>
      rw [join, List.intercalate_cons_cons]
      exact happend (happend hp hsep) (ih hps)

/-- The first pieces, joined, are the beginning of all of them. -/
theorem join_prefix (sep : Text) {pieces more : List Text} (h : pieces <+: more) :
    join sep pieces <+: join sep more := by
  obtain ⟨rest, rfl⟩ := h
  induction pieces with
  | nil => exact List.nil_prefix
  | cons piece pieces ih =>
    cases pieces with
    | nil =>
      cases rest with
      | nil => exact List.prefix_rfl
      | cons next rest => simp [join, List.intercalate, List.intersperse]
    | cons next pieces =>
      have hnext := List.prefix_append_right_inj (piece ++ sep) |>.mpr ih
      simpa [join, List.intercalate, List.intersperse] using hnext

/-- A code point of a text is the separator or stands in one of the pieces. -/
theorem eq_or_mem_piece (sep : CodePoint) {t : Text} {c : CodePoint} (h : c ∈ t) :
    c = sep ∨ ∃ piece ∈ split sep t, c ∈ piece := by
  induction t with
  | nil => simp at h
  | cons d ds ih =>
    by_cases hd : d = sep
    · rw [split, if_pos hd]
      rcases List.mem_cons.mp h with rfl | h
      · exact Or.inl hd
      · rcases ih h with hc | ⟨piece, hp, hc⟩
        · exact Or.inl hc
        · exact Or.inr ⟨piece, List.mem_cons_of_mem [] hp, hc⟩
    · rw [split, if_neg hd]
      cases hs : split sep ds with
      | nil => exact absurd hs (split_ne_nil sep ds)
      | cons p ps =>
        rcases List.mem_cons.mp h with rfl | h
        · exact Or.inr ⟨c :: p, List.mem_cons_self .., List.mem_cons_self ..⟩
        · rcases ih h with hc | ⟨piece, hp, hc⟩
          · exact Or.inl hc
          · rw [hs] at hp
            rcases List.mem_cons.mp hp with rfl | hp
            · exact Or.inr ⟨d :: piece, List.mem_cons_self .., List.mem_cons_of_mem d hc⟩
            · exact Or.inr ⟨piece, List.mem_cons_of_mem _ hp, hc⟩

/-- A beginning all of one class, and what follows it with something else, are determined by a
list. -/
theorem append_run_inj {α : Type} {p : α → Prop} {xs ys rest rest' : List α} (hx : ∀ x ∈ xs, p x)
    (hy : ∀ y ∈ ys, p y) (hr : ∀ z ∈ rest.head?, ¬ p z) (hr' : ∀ z ∈ rest'.head?, ¬ p z)
    (h : xs ++ rest = ys ++ rest') : xs = ys ∧ rest = rest' := by
  induction xs generalizing ys with
  | nil =>
    cases ys with
    | nil => exact ⟨rfl, h⟩
    | cons y ys =>
      obtain rfl : rest = y :: (ys ++ rest') := h
      exact absurd (hy y (List.mem_cons_self ..)) (hr y rfl)
  | cons x xs ih =>
    cases ys with
    | nil =>
      obtain rfl : x :: (xs ++ rest) = rest' := h
      exact absurd (hx x (List.mem_cons_self ..)) (hr' x rfl)
    | cons y ys =>
      obtain ⟨rfl, htail⟩ := List.cons.inj h
      obtain ⟨rfl, hrest⟩ := ih (fun z hz => hx z (List.mem_cons_of_mem x hz))
        (fun z hz => hy z (List.mem_cons_of_mem x hz)) htail
      exact ⟨rfl, hrest⟩

/-- What stands before the first separator, and what follows it, are determined by a list. -/
theorem append_sep_inj {α : Type} {sep : α} {xs ys rest rest' : List α} (hx : sep ∉ xs)
    (hy : sep ∉ ys) (h : xs ++ sep :: rest = ys ++ sep :: rest') : xs = ys ∧ rest = rest' := by
  have hne : ∀ {zs : List α}, sep ∉ zs → ∀ z ∈ zs, z ≠ sep := fun hsep z hz heq =>
    hsep (heq ▸ hz)
  have hend : ∀ {zs : List α}, ∀ z ∈ (sep :: zs).head?, ¬ z ≠ sep := fun z hz hzsep =>
    hzsep (Option.some.inj hz).symm
  obtain ⟨hbefore, hafter⟩ := append_run_inj (hne hx) (hne hy) hend hend h
  exact ⟨hbefore, (List.cons.inj hafter).2⟩

/-! ## Lines as one text -/

/-- A text without a newline. -/
def OneLine (t : Text) : Prop := (.scalar '\n' : CodePoint) ∉ t

instance (t : Text) : Decidable (OneLine t) :=
  inferInstanceAs (Decidable ((.scalar '\n' : CodePoint) ∉ t))

theorem OneLine.append {s t : Text} (hs : OneLine s) (ht : OneLine t) : OneLine (s ++ t) :=
  fun hm => (List.mem_append.mp hm).elim hs ht

theorem OneLine.flatMap {α : Type} {f : α → Text} {xs : List α} (h : ∀ x ∈ xs, OneLine (f x)) :
    OneLine (xs.flatMap f) := by
  intro hm
  obtain ⟨x, hx, hm⟩ := List.mem_flatMap.mp hm
  exact h x hx hm

theorem OneLine.join {sep : Text} (hsep : OneLine sep) {pieces : List Text}
    (h : ∀ p ∈ pieces, OneLine p) : OneLine (Text.join sep pieces) :=
  join_of_append List.not_mem_nil OneLine.append hsep h

/-- Lines as one text, with a newline after each. -/
def unlines (ls : List Text) : Text := ls.flatMap fun l => l ++ "\n"

theorem unlines_cons (l : Text) (ls : List Text) :
    unlines (l :: ls) = l ++ (.scalar '\n' : CodePoint) :: unlines ls := by
  rw [unlines, List.flatMap_cons, List.append_assoc]
  rfl

theorem unlines_append (xs ys : List Text) : unlines (xs ++ ys) = unlines xs ++ unlines ys :=
  List.flatMap_append

theorem unlines_flatMap {α : Type} (f : α → List Text) (xs : List α) :
    unlines (xs.flatMap f) = xs.flatMap fun x => unlines (f x) :=
  List.flatMap_assoc

/-- Newlines between lines and a last one are a newline after each. -/
theorem join_append_newline {ls : List Text} (hne : ls ≠ []) :
    join "\n" ls ++ "\n" = unlines ls := by
  induction ls with
  | nil => exact absurd rfl hne
  | cons l ls ih =>
    cases ls with
    | nil => rw [join, List.intercalate_singleton, unlines, List.flatMap_singleton]
    | cons m ms =>
      have htail := ih (List.cons_ne_nil m ms)
      rw [join, List.intercalate_cons_cons, List.append_assoc]
      show l ++ "\n" ++ (join "\n" (m :: ms) ++ "\n") = _
      rw [htail]
      rfl

/-- Lines that are ended by a newline each have nothing after the last one. -/
theorem split_unlines {ls : List Text} (h : ∀ l ∈ ls, OneLine l) :
    split '\n' (unlines ls) = ls ++ [[]] := by
  have hjoin : join [(.scalar '\n' : CodePoint)] (ls ++ [[]]) = unlines ls := by
    induction ls with
    | nil => rfl
    | cons l ls ih =>
      have htail := ih fun m hm => h m (List.mem_cons_of_mem l hm)
      rw [unlines_cons, ← htail]
      cases ls with
      | nil => simp [join, List.intercalate, List.intersperse]
      | cons m ms => rfl
  have hpieces : ∀ p ∈ ls ++ [[]], (.scalar '\n' : CodePoint) ∉ p := by
    intro p hp
    rcases List.mem_append.mp hp with hp | hp
    · exact h p hp
    · rw [List.mem_singleton.mp hp]
      exact List.not_mem_nil
  rw [← hjoin]
  exact split_join (List.append_ne_nil_of_right_ne_nil ls (List.cons_ne_nil _ _)) hpieces

/-- Lines that hold no newline are found again. -/
theorem unlines_injective {xs ys : List Text} (hx : ∀ l ∈ xs, OneLine l) (hy : ∀ l ∈ ys, OneLine l)
    (h : unlines xs = unlines ys) : xs = ys := by
  have hsplit := congrArg (split '\n') h
  rw [split_unlines hx, split_unlines hy] at hsplit
  exact List.append_cancel_right hsplit

end Phrasebook.Text
