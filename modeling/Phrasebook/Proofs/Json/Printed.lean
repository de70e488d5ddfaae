/-
# Phrasebook.Proofs.Json.Printed -- a printed value is read back

The document that a value is printed as denotes the value, and nothing else.  So escapes end no
string early, the layout is white space where the grammar allows it, and two values are never printed
alike.
-/
import Mathlib.Data.List.Forall2
import Phrasebook.Proofs.Json.Unambiguous

namespace Phrasebook.Json

/-! ## Strings -/

/-- The code point with the number of a code point is that code point. -/
theorem ofNat?_val (c : CodePoint) : CodePoint.ofNat? c.val = some c := by
  cases c with
  | scalar ch => exact dif_pos ch.valid
  | surrogate u =>
    have hval : (CodePoint.surrogate u).val = 0xD800 + u.val := rfl
    have hnot : ¬ (0xD800 + u.val).isValidChar := by
      unfold Nat.isValidChar
      omega
    rw [hval, CodePoint.ofNat?, dif_neg hnot, Nat.add_sub_cancel_left, if_pos u.isLt]
    exact congrArg (fun u => some (CodePoint.surrogate u)) (Fin.ext (Nat.mod_eq_of_lt u.isLt))

/-- A number that is no half of a pair is a code point of its own. -/
theorem joined_unit {n : Nat} (h : n < 0xD800) (ps : List Piece) :
    joined (.unit n :: ps) = (CodePoint.ofNat? n).toList ++ joined ps := by
  cases ps with
  | nil => rfl
  | cons p ps =>
    cases p with
    | point c => rfl
    | unit low =>
      rw [joined, if_neg (by omega)]

/-- Four hexadecimal digits of a control character denote its number. -/
theorem digits?_hex {n : Nat} (h : n < 0x20) :
    (Text.hex 4 n).length = 4 ∧ (Text.hex 4 n).digits? 16 = some n := by
  have hall : ∀ k < 0x20, (Text.hex 4 k).length = 4 ∧ (Text.hex 4 k).digits? 16 = some k := by
    decide
  exact hall n h

/-- A code point has a short escape, or is a control character and written with its number, or stands
for itself. -/
theorem escape_cases (c : CodePoint) :
    (∃ mark, shortEscape? mark = some c ∧ escape c = [escapeMark, mark]) ∨
      (c.val < 0x20 ∧ escape c = escapeMark :: .scalar 'u' :: Text.hex 4 c.val) ∨
      (0x20 ≤ c.val ∧ c ≠ quoteMark ∧ c ≠ escapeMark) ∧ escape c = [c] := by
  unfold escape
  split
  · exact Or.inl ⟨.scalar '"', rfl, rfl⟩
  · exact Or.inl ⟨.scalar '\\', rfl, rfl⟩
  · exact Or.inl ⟨.scalar 'n', rfl, rfl⟩
  · exact Or.inl ⟨.scalar 'r', rfl, rfl⟩
  · exact Or.inl ⟨.scalar 't', rfl, rfl⟩
  · exact Or.inl ⟨.scalar 'b', rfl, rfl⟩
  · exact Or.inl ⟨.scalar 'f', rfl, rfl⟩
  · next hquote hmark _ _ _ _ _ =>
    split
    · next hcontrol => exact Or.inr (Or.inl ⟨hcontrol, rfl⟩)
    · next hvisible =>
      exact Or.inr (Or.inr ⟨⟨by omega, fun h => hquote h, fun h => hmark h⟩, rfl⟩)

/-- A code point in a string is a piece that stands for it. -/
theorem isPiece_escape (c : CodePoint) :
    ∃ p, IsPiece (escape c) p ∧ ∀ ps, joined (p :: ps) = c :: joined ps := by
  rcases escape_cases c with ⟨mark, hmark, hescape⟩ | ⟨hcontrol, hescape⟩ | ⟨hplain, hescape⟩
  · rw [hescape]
    exact ⟨.point c, .short hmark, fun _ => rfl⟩
  · obtain ⟨hlength, hdigits⟩ := digits?_hex hcontrol
    rw [hescape]
    refine ⟨.unit c.val, .long hlength hdigits, fun ps => ?_⟩
    rw [joined_unit (by omega), ofNat?_val]
    rfl
  · obtain ⟨hvisible, hquote, hmark⟩ := hplain
    rw [hescape]
    exact ⟨.point c, .plain hvisible hquote hmark, fun _ => rfl⟩

/-- A text in quotes denotes the text. -/
theorem quoted_quote (t : Text) : Quoted (quote t) t := by
  have hpieces : ∃ ps, ArePieces (t.flatMap escape) ps ∧ joined ps = t := by
    induction t with
    | nil => exact ⟨[], .nil, rfl⟩
    | cons c t ih =>
      obtain ⟨ps, hps, hjoined⟩ := ih
      obtain ⟨p, hp, hpiece⟩ := isPiece_escape c
      exact ⟨p :: ps, .cons hp hps, by rw [hpiece, hjoined]⟩
  obtain ⟨ps, hps, hjoined⟩ := hpieces
  have hquoted := Quoted.mk hps
  rw [hjoined] at hquoted
  exact hquoted

/-! ## Numbers -/

theorem isWhole_ofNat (n : Nat) : IsWhole (Text.ofNat n) n := by
  refine ⟨Text.toNat?_ofNat n, fun h => ?_⟩
  rw [Text.head?_ofNat h]
  rfl

theorem unsigned_ofNat (n : Nat) : Unsigned (Text.ofNat n) n := by
  have h := Unsigned.mk (isWhole_ofNat n) Fraction.none Exponent.none
  rwa [List.append_nil, List.append_nil, zpow_zero, mul_one, add_zero] at h

/-- An integer is written as the number it is. -/
theorem numeral_ofInt (n : Int) : Numeral (Text.ofInt n) n := by
  cases n with
  | ofNat n => exact .plain (unsigned_ofNat n)
  | negSucc n =>
    rw [Int.cast_negSucc]
    exact .negative (unsigned_ofNat (n + 1))

/-! ## Lists and objects -/

theorem isSpace_newline (level : Nat) : IsSpace (newline level) := by
  refine List.forall_mem_cons.mpr ⟨by decide, fun c hc => ?_⟩
  rw [List.eq_of_mem_replicate hc]
  decide

section Brackets

variable {α : Type} {item : Text → α → Prop} {ts : List Text} {as : List α}

/-- Texts that are of a rule whatever white space is around them, joined by commas and white
space. -/
theorem sequence_join {w w' : Text} (hw : IsSpace w) (hw' : IsSpace w')
    (h : List.Forall₂ (fun t a => ∀ v v', IsSpace v → IsSpace v' → item (v ++ (t ++ v')) a) ts as)
    (hne : ts ≠ []) :
    Sequence item (w ++ (Text.join (.scalar ',' :: w) ts ++ w')) as := by
  induction h with
  | nil => exact absurd rfl hne
  | @cons t a ts as hitem hrest ih =>
    cases hrest with
    | nil =>
      rw [Text.join, List.intercalate_singleton]
      exact .last (hitem w w' hw hw')
    | @cons t' a' ts as hitem' hrest =>
      have hsplit : w ++ (Text.join (.scalar ',' :: w) (t :: t' :: ts) ++ w') =
          w ++ (t ++ []) ++ .scalar ',' ::
            (w ++ (Text.join (.scalar ',' :: w) (t' :: ts) ++ w')) := by
        rw [Text.join, List.intercalate_cons_cons, ← Text.join]
        simp only [List.append_assoc, List.append_nil, List.cons_append]
      rw [hsplit]
      exact .more (hitem w [] hw (List.forall_mem_nil _)) (ih (List.cons_ne_nil _ _))

/-- Printed items in brackets. -/
theorem enclosed_bracket (opening closing : CodePoint) (level : Nat)
    (h : List.Forall₂ (fun t a => ∀ v v', IsSpace v → IsSpace v' → item (v ++ (t ++ v')) a) ts as) :
    Enclosed item opening closing (bracket [opening] [closing] level ts) as := by
  cases h with
  | nil => exact .none (w := []) (by decide)
  | cons hitem hrest =>
    have hs := sequence_join (isSpace_newline (level + 1)) (isSpace_newline level)
      (List.Forall₂.cons hitem hrest) (List.cons_ne_nil _ _)
    have hsplit : ∀ s : List Text, s ≠ [] → bracket [opening] [closing] level s =
        opening :: (newline (level + 1) ++
          (Text.join (.scalar ',' :: newline (level + 1)) s ++ newline level) ++ [closing]) := by
      intro s hs
      rw [bracket, if_neg (by rwa [List.isEmpty_iff])]
      simp only [List.append_assoc, List.cons_append, List.nil_append]
      rfl
    rw [hsplit _ (List.cons_ne_nil _ _)]
    exact .some hs

end Brackets

/-! ## Values -/

theorem printItems_eq_map (level : Nat) (items : List Json) :
    printItems level items = items.map (print level) := by
  induction items with
  | nil => rfl
  | cons v items ih => rw [printItems, List.map_cons, ih]

theorem printMembers_eq_map (level : Nat) (members : List (Text × Json)) :
    printMembers level members = members.map fun m => quote m.1 ++ ": " ++ print level m.2 := by
  induction members with
  | nil => rfl
  | cons m members ih => rw [printMembers, List.map_cons, ih]

/-- A printed value denotes the value, whatever its level. -/
theorem denotes_print (v : Json) (level : Nat) : Denotes (v.print level) v := by
  induction v using induct generalizing level with
  | null => exact .null
  | bool b =>
    cases b with
    | false => exact .false
    | true => exact .true
  | int n => exact .number (numeral_ofInt n)
  | text t => exact .text (quoted_quote t)
  | list items ih =>
    rw [print, printItems_eq_map]
    refine .list (enclosed_bracket '[' ']' level ?_)
    rw [List.forall₂_map_left_iff, List.forall₂_same]
    exact fun v hv w w' hw hw' => .mk hw (ih v hv _) hw'
  | object members ih =>
    rw [print, printMembers_eq_map]
    refine .object (enclosed_bracket '\x7b' '\x7d' level ?_)
    rw [List.forall₂_map_left_iff, List.forall₂_same]
    intro m hm w w' hw hw'
    have hsplit : ∀ name u : Text, w ++ (name ++ (": " : Text) ++ u ++ w') =
        w ++ (name ++ []) ++ (.scalar ':' : CodePoint) :: ((" " : Text) ++ (u ++ w')) := by
      intro name u
      simp only [List.append_assoc, List.append_nil]
      rfl
    rw [hsplit]
    exact .mk (.mk hw (quoted_quote m.1) (by decide)) (.mk (by decide) (ih m hm _) hw')

/-- A document denotes the value that it is printed from, and no other. -/
theorem isDocument_document_iff {v w : Json} : IsDocument v.document w ↔ w = v := by
  have hprinted : IsDocument v.document v :=
    .mk (w := []) (by decide) (denotes_print v 0) (by decide : IsSpace "\n")
  exact ⟨fun h => h.unique hprinted, fun h => h ▸ hprinted⟩

/-- Different values are printed differently. -/
theorem document_injective {v w : Json} (h : v.document = w.document) : v = w :=
  isDocument_document_iff.mp (h ▸ isDocument_document_iff.mpr rfl)

end Phrasebook.Json
