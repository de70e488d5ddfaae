/-
# Phrasebook.Proofs.Phrase.Placeholder -- which tokens a text has

A name in braces is a placeholder wherever it stands: behind an opening brace that opens nothing,
between doubled braces, right behind another one.  Two descriptions of the tokens of a text are tied
to `tokensOfText` here.  The one goes through the text from left to right, takes the placeholder that
starts where it is and goes on behind it, or else leaves one character (`Scan`).  The other asks for
the name in braces as a part of the text.  They agree because a placeholder holds no opening brace
but its first character, so that none starts inside of another.

What is taken from a text is in the form of an identifier, and nothing is taken twice.  So the check
of a batch has nothing to say of such tokens, except that one of them is a reserved word.
-/
import Mathlib.Order.Bounds.Basic
import Phrasebook.Phrase.Placeholder
import Phrasebook.Proofs.Validation

namespace Phrasebook

open Java

/-! ## A name in braces -/

/-- The form of an identifier: a letter, `_` or `$`, then these and digits. -/
def NameForm (name : Text) : Prop :=
  ∃ c cs, name = c :: cs ∧ LegalStart c ∧ ∀ d ∈ cs, LegalPart d

theorem nameForm_iff {name : Text} : NameForm name ↔ isPlainName name = true := by
  cases name with
  | nil => simp [NameForm, isPlainName]
  | cons c cs =>
    simp only [NameForm, isPlainName, List.cons.injEq, legalStart_iff, legalPart_iff,
      Bool.and_eq_true, List.all_eq_true]
    constructor
    · rintro ⟨_, _, ⟨rfl, rfl⟩, h⟩
      exact h
    · intro h
      exact ⟨c, cs, ⟨rfl, rfl⟩, h⟩

/-- A name with a brace on either side. -/
def braced (name : Text) : Text := .scalar '{' :: (name ++ [.scalar '}'])

theorem braced_append (name rest : Text) :
    braced name ++ rest = .scalar '{' :: (name ++ .scalar '}' :: rest) := by
  simp [braced]

/-- No brace is part of a name. -/
theorem openingBrace_not_mem {name : Text} (h : isPlainName name = true) :
    (.scalar '{' : CodePoint) ∉ name := by
  intro hmem
  have hpart := isIdentifierPart_of_mem h _ hmem
  exact absurd hpart (by decide)

/-- A placeholder starts a text exactly if a name in braces does. -/
theorem placeholder?_eq_some_iff {text name : Text} :
    placeholder? text = some name ↔ isPlainName name = true ∧ braced name <+: text := by
  constructor
  · intro h
    refine ⟨isPlainName_of_placeholder? h, ?_⟩
    unfold placeholder? at h
    split at h
    · next cs =>
      split at h
      · next rest hrest =>
        -- what follows the opening brace is the name, then the closing brace
        simp only [Option.ite_none_right_eq_some, Option.some.injEq] at h
        obtain ⟨-, rfl⟩ := h
        refine ⟨rest, ?_⟩
        rw [braced_append, ← hrest, List.takeWhile_append_dropWhile]
      · cases h
    · cases h
  · rintro ⟨hname, rest, rfl⟩
    have hparts := isIdentifierPart_of_mem hname
    have hclose : isIdentifierPart (.scalar '}') = false := by decide
    rw [braced_append, placeholder?, List.dropWhile_append_of_pos hparts,
      List.takeWhile_append_of_pos hparts]
    simp [hclose, hname]

theorem placeholder?_eq_none_iff {text : Text} :
    placeholder? text = none ↔ ∀ name, isPlainName name = true → ¬ braced name <+: text := by
  constructor
  · intro h name hname hbraced
    rw [placeholder?_eq_some_iff.mpr ⟨hname, hbraced⟩] at h
    cases h
  · intro h
    rw [Option.eq_none_iff_forall_ne_some]
    intro name hsome
    obtain ⟨hname, hbraced⟩ := placeholder?_eq_some_iff.mp hsome
    exact h name hname hbraced

theorem placeholders_of_some {c : CodePoint} {cs name : Text}
    (h : placeholder? (c :: cs) = some name) :
    placeholders (c :: cs) = name :: placeholders cs := by
  rw [placeholders, h]

theorem placeholders_of_none {c : CodePoint} {cs : Text} (h : placeholder? (c :: cs) = none) :
    placeholders (c :: cs) = placeholders cs := by
  rw [placeholders, h]

/-- The placeholders of a text are the names that stand in braces in it. -/
theorem mem_placeholders_iff {text name : Text} :
    name ∈ placeholders text ↔ isPlainName name = true ∧ braced name <:+: text := by
  induction text with
  | nil => simp [placeholders, braced]
  | cons c cs ih =>
    rw [List.infix_cons_iff, and_or_left, ← placeholder?_eq_some_iff, ← ih]
    cases h : placeholder? (c :: cs) with
    | some other => simp [placeholders_of_some h, eq_comm]
    | none => simp [placeholders_of_none h]

/-! ## From left to right -/

/-- The names that are found in a text from left to right: where a name in braces starts, it is
taken and the rest of the text is what follows it. -/
inductive Scan : Text → List Text → Prop
  | done : Scan [] []
  | take {name rest : Text} {names : List Text} :
      isPlainName name = true → Scan rest names → Scan (braced name ++ rest) (name :: names)
  | leave {c : CodePoint} {cs : Text} {names : List Text} :
      (∀ name, isPlainName name = true → ¬ braced name <+: c :: cs) → Scan cs names →
      Scan (c :: cs) names

/-- No placeholder starts where there is no opening brace. -/
theorem placeholders_append_of_not_mem {front : Text} (h : (.scalar '{' : CodePoint) ∉ front)
    (rest : Text) : placeholders (front ++ rest) = placeholders rest := by
  induction front with
  | nil => rfl
  | cons c cs ih =>
    rw [List.mem_cons, not_or] at h
    have hnone : placeholder? (c :: (cs ++ rest)) = none := by
      rw [placeholder?_eq_none_iff]
      rintro name - ⟨more, hmore⟩
      rw [braced_append] at hmore
      exact h.1 (List.cons.inj hmore).1
    rw [List.cons_append, placeholders_of_none hnone, ih h.2]

/-- Behind a placeholder the next one is looked for: none starts inside of it. -/
theorem placeholders_braced_append {name : Text} (h : isPlainName name = true) (rest : Text) :
    placeholders (braced name ++ rest) = name :: placeholders rest := by
  have hsome : placeholder? (braced name ++ rest) = some name :=
    placeholder?_eq_some_iff.mpr ⟨h, rest, rfl⟩
  have hinside : (.scalar '{' : CodePoint) ∉ name ++ [.scalar '}'] := by
    rw [List.mem_append, not_or]
    exact ⟨openingBrace_not_mem h, by decide⟩
  rw [braced, List.cons_append] at hsome ⊢
  rw [placeholders_of_some hsome, placeholders_append_of_not_mem hinside]

theorem scan_placeholders (text : Text) : Scan text (placeholders text) := by
  -- behind a placeholder the rest is shorter by more than one character
  induction hlength : text.length using Nat.strongRecOn generalizing text with
  | ind n ih =>
    subst hlength
    cases text with
    | nil => exact .done
    | cons c cs =>
      cases h : placeholder? (c :: cs) with
      | some name =>
        obtain ⟨hname, rest, hrest⟩ := placeholder?_eq_some_iff.mp h
        have hshorter : rest.length < (c :: cs).length := by
          rw [← hrest, braced_append]
          simp only [List.length_cons, List.length_append]
          omega
        rw [← hrest, placeholders_braced_append hname]
        exact .take hname (ih rest.length hshorter rest rfl)
      | none =>
        rw [placeholders_of_none h]
        exact .leave (placeholder?_eq_none_iff.mp h) (ih cs.length (Nat.lt_succ_self _) cs rfl)

/-- There is one way to go through a text, and it finds the placeholders. -/
theorem scan_iff {text : Text} {names : List Text} : Scan text names ↔ names = placeholders text := by
  constructor
  · intro h
    induction h with
    | done => rfl
    | take hname _ ih => rw [placeholders_braced_append hname, ih]
    | leave hnone _ ih => rw [placeholders_of_none (placeholder?_eq_none_iff.mpr hnone), ih]
  · rintro rfl
    exact scan_placeholders text

/-! ## First places -/

/-- The first place at which a name stands in braces. -/
def FirstPlace (text name : Text) (i : Nat) : Prop :=
  IsLeast {j | braced name <+: text.drop j} i

theorem firstPlace_zero {text name : Text} (h : braced name <+: text) : FirstPlace text name 0 :=
  ⟨h, fun j _ => Nat.zero_le j⟩

/-- What does not stand at the start of a text is found one place later than in the rest. -/
theorem FirstPlace.later {c : CodePoint} {cs name : Text} {i : Nat} (h : FirstPlace cs name i)
    (hstart : ¬ braced name <+: c :: cs) : FirstPlace (c :: cs) name (i + 1) := by
  refine ⟨h.1, ?_⟩
  intro j hj
  cases j with
  | zero => exact absurd hj hstart
  | succ j => exact Nat.succ_le_succ (h.2 hj)

/-- One name is found before another one. -/
def FoundBefore (text name other : Text) : Prop :=
  ∃ i j, FirstPlace text name i ∧ FirstPlace text other j ∧ i < j

theorem FoundBefore.later {c : CodePoint} {cs name other : Text} (h : FoundBefore cs name other)
    (hname : ¬ braced name <+: c :: cs) (hother : ¬ braced other <+: c :: cs) :
    FoundBefore (c :: cs) name other := by
  obtain ⟨i, j, hi, hj, hij⟩ := h
  exact ⟨i + 1, j + 1, hi.later hname, hj.later hother, Nat.succ_lt_succ hij⟩

theorem FoundBefore.ne {text name other : Text} (h : FoundBefore text name other) :
    name ≠ other := by
  rintro rfl
  obtain ⟨i, j, hi, hj, hij⟩ := h
  exact absurd (hi.unique hj) (Nat.ne_of_lt hij)

/-- A placeholder has a first place. -/
theorem exists_firstPlace {text name : Text} (h : name ∈ placeholders text) :
    ∃ i, FirstPlace text name i := by
  induction text with
  | nil => cases h
  | cons c cs ih =>
    by_cases hstart : braced name <+: c :: cs
    · exact ⟨0, firstPlace_zero hstart⟩
    · obtain ⟨hname, hinfix⟩ := mem_placeholders_iff.mp h
      have hrest := (List.infix_cons_iff.mp hinfix).resolve_left hstart
      obtain ⟨i, hi⟩ := ih (mem_placeholders_iff.mpr ⟨hname, hrest⟩)
      exact ⟨i + 1, hi.later hstart⟩

/-- Names that are found in order in the rest of a text are found so in the whole, if none of them
stands at its start. -/
theorem pairwise_later {c : CodePoint} {cs : Text} {names : List Text}
    (h : names.Pairwise (FoundBefore cs)) (hstart : ∀ t ∈ names, ¬ braced t <+: c :: cs) :
    names.Pairwise (FoundBefore (c :: cs)) :=
  h.imp_of_mem fun hs ht hst => hst.later (hstart _ hs) (hstart _ ht)

theorem mem_eraseDups_filter {names : List Text} {keep : Text → Bool} {t : Text} :
    t ∈ (names.filter keep).eraseDups ↔ t ∈ names ∧ keep t = true := by
  rw [List.mem_eraseDups, List.mem_filter]

/-- The placeholders that satisfy a condition, each once, are in the order of their first places.
The condition is for the induction: behind a placeholder only the names other than it are left. -/
theorem pairwise_foundBefore (text : Text) (keep : Text → Bool) :
    ((placeholders text).filter keep).eraseDups.Pairwise (FoundBefore text) := by
  induction text generalizing keep with
  | nil => exact List.Pairwise.nil
  | cons c cs ih =>
    have hplain : ∀ t ∈ placeholders cs, isPlainName t = true :=
      fun t ht => (mem_placeholders_iff.mp ht).1
    cases h : placeholder? (c :: cs) with
    | none =>
      rw [placeholders_of_none h]
      apply pairwise_later (ih keep)
      intro t ht
      exact placeholder?_eq_none_iff.mp h t (hplain t (mem_eraseDups_filter.mp ht).1)
    | some name =>
      -- no other name stands at the start
      have hother : ∀ keep' : Text → Bool, keep' name = false →
          ∀ t ∈ ((placeholders cs).filter keep').eraseDups, ¬ braced t <+: c :: cs := by
        intro keep' hname t ht hbraced
        obtain ⟨hmem, hkept⟩ := mem_eraseDups_filter.mp ht
        rw [placeholder?_eq_some_iff.mpr ⟨hplain t hmem, hbraced⟩, Option.some.injEq] at h
        rw [h, hname] at hkept
        cases hkept
      rw [placeholders_of_some h]
      cases hkeep : keep name with
      | false =>
        rw [List.filter_cons_of_neg (by simp [hkeep])]
        exact pairwise_later (ih keep) (hother keep hkeep)
      | true =>
        have hrest := hother (fun t => !(t == name) && keep t) (by simp)
        rw [List.filter_cons_of_pos hkeep, List.eraseDups_cons, List.filter_filter]
        refine List.Pairwise.cons ?_ (pairwise_later (ih _) hrest)
        intro t ht
        obtain ⟨j, hj⟩ := exists_firstPlace (mem_eraseDups_filter.mp ht).1
        have hstart := (placeholder?_eq_some_iff.mp h).2
        exact ⟨0, j + 1, firstPlace_zero hstart, hj.later (hrest t ht), Nat.succ_pos j⟩

theorem tokensOfText_foundBefore (text : Text) :
    (tokensOfText text).Pairwise (FoundBefore text) := by
  have h := pairwise_foundBefore text fun _ => true
  rwa [List.filter_eq_self.mpr fun _ _ => rfl] at h

theorem mem_tokensOfText_iff {text name : Text} :
    name ∈ tokensOfText text ↔ NameForm name ∧ braced name <:+: text := by
  rw [tokensOfText, List.mem_eraseDups, mem_placeholders_iff, nameForm_iff]

/-! ## Checking tokens of a text -/

/-- A name in the form of an identifier has no other flaw than to be a reserved word. -/
theorem flaw?_plainName {name : Text} (h : isPlainName name = true) :
    flaw? name = if reservedWords.contains name then some .reserved else none := by
  have hne : name.isEmpty = false := by simpa using isPlainName_ne_nil h
  simp [flaw?, hne, h]

/-- Of different names in the form of an identifier the first reserved word is refused, and nothing
else is. -/
theorem checkTokens_plainNames {phrase : Text} {tokens : List Text}
    (hplain : ∀ t ∈ tokens, isPlainName t = true) (hdistinct : tokens.Nodup) :
    checkTokens phrase [] tokens = match tokens.find? reservedWords.contains with
      | none => .ok ()
      | some t => .error ⟨tokenRole, t, .reserved⟩ := by
  cases hcheck : checkTokens phrase [] tokens with
  | ok u =>
    obtain ⟨hlegal, -, -⟩ := checkTokens_eq_ok_iff.mp hcheck
    have hnone : tokens.find? reservedWords.contains = none := by
      rw [List.find?_eq_none]
      intro t ht hreserved
      have hidentifier := hlegal t ht
      rw [isIdentifier, hreserved, Bool.not_true, Bool.and_false] at hidentifier
      cases hidentifier
    rw [hnone]
  | error fault =>
    obtain ⟨earlier, t, later, rfl, hearlier, hrefused⟩ := checkTokens_eq_error hcheck
    rw [List.append_nil] at hrefused
    cases hrefused with
    | form hflaw =>
      rw [flaw?_plainName (hplain t (by simp)), Option.ite_none_right_eq_some] at hflaw
      obtain ⟨hreserved, hflaw⟩ := hflaw
      obtain rfl := Option.some.inj hflaw
      have hfirst : (earlier ++ t :: later).find? reservedWords.contains = some t := by
        rw [List.find?_eq_some_iff_append]
        refine ⟨hreserved, earlier, later, rfl, fun u hu => ?_⟩
        have hidentifier := (checkTokens_eq_ok_iff.mp hearlier).1 u hu
        exact (Bool.and_eq_true_iff.mp hidentifier).2
      rw [hfirst]
    | again _ hmem =>
      have hdisjoint := (List.nodup_append.mp hdistinct).2.2
      exact absurd rfl (hdisjoint t hmem t (List.mem_cons_self ..))

/-! ## The tokens of a text -/

/-- The tokens of a text are what is found from left to right, each once.  They are exactly the
names that stand in braces anywhere in the text; none comes twice, and they are in the order of
their first places.  The check of a batch refuses the first of them that is a reserved word, and no
other. -/
theorem tokensOfText_exact (text : Text) :
    (∃ names, (∀ found, Scan text found ↔ found = names) ∧ tokensOfText text = names.eraseDups) ∧
      (∀ name, name ∈ tokensOfText text ↔ NameForm name ∧ braced name <:+: text) ∧
      (tokensOfText text).Nodup ∧
      (tokensOfText text).Pairwise (FoundBefore text) ∧
      ∀ phrase, checkTokens phrase [] (tokensOfText text) =
        match (tokensOfText text).find? reservedWords.contains with
        | none => .ok ()
        | some t => .error ⟨tokenRole, t, .reserved⟩ := by
  have hordered := tokensOfText_foundBefore text
  have hdistinct : (tokensOfText text).Nodup := hordered.imp FoundBefore.ne
  have hplain : ∀ t ∈ tokensOfText text, isPlainName t = true :=
    fun t ht => nameForm_iff.mp (mem_tokensOfText_iff.mp ht).1
  refine ⟨⟨placeholders text, fun found => scan_iff, rfl⟩, fun name => mem_tokensOfText_iff,
    hdistinct, hordered, ?_⟩
  intro phrase
  exact checkTokens_plainNames hplain hdistinct

/-- Braces that enclose no name are passed over, and what stands in them is found. -/
example : tokensOfText "\x7b\x7bwhen\x7d\x7d \x7bat \x7bname\x7d\x7bwhen\x7d \x7b1\x7d" =
    [Text.ofString "when", Text.ofString "name"] := by
  decide +kernel

end Phrasebook
