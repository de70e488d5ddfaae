/-
# Phrasebook.Proofs.Validation -- what the check of a batch accepts

The check reads a batch once, with a list of names seen in the batch and another of tokens seen in
the current phrase.  `Batch.Legal` says without any order what it accepts: legal names, phrases of
different names, and different tokens within each phrase.  The lemmas for the two loops carry the
seen names along as names that may not come again.

What it reports of any other batch is its first fault in reading order (`Batch.FirstFault`).
-/
import Phrasebook.Proofs.Java.Legal
import Phrasebook.Proofs.Outcome
import Phrasebook.Validation

namespace Phrasebook

open Java

/-- A phrase of legal names whose tokens are different. -/
structure Phrase.Legal (p : Phrase) : Prop where
  name : isIdentifier p.name = true
  tokens : ∀ t ∈ p.tokens, isIdentifier t = true
  distinct : p.tokens.Nodup

/-- A batch of a legal package and legal phrases of different names. -/
structure Batch.Legal (b : Batch) : Prop where
  package : isPackageName b.package = true
  phrases : ∀ p ∈ b.phrases, p.Legal
  distinct : (b.phrases.map Phrase.name).Nodup

theorem checkIdentifier_eq_ok_iff {role name result : Text} :
    checkIdentifier role name = .ok result ↔ isIdentifier name = true ∧ result = name := by
  rw [← flaw?_eq_none_iff, checkIdentifier]
  cases flaw? name with
  | none => simp [eq_comm]
  | some flaw => simp

theorem checkPackage_eq_ok_iff {package result : Text} :
    checkPackage package = .ok result ↔ isPackageName package = true ∧ result = package := by
  rw [← packageFlaw?_eq_none_iff, checkPackage]
  cases packageFlaw? package with
  | none => simp [eq_comm]
  | some flaw => simp

theorem checkFresh_eq_ok_iff {role name : Text} {repeated : Flaw} {seen : List Text} {u : Unit} :
    checkFresh role repeated seen name = .ok u ↔ isIdentifier name = true ∧ name ∉ seen := by
  unfold checkFresh
  rw [bind_eq_ok_iff]
  simp only [checkIdentifier_eq_ok_iff]
  constructor
  · rintro ⟨_, ⟨hname, rfl⟩, h⟩
    refine ⟨hname, fun hm => ?_⟩
    rw [if_pos (List.contains_iff_mem.mpr hm)] at h
    cases h
  · rintro ⟨hname, hnew⟩
    refine ⟨name, ⟨hname, rfl⟩, ?_⟩
    rw [if_neg (fun hm => hnew (List.contains_iff_mem.mp hm))]
    rfl

/-- The loop over tokens accepts legal tokens that differ from each other and from those seen. -/
theorem checkTokens_eq_ok_iff {phrase : Text} {seen tokens : List Text} {u : Unit} :
    checkTokens phrase seen tokens = .ok u ↔
      (∀ t ∈ tokens, isIdentifier t = true) ∧ tokens.Nodup ∧ ∀ t ∈ tokens, t ∉ seen := by
  induction tokens generalizing seen with
  | nil => simp [checkTokens]
  | cons t ts ih =>
    rw [checkTokens, bind_eq_ok_iff]
    simp only [checkFresh_eq_ok_iff, ih, List.nodup_cons, List.forall_mem_cons]
    constructor
    · rintro ⟨_, ⟨ht, hnew⟩, hts, hdistinct, hfresh⟩
      exact ⟨⟨ht, hts⟩, ⟨fun hm => hfresh t hm (List.mem_cons_self ..), hdistinct⟩, hnew,
        fun u hu hm => hfresh u hu (List.mem_cons_of_mem t hm)⟩
    · rintro ⟨⟨ht, hts⟩, ⟨hnotin, hdistinct⟩, hnew, hfresh⟩
      refine ⟨(), ⟨ht, hnew⟩, hts, hdistinct, fun u hu hm => ?_⟩
      rcases List.mem_cons.mp hm with rfl | hm
      · exact hnotin hu
      · exact hfresh u hu hm

/-- The loop over phrases accepts legal phrases whose names differ from each other and from those
seen. -/
theorem checkPhrases_eq_ok_iff {seen : List Text} {phrases : List Phrase} {u : Unit} :
    checkPhrases seen phrases = .ok u ↔
      (∀ p ∈ phrases, p.Legal) ∧ (phrases.map Phrase.name).Nodup ∧
        ∀ p ∈ phrases, p.name ∉ seen := by
  induction phrases generalizing seen with
  | nil => simp [checkPhrases]
  | cons p ps ih =>
    rw [checkPhrases, bind_eq_ok_iff]
    simp only [bind_eq_ok_iff, checkFresh_eq_ok_iff, checkTokens_eq_ok_iff, ih, List.map_cons,
      List.nodup_cons, List.forall_mem_cons]
    constructor
    · rintro ⟨_, ⟨hname, hnew⟩, _, ⟨htokens, hdistinct, -⟩, hps, hnames, hfresh⟩
      refine ⟨⟨⟨hname, htokens, hdistinct⟩, hps⟩, ⟨fun hm => ?_, hnames⟩, hnew,
        fun q hq hm => hfresh q hq (List.mem_cons_of_mem _ hm)⟩
      obtain ⟨q, hq, heq⟩ := List.mem_map.mp hm
      exact hfresh q hq (heq ▸ List.mem_cons_self ..)
    · rintro ⟨⟨⟨hname, htokens, hdistinct⟩, hps⟩, ⟨hnotin, hnames⟩, hnew, hfresh⟩
      refine ⟨(), ⟨hname, hnew⟩, (), ⟨htokens, hdistinct, by simp⟩, hps, hnames, fun q hq hm => ?_⟩
      rcases List.mem_cons.mp hm with heq | hm
      · exact hnotin (heq ▸ List.mem_map_of_mem hq)
      · exact hfresh q hq hm

/-- The check accepts exactly the legal batches. -/
theorem Batch.check_eq_ok_iff {b : Batch} : b.check = .ok () ↔ b.Legal := by
  rw [Batch.check, bind_eq_ok_iff]
  simp only [checkPackage_eq_ok_iff, checkPhrases_eq_ok_iff]
  constructor
  · rintro ⟨_, ⟨hpackage, rfl⟩, hphrases, hdistinct, -⟩
    exact ⟨hpackage, hphrases, hdistinct⟩
  · rintro ⟨hpackage, hphrases, hdistinct⟩
    exact ⟨b.package, ⟨hpackage, rfl⟩, hphrases, hdistinct, by simp⟩

/-! ## The first fault -/

/-- A name is refused in its role: for its form, or else because it was seen before. -/
inductive Refused (role : Text) (repeated : Flaw) (seen : List Text) (name : Text) :
    NameFault → Prop
  | form {flaw : Flaw} : flaw? name = some flaw → Refused role repeated seen name ⟨role, name, flaw⟩
  | again : isIdentifier name = true → name ∈ seen →
      Refused role repeated seen name ⟨role, name, repeated⟩

/-- A name that is refused is refused after more names have been seen. -/
theorem Refused.mono {role name : Text} {repeated : Flaw} {seen other : List Text}
    {fault : NameFault} (hseen : ∀ n, n ∈ seen → n ∈ other)
    (h : Refused role repeated seen name fault) : Refused role repeated other name fault := by
  cases h with
  | form hflaw => exact .form hflaw
  | again hname hmem => exact .again hname (hseen name hmem)

theorem refused_of_checkFresh {role name : Text} {repeated : Flaw} {seen : List Text}
    {fault : NameFault} (h : checkFresh role repeated seen name = .error fault) :
    Refused role repeated seen name fault := by
  rcases bind_eq_error_iff.mp h with hform | ⟨name', hname, hagain⟩
  · unfold checkIdentifier at hform
    cases hflaw : flaw? name with
    | none =>
      rw [hflaw] at hform
      cases hform
    | some flaw =>
      rw [hflaw] at hform
      obtain rfl := Except.error.inj hform
      exact .form hflaw
  · split at hagain
    · next hmem =>
      obtain rfl := Except.error.inj hagain
      exact .again (checkIdentifier_eq_ok_iff.mp hname).1 (List.contains_iff_mem.mp hmem)
    · cases hagain

/-- The loop over tokens stops at a token that is refused after those before it. -/
theorem checkTokens_eq_error {phrase : Text} {seen tokens : List Text} {fault : NameFault}
    (h : checkTokens phrase seen tokens = .error fault) :
    ∃ earlier t later, tokens = earlier ++ t :: later ∧
      checkTokens phrase seen earlier = .ok () ∧
      Refused tokenRole (.repeatedIn phrase) (earlier ++ seen) t fault := by
  induction tokens generalizing seen with
  | nil => cases h
  | cons t ts ih =>
    rw [checkTokens] at h
    rcases bind_eq_error_iff.mp h with hfresh | ⟨u, hfresh, hrest⟩
    · exact ⟨[], t, ts, rfl, rfl, refused_of_checkFresh hfresh⟩
    · obtain ⟨earlier, t', later, rfl, hearlier, hrefused⟩ := ih hrest
      refine ⟨t :: earlier, t', later, rfl, ?_, ?_⟩
      · rw [checkTokens]
        exact bind_eq_ok_iff.mpr ⟨u, hfresh, hearlier⟩
      · exact hrefused.mono fun n hn => List.perm_middle.mem_iff.mp hn

/-- The loop over phrases stops at a name that is refused, or at a token of the phrase it is at. -/
theorem checkPhrases_eq_error {seen : List Text} {phrases : List Phrase} {fault : NameFault}
    (h : checkPhrases seen phrases = .error fault) :
    ∃ before p after, phrases = before ++ p :: after ∧
      ((checkPhrases seen before = .ok () ∧
          Refused phraseRole .redeclared (before.map Phrase.name ++ seen) p.name fault) ∨
        ∃ earlier t later, p.tokens = earlier ++ t :: later ∧
          checkPhrases seen (before ++ [{ p with tokens := earlier }]) = .ok () ∧
          Refused tokenRole (.repeatedIn p.name) earlier t fault) := by
  induction phrases generalizing seen with
  | nil => cases h
  | cons p ps ih =>
    rw [checkPhrases] at h
    rcases bind_eq_error_iff.mp h with hfresh | ⟨u, hfresh, h⟩
    · exact ⟨[], p, ps, rfl, Or.inl ⟨rfl, refused_of_checkFresh hfresh⟩⟩
    rcases bind_eq_error_iff.mp h with htokens | ⟨u', htokens, hrest⟩
    · obtain ⟨earlier, t, later, heq, hearlier, hrefused⟩ := checkTokens_eq_error htokens
      rw [List.append_nil] at hrefused
      refine ⟨[], p, ps, rfl, Or.inr ⟨earlier, t, later, heq, ?_, hrefused⟩⟩
      rw [List.nil_append, checkPhrases]
      exact bind_eq_ok_iff.mpr ⟨u, hfresh, bind_eq_ok_iff.mpr ⟨(), hearlier, rfl⟩⟩
    · -- the phrase itself is accepted, and so stands before the one that is not
      have hcons : ∀ before, checkPhrases (p.name :: seen) before = .ok () →
          checkPhrases seen (p :: before) = .ok () := by
        intro before hbefore
        rw [checkPhrases]
        exact bind_eq_ok_iff.mpr ⟨u, hfresh, bind_eq_ok_iff.mpr ⟨u', htokens, hbefore⟩⟩
      obtain ⟨before, p', after, rfl, hwhy⟩ := ih hrest
      refine ⟨p :: before, p', after, rfl, ?_⟩
      rcases hwhy with ⟨hbefore, hrefused⟩ | ⟨earlier, t, later, heq, hbefore, hrefused⟩
      · refine Or.inl ⟨hcons before hbefore, ?_⟩
        exact hrefused.mono fun n hn => List.perm_middle.mem_iff.mp hn
      · exact Or.inr ⟨earlier, t, later, heq, hcons _ hbefore, hrefused⟩

/-- The first fault of a batch in reading order: the batch is legal as far as it comes before. -/
inductive Batch.FirstFault (b : Batch) : NameFault → Prop
  | package {flaw : Flaw} : packageFlaw? b.package = some flaw →
      b.FirstFault ⟨packageRole, b.package, flaw⟩
  | phrase {before after : List Phrase} {p : Phrase} {fault : NameFault} :
      b.phrases = before ++ p :: after → Batch.Legal ⟨b.package, before⟩ →
      Refused phraseRole .redeclared (before.map Phrase.name) p.name fault → b.FirstFault fault
  | token {before after : List Phrase} {p : Phrase} {earlier later : List Text} {t : Text}
      {fault : NameFault} :
      b.phrases = before ++ p :: after → p.tokens = earlier ++ t :: later →
      Batch.Legal ⟨b.package, before ++ [{ p with tokens := earlier }]⟩ →
      Refused tokenRole (.repeatedIn p.name) earlier t fault → b.FirstFault fault

/-- The check reports the first fault. -/
theorem Batch.firstFault_of_check {b : Batch} {fault : NameFault} (h : b.check = .error fault) :
    b.FirstFault fault := by
  rw [Batch.check] at h
  rcases bind_eq_error_iff.mp h with hpackage | ⟨package, hpackage, hphrases⟩
  · unfold checkPackage at hpackage
    cases hflaw : packageFlaw? b.package with
    | none =>
      rw [hflaw] at hpackage
      cases hpackage
    | some flaw =>
      rw [hflaw] at hpackage
      obtain rfl := Except.error.inj hpackage
      exact .package hflaw
  · have hlegal : ∀ before, checkPhrases [] before = .ok () →
        Batch.Legal ⟨b.package, before⟩ := by
      intro before hbefore
      apply Batch.check_eq_ok_iff.mp
      rw [Batch.check]
      exact bind_eq_ok_iff.mpr ⟨package, hpackage, hbefore⟩
    obtain ⟨before, p, after, heq, hwhy⟩ := checkPhrases_eq_error hphrases
    rcases hwhy with ⟨hbefore, hrefused⟩ | ⟨earlier, t, later, htokens, hbefore, hrefused⟩
    · rw [List.append_nil] at hrefused
      exact .phrase heq (hlegal before hbefore) hrefused
    · exact .token heq htokens (hlegal _ hbefore) hrefused

end Phrasebook
