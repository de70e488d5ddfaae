/-
# Phrasebook.Proofs.Validation.Reading -- the first fault in reading order

A batch is read from its package over the name of each phrase to the tokens of that phrase.  `Spot` is
a place in this order, and `Batch.WrongAt` says what is wrong there, whatever is wrong elsewhere: a
name is wrong in its form, or it repeats an earlier phrase name of the batch or an earlier token of
the same phrase.  Nothing else is compared, so that a token may have the name of a phrase or of a token
of another phrase.

The check reports what is wrong at the first spot at which anything is.
-/
import Phrasebook.Proofs.Validation

namespace Phrasebook

open Java

/-! ## What is wrong with a single name -/

namespace Java

/-- A name is empty, or a reserved word, or else no identifier. -/
inductive FormFlaw : Text → Flaw → Prop
  | empty : FormFlaw [] .empty
  | reserved {name : Text} : name ∈ reservedWords → FormFlaw name .reserved
  | malformed {name : Text} : name ≠ [] → name ∉ reservedWords → ¬ LegalIdentifier name →
      FormFlaw name .malformed

/-- A package is empty, or one of its segments is the first that is no identifier. -/
inductive PackageFlaw : Text → Flaw → Prop
  | empty : PackageFlaw [] .empty
  | segment {package segment : Text} {earlier later : List Text} : package ≠ [] →
      Text.split '.' package = earlier ++ segment :: later →
      (∀ s ∈ earlier, LegalIdentifier s) → ¬ LegalIdentifier segment →
      PackageFlaw package (.badSegment segment)

variable {name package : Text} {flaw : Flaw}

theorem formFlaw_iff : FormFlaw name flaw ↔ flaw? name = some flaw := by
  constructor
  · intro h
    cases h with
    | empty => rfl
    | reserved hmem =>
      have hne : name ≠ [] := fun h => absurd (h ▸ hmem) (by decide)
      simp [flaw?, hne, hmem]
    | malformed hne hmem hlegal =>
      cases hflaw : flaw? name with
      | none => exact absurd ((legalIdentifier_iff name).mpr ((flaw?_eq_none_iff name).mp hflaw)) hlegal
      | some flaw =>
        unfold flaw? at hflaw
        simp only [List.isEmpty_iff, hne, if_false, List.contains_iff_mem, hmem] at hflaw
        split at hflaw
        · cases hflaw
        · exact hflaw.symm
  · intro h
    have hlegal : ¬ LegalIdentifier name := fun hl => by
      rw [(flaw?_eq_none_iff name).mpr ((legalIdentifier_iff name).mp hl)] at h
      cases h
    unfold flaw? at h
    split at h
    · next hempty =>
      obtain rfl := Option.some.inj h
      rw [List.isEmpty_iff.mp hempty]
      exact .empty
    · next hne =>
      split at h
      · next hmem =>
        obtain rfl := Option.some.inj h
        exact .reserved (List.contains_iff_mem.mp hmem)
      · next hmem =>
        split at h
        · cases h
        · obtain rfl := Option.some.inj h
          exact .malformed (fun he => hne (List.isEmpty_iff.mpr he))
            (fun hm => hmem (List.contains_iff_mem.mpr hm)) hlegal

theorem FormFlaw.not_legal (h : FormFlaw name flaw) : ¬ LegalIdentifier name := by
  intro hlegal
  have hnone := (flaw?_eq_none_iff name).mpr ((legalIdentifier_iff name).mp hlegal)
  rw [formFlaw_iff.mp h] at hnone
  cases hnone

theorem packageFlaw_iff : PackageFlaw package flaw ↔ packageFlaw? package = some flaw := by
  constructor
  · intro h
    cases h with
    | empty => rfl
    | @segment _ segment earlier later hne hsplit hearlier hsegment =>
      have hfind : (Text.split '.' package).find? (fun s => !isIdentifier s) = some segment := by
        refine List.find?_eq_some_iff_append.mpr ⟨?_, earlier, later, hsplit, fun s hs => ?_⟩
        · simpa [legalIdentifier_iff] using hsegment
        · simpa using (legalIdentifier_iff s).mp (hearlier s hs)
      simp [packageFlaw?, hne, hfind]
  · intro h
    unfold packageFlaw? at h
    split at h
    · next hempty =>
      obtain rfl := Option.some.inj h
      rw [List.isEmpty_iff.mp hempty]
      exact .empty
    · next hne =>
      obtain ⟨segment, hfind, rfl⟩ := Option.map_eq_some_iff.mp h
      obtain ⟨hsegment, earlier, later, hsplit, hearlier⟩ := List.find?_eq_some_iff_append.mp hfind
      refine .segment (fun he => hne (List.isEmpty_iff.mpr he)) hsplit (fun s hs => ?_) fun hl => ?_
      · exact (legalIdentifier_iff s).mpr (by simpa using hearlier s hs)
      · rw [(legalIdentifier_iff segment).mp hl] at hsegment
        cases hsegment

end Java

/-! ## Spots in reading order -/

/-- A place in a batch at which a name stands. -/
inductive Spot where
  | package
  | phrase (number : Nat)
  | token (phrase number : Nat)

/-- One spot is read before another: the package first, and each phrase name before the tokens of that
phrase. -/
def Spot.Before : Spot → Spot → Prop
  | .package, .package => False
  | .package, .phrase _ => True
  | .package, .token _ _ => True
  | .phrase _, .package => False
  | .phrase i, .phrase k => i < k
  | .phrase i, .token k _ => i ≤ k
  | .token _ _, .package => False
  | .token i _, .phrase k => i < k
  | .token i j, .token k l => i < k ∨ i = k ∧ j < l

theorem Spot.eq_or_before (s t : Spot) : s = t ∨ s.Before t ∨ t.Before s := by
  cases s <;> cases t <;> simp only [Spot.Before, Spot.phrase.injEq, Spot.token.injEq] <;> grind

/-- What is wrong at a spot of a batch. -/
inductive Batch.WrongAt (b : Batch) : Spot → NameFault → Prop
  | package {flaw : Flaw} : PackageFlaw b.package flaw →
      b.WrongAt .package ⟨packageRole, b.package, flaw⟩
  | phraseForm {i : Nat} {p : Phrase} {flaw : Flaw} : b.phrases[i]? = some p →
      FormFlaw p.name flaw → b.WrongAt (.phrase i) ⟨phraseRole, p.name, flaw⟩
  | phraseAgain {i k : Nat} {p q : Phrase} : b.phrases[i]? = some p → LegalIdentifier p.name →
      k < i → b.phrases[k]? = some q → q.name = p.name →
      b.WrongAt (.phrase i) ⟨phraseRole, p.name, .redeclared⟩
  | tokenForm {i j : Nat} {p : Phrase} {t : Text} {flaw : Flaw} : b.phrases[i]? = some p →
      p.tokens[j]? = some t → FormFlaw t flaw → b.WrongAt (.token i j) ⟨tokenRole, t, flaw⟩
  | tokenAgain {i j k : Nat} {p : Phrase} {t : Text} : b.phrases[i]? = some p →
      p.tokens[j]? = some t → LegalIdentifier t → k < j → p.tokens[k]? = some t →
      b.WrongAt (.token i j) ⟨tokenRole, t, .repeatedIn p.name⟩

/-- What is wrong at the first spot at which anything is. -/
def Batch.FirstWrong (b : Batch) (fault : NameFault) : Prop :=
  ∃ spot, b.WrongAt spot fault ∧
    ∀ earlier, earlier.Before spot → ∀ other, ¬ b.WrongAt earlier other

namespace Batch

variable {b : Batch} {before after : List Phrase} {p : Phrase} {fault : NameFault}

/-! ## One thing is wrong at a spot -/

/-- At one spot one thing is wrong at most. -/
theorem WrongAt.unique {spot : Spot} {other : NameFault} (h : b.WrongAt spot fault)
    (h' : b.WrongAt spot other) : fault = other := by
  cases h with
  | package hflaw =>
    cases h' with
    | package hflaw' =>
      rw [packageFlaw_iff] at hflaw hflaw'
      rw [Option.some.inj (hflaw.symm.trans hflaw')]
  | phraseForm hp hflaw =>
    cases h' with
    | phraseForm hp' hflaw' =>
      obtain rfl := Option.some.inj (hp.symm.trans hp')
      rw [formFlaw_iff] at hflaw hflaw'
      rw [Option.some.inj (hflaw.symm.trans hflaw')]
    | phraseAgain hp' hlegal =>
      obtain rfl := Option.some.inj (hp.symm.trans hp')
      exact absurd hlegal hflaw.not_legal
  | phraseAgain hp hlegal =>
    cases h' with
    | phraseForm hp' hflaw' =>
      obtain rfl := Option.some.inj (hp.symm.trans hp')
      exact absurd hlegal hflaw'.not_legal
    | phraseAgain hp' =>
      obtain rfl := Option.some.inj (hp.symm.trans hp')
      rfl
  | tokenForm hp ht hflaw =>
    cases h' with
    | tokenForm hp' ht' hflaw' =>
      obtain rfl := Option.some.inj (hp.symm.trans hp')
      obtain rfl := Option.some.inj (ht.symm.trans ht')
      rw [formFlaw_iff] at hflaw hflaw'
      rw [Option.some.inj (hflaw.symm.trans hflaw')]
    | tokenAgain hp' ht' hlegal =>
      obtain rfl := Option.some.inj (hp.symm.trans hp')
      obtain rfl := Option.some.inj (ht.symm.trans ht')
      exact absurd hlegal hflaw.not_legal
  | tokenAgain hp ht hlegal =>
    cases h' with
    | tokenForm hp' ht' hflaw' =>
      obtain rfl := Option.some.inj (hp.symm.trans hp')
      obtain rfl := Option.some.inj (ht.symm.trans ht')
      exact absurd hlegal hflaw'.not_legal
    | tokenAgain hp' ht' =>
      obtain rfl := Option.some.inj (hp.symm.trans hp')
      obtain rfl := Option.some.inj (ht.symm.trans ht')
      rfl

/-! ## What is read later does not matter -/

/-- What is wrong before a phrase is wrong whatever follows from that phrase on. -/
theorem WrongAt.before_phrase {spot : Spot} (h : b.WrongAt spot fault)
    (heq : b.phrases = before ++ after) (hspot : spot.Before (.phrase before.length))
    (others : List Phrase) : Batch.WrongAt ⟨b.package, before ++ others⟩ spot fault := by
  have hsame : ∀ i, i < before.length → (before ++ others)[i]? = b.phrases[i]? := by
    intro i hi
    rw [heq, List.getElem?_append_left hi, List.getElem?_append_left hi]
  cases h with
  | package hflaw => exact .package hflaw
  | phraseForm hp hflaw => exact .phraseForm ((hsame _ hspot).trans hp) hflaw
  | phraseAgain hp hlegal hk hq hname =>
    exact .phraseAgain ((hsame _ hspot).trans hp) hlegal hk
      ((hsame _ (Nat.lt_trans hk hspot)).trans hq) hname
  | tokenForm hp ht hflaw => exact .tokenForm ((hsame _ hspot).trans hp) ht hflaw
  | tokenAgain hp ht hlegal hk hother =>
    exact .tokenAgain ((hsame _ hspot).trans hp) ht hlegal hk hother

/-- What is wrong before a token is wrong whatever follows from that token on. -/
theorem WrongAt.before_token {spot : Spot} {earlier later : List Text} (h : b.WrongAt spot fault)
    (heq : b.phrases = before ++ p :: after) (htokens : p.tokens = earlier ++ later)
    (hspot : spot.Before (.token before.length earlier.length)) :
    Batch.WrongAt ⟨b.package, before ++ [{ p with tokens := earlier }]⟩ spot fault := by
  have hlast : (before ++ [{ p with tokens := earlier }])[before.length]? =
      some { p with tokens := earlier } := by simp
  have hthere : b.phrases[before.length]? = some p := by simp [heq]
  have hsame : ∀ j, j < earlier.length → earlier[j]? = p.tokens[j]? := by
    intro j hj
    rw [htokens, List.getElem?_append_left hj]
  cases h with
  | package hflaw => exact .package hflaw
  | @phraseForm i q flaw hq hflaw =>
    rcases Nat.lt_or_eq_of_le hspot with hi | rfl
    · exact (WrongAt.phraseForm hq hflaw).before_phrase heq hi _
    · obtain rfl := Option.some.inj (hthere.symm.trans hq)
      exact WrongAt.phraseForm (p := { p with tokens := earlier }) hlast hflaw
  | @phraseAgain i k q other hq hlegal hk hother hname =>
    rcases Nat.lt_or_eq_of_le hspot with hi | rfl
    · exact (WrongAt.phraseAgain hq hlegal hk hother hname).before_phrase heq hi _
    · obtain rfl := Option.some.inj (hthere.symm.trans hq)
      refine WrongAt.phraseAgain (p := { p with tokens := earlier }) hlast hlegal hk ?_ hname
      rw [List.getElem?_append_left hk, ← hother, heq, List.getElem?_append_left hk]
  | @tokenForm i j q t flaw hq ht hflaw =>
    rcases hspot with hi | ⟨rfl, hj⟩
    · exact (WrongAt.tokenForm hq ht hflaw).before_phrase heq hi _
    · obtain rfl := Option.some.inj (hthere.symm.trans hq)
      exact .tokenForm hlast ((hsame j hj).trans ht) hflaw
  | @tokenAgain i j k q t hq ht hlegal hk hother =>
    rcases hspot with hi | ⟨rfl, hj⟩
    · exact (WrongAt.tokenAgain hq ht hlegal hk hother).before_phrase heq hi _
    · obtain rfl := Option.some.inj (hthere.symm.trans hq)
      exact WrongAt.tokenAgain (p := { p with tokens := earlier }) hlast ((hsame j hj).trans ht)
        hlegal hk ((hsame k (Nat.lt_trans hk hj)).trans hother)

/-- In a legal batch nothing is wrong. -/
theorem Legal.not_wrongAt (h : b.Legal) (spot : Spot) (fault : NameFault) :
    ¬ b.WrongAt spot fault := by
  intro hwrong
  have hform : ∀ {name : Text} {flaw : Flaw}, isIdentifier name = true → ¬ FormFlaw name flaw :=
    fun hname hflaw => hflaw.not_legal ((legalIdentifier_iff _).mpr hname)
  cases hwrong with
  | package hflaw =>
    rw [packageFlaw_iff, (packageFlaw?_eq_none_iff b.package).mpr h.package] at hflaw
    cases hflaw
  | phraseForm hp hflaw => exact hform (h.phrases _ (List.mem_of_getElem? hp)).name hflaw
  | @phraseAgain i k p q hp _ hk hq hname =>
    obtain ⟨hi, rfl⟩ := List.getElem?_eq_some_iff.mp hp
    obtain ⟨hk', rfl⟩ := List.getElem?_eq_some_iff.mp hq
    have hne := List.pairwise_iff_getElem.mp h.distinct k i (by simpa using hk') (by simpa using hi) hk
    simp only [List.getElem_map] at hne
    exact hne hname
  | tokenForm hp ht hflaw =>
    exact hform ((h.phrases _ (List.mem_of_getElem? hp)).tokens _ (List.mem_of_getElem? ht)) hflaw
  | @tokenAgain i j k p t hp ht _ hk hother =>
    obtain ⟨hj, rfl⟩ := List.getElem?_eq_some_iff.mp ht
    obtain ⟨hk', hsame⟩ := List.getElem?_eq_some_iff.mp hother
    have hdistinct := (h.phrases _ (List.mem_of_getElem? hp)).distinct
    exact List.pairwise_iff_getElem.mp hdistinct k j hk' hj hk hsame

/-! ## The check -/

/-- A name that is refused after the phrases before it is wrong at its spot. -/
theorem wrongAt_of_refused_phrase (heq : b.phrases = before ++ p :: after)
    (h : Refused phraseRole .redeclared (before.map Phrase.name) p.name fault) :
    b.WrongAt (.phrase before.length) fault := by
  have hp : b.phrases[before.length]? = some p := by simp [heq]
  cases h with
  | form hflaw => exact .phraseForm hp (formFlaw_iff.mpr hflaw)
  | again hname hmem =>
    obtain ⟨q, hq, hsame⟩ := List.mem_map.mp hmem
    obtain ⟨k, hk, hget⟩ := List.mem_iff_getElem.mp hq
    refine .phraseAgain hp ((legalIdentifier_iff _).mpr hname) hk ?_ hsame
    rw [heq, List.getElem?_append_left hk, List.getElem?_eq_getElem hk, hget]

/-- A token that is refused after those before it is wrong at its spot. -/
theorem wrongAt_of_refused_token {earlier later : List Text} {t : Text}
    (heq : b.phrases = before ++ p :: after) (htokens : p.tokens = earlier ++ t :: later)
    (h : Refused tokenRole (.repeatedIn p.name) earlier t fault) :
    b.WrongAt (.token before.length earlier.length) fault := by
  have hp : b.phrases[before.length]? = some p := by simp [heq]
  have ht : p.tokens[earlier.length]? = some t := by simp [htokens]
  cases h with
  | form hflaw => exact .tokenForm hp ht (formFlaw_iff.mpr hflaw)
  | again hname hmem =>
    obtain ⟨k, hk, hget⟩ := List.mem_iff_getElem.mp hmem
    refine .tokenAgain hp ht ((legalIdentifier_iff _).mpr hname) hk ?_
    rw [htokens, List.getElem?_append_left hk, List.getElem?_eq_getElem hk, hget]

/-- Whatever the check reports is wrong at the first spot at which anything is. -/
theorem firstWrong_of_check (h : b.check = .error fault) : b.FirstWrong fault := by
  cases firstFault_of_check h with
  | package hflaw =>
    refine ⟨.package, .package (packageFlaw_iff.mpr hflaw), fun spot hbefore => ?_⟩
    cases spot <;> exact hbefore.elim
  | phrase heq hlegal hrefused =>
    refine ⟨_, wrongAt_of_refused_phrase heq hrefused, fun spot hbefore other hwrong => ?_⟩
    have hwrong := hwrong.before_phrase heq hbefore []
    rw [List.append_nil] at hwrong
    exact hlegal.not_wrongAt spot other hwrong
  | token heq htokens hlegal hrefused =>
    refine ⟨_, wrongAt_of_refused_token heq htokens hrefused, fun spot hbefore other hwrong => ?_⟩
    exact hlegal.not_wrongAt spot other (hwrong.before_token heq htokens hbefore)

/-- Only one fault is the first one. -/
theorem FirstWrong.unique {other : NameFault} (h : b.FirstWrong fault) (h' : b.FirstWrong other) :
    fault = other := by
  obtain ⟨spot, hwrong, hfirst⟩ := h
  obtain ⟨spot', hwrong', hfirst'⟩ := h'
  rcases spot.eq_or_before spot' with rfl | hbefore | hbefore
  · exact hwrong.unique hwrong'
  · exact absurd hwrong (hfirst' spot hbefore fault)
  · exact absurd hwrong' (hfirst spot' hbefore other)

end Batch

/-! ## The reasons in words -/

/-- How the words of a flaw begin. -/
def Java.Flaw.opening : Flaw → Text
  | .empty => "must"
  | .reserved => "is a"
  | .malformed => "is n"
  | .badSegment _ => "segm"
  | .redeclared => "is d"
  | .repeatedIn _ => "is r"

theorem Java.Flaw.take_message (flaw : Flaw) : flaw.message.take 4 = flaw.opening := by
  cases flaw <;> rfl

/-- Different flaws have different words. -/
theorem Java.Flaw.message_injective {flaw other : Flaw} (h : flaw.message = other.message) :
    flaw = other := by
  have hopening : flaw.opening = other.opening := by
    rw [← flaw.take_message, ← other.take_message, h]
  cases flaw <;> cases other <;> simp only [Flaw.opening] at hopening <;>
    try first | rfl | exact absurd hopening (by decide)
  -- what is left are two flaws of one constructor that carry a name
  case badSegment.badSegment =>
    rw [Flaw.message, Flaw.message, List.append_cancel_right_eq, List.append_cancel_left_eq] at h
    rw [h]
  case repeatedIn.repeatedIn =>
    rw [Flaw.message, Flaw.message, List.append_cancel_right_eq, List.append_cancel_left_eq] at h
    rw [h]

/-! ## The first fault -/

/-- A token is refused for its form or for an earlier token of its own phrase, and for nothing else. -/
theorem Batch.WrongAt.of_token {b : Batch} {spot : Spot} {fault : NameFault}
    (h : b.WrongAt spot fault) (hrole : fault.role = tokenRole) :
    ∃ p ∈ b.phrases, ∃ earlier later, p.tokens = earlier ++ fault.name :: later ∧
      (FormFlaw fault.name fault.flaw ∨
        fault.name ∈ earlier ∧ fault.flaw = .repeatedIn p.name) := by
  have hsplit : ∀ {p : Phrase} {j : Nat} {t : Text}, p.tokens[j]? = some t →
      p.tokens = p.tokens.take j ++ t :: p.tokens.drop (j + 1) := by
    intro p j t ht
    obtain ⟨hj, rfl⟩ := List.getElem?_eq_some_iff.mp ht
    rw [List.getElem_cons_drop, List.take_append_drop]
  cases h with
  | package => exact absurd hrole (show packageRole ≠ tokenRole by decide)
  | phraseForm => exact absurd hrole (show phraseRole ≠ tokenRole by decide)
  | phraseAgain => exact absurd hrole (show phraseRole ≠ tokenRole by decide)
  | @tokenForm i j p t flaw hp ht hflaw =>
    exact ⟨p, List.mem_of_getElem? hp, _, _, hsplit ht, .inl hflaw⟩
  | @tokenAgain i j k p t hp ht hlegal hk hother =>
    refine ⟨p, List.mem_of_getElem? hp, _, _, hsplit ht, .inr ⟨?_, rfl⟩⟩
    exact List.mem_of_getElem? ((List.getElem?_take_of_lt hk).trans hother)

/-- The check reports what is wrong at the first spot at which anything is, and accepts a batch in which
nothing is wrong.  Only the earlier tokens of its own phrase can stand against a token, and the words of
a reported fault tell its flaw. -/
theorem Batch.check_reports_first (b : Batch) :
    (∀ fault, b.check = .error fault ↔ b.FirstWrong fault) ∧
    (b.check = .ok () ↔ ∀ spot fault, ¬ b.WrongAt spot fault) ∧
    (∀ fault, b.check = .error fault → fault.role = tokenRole →
      ∃ p ∈ b.phrases, ∃ earlier later, p.tokens = earlier ++ fault.name :: later ∧
        (FormFlaw fault.name fault.flaw ∨
          fault.name ∈ earlier ∧ fault.flaw = .repeatedIn p.name)) ∧
    (∀ flaw other : Flaw, flaw.message = other.message → flaw = other) := by
  have haccepted : b.check = .ok () → ∀ spot fault, ¬ b.WrongAt spot fault :=
    fun h => (check_eq_ok_iff.mp h).not_wrongAt
  have hreported : ∀ fault, b.FirstWrong fault → b.check = .error fault := by
    intro fault hfirst
    cases hcheck : b.check with
    | ok =>
      obtain ⟨spot, hwrong, -⟩ := hfirst
      exact absurd hwrong (haccepted hcheck spot fault)
    | error other => rw [(firstWrong_of_check hcheck).unique hfirst]
  refine ⟨fun fault => ⟨firstWrong_of_check, hreported fault⟩, ⟨haccepted, ?_⟩, ?_,
    fun flaw other => Flaw.message_injective⟩
  · intro hnone
    cases hcheck : b.check with
    | ok => rfl
    | error fault =>
      obtain ⟨spot, hwrong, -⟩ := firstWrong_of_check hcheck
      exact absurd hwrong (hnone spot fault)
  · intro fault hcheck hrole
    obtain ⟨spot, hwrong, -⟩ := firstWrong_of_check hcheck
    exact hwrong.of_token hrole

end Phrasebook
