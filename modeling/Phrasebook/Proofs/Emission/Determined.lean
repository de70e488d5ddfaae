/-
# Phrasebook.Proofs.Emission.Determined -- the generated text tells which batch it is of

Two batches that pass the check have the same text only if they are the same in print: the same
package, and position by position the same names, tokens and rendered documentation.

The text is read from the front.  What comes before the package is the same for both texts, and a
package ends at the first semicolon.  After the opening of the class every line is a single line, so
the text gives its lines; these are cut into blocks by their first lines.  Documentation may imitate
any other line of the file but is always indented under its comment, so that it can neither be nor
hide the line that ends the comment.
-/
import Mathlib.Data.List.Forall2
import Phrasebook.Proofs.Emission.Code

namespace Phrasebook

open Java

/-! ## What is seen of a phrase -/

/-- The lines of documentation as they are seen, blank ones as empty. -/
def renderedLines (doc : Text) : List Text :=
  (Text.replace "*/" "*&#47;" doc).commentLines.map fun l => if l.isBlank then [] else l

/-- Two phrases that print the same. -/
structure Phrase.SameInPrint (p q : Phrase) : Prop where
  name : p.name = q.name
  tokens : p.tokens = q.tokens
  documentation : p.documentation.map renderedLines = q.documentation.map renderedLines

namespace Listing

/-- A line of documentation as it is printed, given as it is seen. -/
def shownLine (l : Text) : Text := if l = [] then "   *" else "   * " ++ l

/-- The line that ends a comment. -/
def docEnd : Text := "   */"

/-- The comment of documentation, given as it is seen. -/
def shownDoc (ls : List Text) : List Text := ("  /**" : Text) :: ls.map shownLine ++ [docEnd]

theorem docLines_eq_shown (doc : Text) : docLines doc = shownDoc (renderedLines doc) := by
  have hline : docLine = shownLine ∘ fun l => if l.isBlank then [] else l := by
    funext l
    show docLine l = shownLine (if l.isBlank then [] else l)
    unfold docLine shownLine
    by_cases hb : l.isBlank = true
    · rw [if_pos hb, if_pos hb, if_pos rfl]
    · have hne : l ≠ [] := by
        rintro rfl
        exact hb rfl
      rw [if_neg hb, if_neg hb, if_neg hne]
  rw [docLines, shownDoc, renderedLines, List.map_map, hline, docEnd]

theorem shownLine_injective : Function.Injective shownLine := by
  intro l m h
  unfold shownLine at h
  split at h <;> split at h
  · next hl hm => rw [hl, hm]
  · have hlen := congrArg List.length h
    simp [Text.ofString] at hlen
  · have hlen := congrArg List.length h
    simp [Text.ofString] at hlen
  · exact List.append_cancel_left h

/-- No line of documentation ends its comment. -/
theorem docEnd_not_mem (ls : List Text) : docEnd ∉ ls.map shownLine := by
  intro hm
  obtain ⟨l, -, h⟩ := List.mem_map.mp hm
  -- Where the end of a comment has its slash, a line of documentation has a space or nothing.
  have hfifth := congrArg (fun t : Text => t[4]?) h
  unfold shownLine at hfifth
  split at hfifth
  · exact absurd hfifth (by decide)
  · exact absurd (show some (CodePoint.scalar ' ') = some (.scalar '/') from hfifth) (by decide)

/-- A comment is read back, and so is what follows it. -/
theorem shownDoc_append_inj {ls ms rest rest' : List Text}
    (h : shownDoc ls ++ rest = shownDoc ms ++ rest') : ls = ms ∧ rest = rest' := by
  have hcut : ls.map shownLine ++ docEnd :: rest = ms.map shownLine ++ docEnd :: rest' := by
    rw [shownDoc, shownDoc, List.append_assoc, List.append_assoc] at h
    exact (List.cons.inj h).2
  obtain ⟨hlines, hrest⟩ := Text.append_sep_inj (docEnd_not_mem ls) (docEnd_not_mem ms) hcut
  exact ⟨(List.map_injective_iff.mpr shownLine_injective) hlines, hrest⟩

/-! ## Reading a factory -/

theorem factoryBlock_eq_shown (p : Phrase) :
    factoryBlock p =
      ((p.documentation.map renderedLines).map shownDoc).getD [] ++ (factoryLines p ++ [[]]) := by
  have hdoc : docLines = shownDoc ∘ renderedLines := funext docLines_eq_shown
  rw [factoryBlock, List.append_assoc, hdoc, Option.map_map]

/-- The factory of a phrase depends on its name and on what is seen of its documentation. -/
theorem factoryBlock_congr {p q : Phrase} (hname : p.name = q.name)
    (hdoc : p.documentation.map renderedLines = q.documentation.map renderedLines) :
    factoryBlock p = factoryBlock q := by
  rw [factoryBlock_eq_shown, factoryBlock_eq_shown, hdoc, factoryLines, factoryLines, hname]

/-- The factory itself gives the name of its phrase. -/
theorem factoryLines_append_inj {p q : Phrase} (hp : isIdentifier p.name = true)
    (hq : isIdentifier q.name = true) {rest rest' : List Text}
    (h : factoryLines p ++ rest = factoryLines q ++ rest') : p.name = q.name ∧ rest = rest' := by
  have hspace : ∀ {n : Text}, isIdentifier n = true → (.scalar ' ' : CodePoint) ∉ n :=
    fun hn => not_mem_of_isIdentifier hn (by decide)
  have hline : ("  public static Phrase_" : Text) ++ p.name ++ " " ++ p.name ++ "() \x7b" =
      "  public static Phrase_" ++ q.name ++ " " ++ q.name ++ "() \x7b" := (List.cons.inj h).1
  simp only [List.append_assoc] at hline
  have hname : p.name = q.name :=
    (Text.append_sep_inj (hspace hp) (hspace hq) (List.append_cancel_left hline)).1
  refine ⟨hname, ?_⟩
  rw [factoryLines, factoryLines, hname] at h
  exact List.append_cancel_left h

/-- The first 17 code points of the first line, by which blocks are told apart. -/
def mark (ls : List Text) : Text := (ls.headD []).take 17

/-- A factory is marked by its comment or, without documentation, by its own opening. -/
theorem mark_factoryBlock (p : Phrase) (rest : List Text) :
    mark (factoryBlock p ++ rest) =
      if p.documentation.isSome then ("  /**" : Text) else ("  public static P" : Text) := by
  rw [factoryBlock_eq_shown]
  cases p.documentation with
  | none => rfl
  | some doc => rfl

/-- A builder is marked by its modifiers, and so is the base class where no builders are left. -/
theorem mark_builders (ps : List Phrase) :
    mark (ps.flatMap builderBlock ++ ending) =
      if ps.isEmpty then ("  public abstract" : Text) else ("  public static f" : Text) := by
  cases ps with
  | nil => rfl
  | cons p ps => rfl

/-- The builders do not go on with a factory. -/
theorem builders_ne_factory (ps : List Phrase) (p : Phrase) (rest : List Text) :
    ps.flatMap builderBlock ++ ending ≠ factoryBlock p ++ rest := by
  intro h
  have hmark := congrArg mark h
  rw [mark_builders, mark_factoryBlock] at hmark
  split at hmark <;> split at hmark <;> exact absurd hmark (by decide)

/-- The block of a factory gives the name and the documentation of its phrase. -/
theorem factoryBlock_append_inj {p q : Phrase} (hp : isIdentifier p.name = true)
    (hq : isIdentifier q.name = true) {rest rest' : List Text}
    (h : factoryBlock p ++ rest = factoryBlock q ++ rest') :
    p.name = q.name ∧ p.documentation.map renderedLines = q.documentation.map renderedLines ∧
      rest = rest' := by
  -- The marks say whether there is a comment to be read before the factory itself.
  have hmark := congrArg mark h
  rw [mark_factoryBlock, mark_factoryBlock] at hmark
  rw [factoryBlock_eq_shown, factoryBlock_eq_shown] at h
  cases hdp : p.documentation with
  | none =>
    cases hdq : q.documentation with
    | none =>
      rw [hdp, hdq] at h
      obtain ⟨hname, hrest⟩ := factoryLines_append_inj hp hq h
      exact ⟨hname, rfl, (List.cons.inj hrest).2⟩
    | some doc =>
      rw [hdp, hdq] at hmark
      exact absurd (show ("  public static P" : Text) = "  /**" from hmark) (by decide)
  | some doc =>
    cases hdq : q.documentation with
    | none =>
      rw [hdp, hdq] at hmark
      exact absurd (show ("  /**" : Text) = "  public static P" from hmark) (by decide)
    | some doc' =>
      rw [hdp, hdq] at h
      simp only [Option.map_some, Option.getD_some, List.append_assoc] at h
      obtain ⟨hdoc, htail⟩ := shownDoc_append_inj h
      obtain ⟨hname, hrest⟩ := factoryLines_append_inj hp hq htail
      exact ⟨hname, congrArg some hdoc, (List.cons.inj hrest).2⟩

/-- The factories give the names and documentation of all phrases, if no factory follows them. -/
theorem factories_append_inj {ps qs : List Phrase} (hp : ∀ p ∈ ps, isIdentifier p.name = true)
    (hq : ∀ q ∈ qs, isIdentifier q.name = true) {rest rest' : List Text}
    (hrest : ∀ p tail, rest ≠ factoryBlock p ++ tail)
    (hrest' : ∀ p tail, rest' ≠ factoryBlock p ++ tail)
    (h : ps.flatMap factoryBlock ++ rest = qs.flatMap factoryBlock ++ rest') :
    List.Forall₂ (fun p q => p.name = q.name ∧
      p.documentation.map renderedLines = q.documentation.map renderedLines) ps qs ∧
      rest = rest' := by
  -- Both lists are read in step; the side that ends first would go on with a factory of the other.
  induction ps generalizing qs with
  | nil =>
    cases qs with
    | nil => exact ⟨List.Forall₂.nil, h⟩
    | cons q qs =>
      rw [List.flatMap_cons, List.append_assoc] at h
      exact absurd h (hrest q _)
  | cons p ps ih =>
    cases qs with
    | nil =>
      rw [List.flatMap_cons, List.append_assoc] at h
      exact absurd h.symm (hrest' p _)
    | cons q qs =>
      rw [List.flatMap_cons, List.flatMap_cons, List.append_assoc, List.append_assoc] at h
      obtain ⟨hname, hdoc, htail⟩ := factoryBlock_append_inj (hp p (List.mem_cons_self ..))
        (hq q (List.mem_cons_self ..)) h
      obtain ⟨hall, hend⟩ := ih (fun x hx => hp x (List.mem_cons_of_mem p hx))
        (fun x hx => hq x (List.mem_cons_of_mem q hx)) htail
      exact ⟨List.Forall₂.cons ⟨hname, hdoc⟩ hall, hend⟩

/-! ## Reading a builder -/

/-- Literals after a comma each. -/
def moreLiterals (tokens : List Text) : Text := tokens.flatMap fun t => ", " ++ literal t

theorem join_literals (t : Text) (ts : List Text) :
    Text.join ", " ((t :: ts).map literal) = literal t ++ moreLiterals ts := by
  induction ts generalizing t with
  | nil => simp [moreLiterals, Text.join]
  | cons u us ih =>
    have hjoin := ih u
    rw [Text.join] at hjoin ⊢
    rw [List.map_cons, List.map_cons, List.intercalate_cons_cons, ← List.map_cons, hjoin,
      moreLiterals, moreLiterals, List.flatMap_cons, List.append_assoc, List.append_assoc]

theorem literal_append_inj {s t : Text} (hs : isIdentifier s = true) (ht : isIdentifier t = true)
    {rest rest' : Text} (h : literal s ++ rest = literal t ++ rest') : s = t ∧ rest = rest' := by
  have hquote : ∀ {n : Text}, isIdentifier n = true → (.scalar '"' : CodePoint) ∉ n :=
    fun hn => not_mem_of_isIdentifier hn (by decide)
  simp only [literal, List.append_assoc] at h
  exact Text.append_sep_inj (hquote hs) (hquote ht) (List.append_cancel_left h)

theorem moreLiterals_injective {ss ts : List Text} (hs : ∀ t ∈ ss, isIdentifier t = true)
    (ht : ∀ t ∈ ts, isIdentifier t = true) (h : moreLiterals ss = moreLiterals ts) : ss = ts := by
  induction ss generalizing ts with
  | nil =>
    cases ts with
    | nil => rfl
    | cons t ts => exact absurd h (List.cons_ne_nil _ _).symm
  | cons s ss ih =>
    cases ts with
    | nil => exact absurd h (List.cons_ne_nil _ _)
    | cons t ts =>
      simp only [moreLiterals, List.flatMap_cons, List.append_assoc] at h
      obtain ⟨rfl, htail⟩ := literal_append_inj (hs s (List.mem_cons_self ..))
        (ht t (List.mem_cons_self ..)) (List.append_cancel_left h)
      rw [ih (fun x hx => hs x (List.mem_cons_of_mem s hx))
        (fun x hx => ht x (List.mem_cons_of_mem s hx)) htail]

/-- The list of literals in a constructor call gives the tokens. -/
theorem literals_injective {ss ts : List Text} (hs : ∀ t ∈ ss, isIdentifier t = true)
    (ht : ∀ t ∈ ts, isIdentifier t = true)
    (h : Text.join ", " (ss.map literal) = Text.join ", " (ts.map literal)) : ss = ts := by
  cases ss with
  | nil =>
    cases ts with
    | nil => rfl
    | cons t ts =>
      rw [join_literals] at h
      exact absurd h (List.cons_ne_nil _ _).symm
  | cons s ss =>
    cases ts with
    | nil =>
      rw [join_literals] at h
      exact absurd h (List.cons_ne_nil _ _)
    | cons t ts =>
      rw [join_literals, join_literals] at h
      obtain ⟨rfl, htail⟩ := literal_append_inj (hs s (List.mem_cons_self ..))
        (ht t (List.mem_cons_self ..)) h
      rw [moreLiterals_injective (fun x hx => hs x (List.mem_cons_of_mem s hx))
        (fun x hx => ht x (List.mem_cons_of_mem s hx)) htail]

/-- The builder of a phrase depends on its name and its tokens. -/
theorem builderBlock_congr {p q : Phrase} (hname : p.name = q.name)
    (htokens : p.tokens = q.tokens) : builderBlock p = builderBlock q := by
  have hsetters : ∀ i ts, settersLines p i ts = settersLines q i ts := by
    intro i ts
    induction ts generalizing i with
    | nil => rfl
    | cons t ts ih => rw [settersLines, settersLines, ih, setterLines, setterLines, hname]
  rw [builderBlock, builderBlock, builderLines, builderLines, hname, htokens, hsetters]

/-- The builder of a phrase whose name is known gives its tokens. -/
theorem builderBlock_append_inj {p q : Phrase} (hname : p.name = q.name)
    (hp : ∀ t ∈ p.tokens, isIdentifier t = true) (hq : ∀ t ∈ q.tokens, isIdentifier t = true)
    {rest rest' : List Text} (h : builderBlock p ++ rest = builderBlock q ++ rest') :
    p.tokens = q.tokens ∧ rest = rest' := by
  -- The constructor call is the third line of the block.
  have hcall : ("      super(" : Text) ++ Text.join ", " (p.tokens.map literal) ++ ");" =
      "      super(" ++ Text.join ", " (q.tokens.map literal) ++ ");" :=
    Option.some.inj (congrArg (fun ls : List Text => ls[2]?) h)
  have htokens : p.tokens = q.tokens :=
    literals_injective hp hq (List.append_cancel_left (List.append_cancel_right hcall))
  rw [builderBlock_congr hname htokens] at h
  exact ⟨htokens, List.append_cancel_left h⟩

/-- The builders give the tokens of phrases whose names and documentation are known. -/
theorem builders_append_inj {ps qs : List Phrase} (hp : ∀ p ∈ ps, p.Legal) (hq : ∀ q ∈ qs, q.Legal)
    (hknown : List.Forall₂ (fun p q => p.name = q.name ∧
      p.documentation.map renderedLines = q.documentation.map renderedLines) ps qs)
    {rest rest' : List Text}
    (h : ps.flatMap builderBlock ++ rest = qs.flatMap builderBlock ++ rest') :
    List.Forall₂ Phrase.SameInPrint ps qs := by
  induction hknown with
  | nil => exact List.Forall₂.nil
  | cons hpq _ ih =>
    rw [List.flatMap_cons, List.flatMap_cons, List.append_assoc, List.append_assoc] at h
    obtain ⟨htokens, htail⟩ := builderBlock_append_inj hpq.1 (hp _ (List.mem_cons_self ..)).tokens
      (hq _ (List.mem_cons_self ..)).tokens h
    exact List.Forall₂.cons ⟨hpq.1, htokens, hpq.2⟩
      (ih (fun x hx => hp x (List.mem_cons_of_mem _ hx))
        (fun x hx => hq x (List.mem_cons_of_mem _ hx)) htail)

/-! ## Reading a whole text -/

theorem oneLine_blocks {phrases : List Phrase} (h : ∀ p ∈ phrases, p.Legal) :
    ∀ l ∈ blocks phrases, Text.OneLine l :=
  fun l hl => (unbroken_blocks h l hl).not_mem (by decide)

/-- The text around the name of the package and around the blocks. -/
theorem text_eq (batch : Batch) (settings : Settings) :
    text batch settings =
      Text.unlines (settings.header.commentLines.map headerLine) ++ ("package " ++
        (batch.package ++ (.scalar ';' : CodePoint) :: ([(.scalar '\n' : CodePoint)] ++
          (Text.unlines ([] :: importLines settings.imports ++
            [("public final class Phrase \x7b" : Text)]) ++
              (Text.unlines (blocks batch.phrases) ++ Text.unlines ending))))) := by
  have hsemicolon : Text.ofString ";" = [(.scalar ';' : CodePoint)] := rfl
  have hnil : Text.unlines [] = [] := rfl
  simp only [text, lines, opening, blocks, Text.unlines_append, Text.unlines_cons, packageLine,
    hsemicolon, hnil, List.append_assoc, List.cons_append, List.nil_append]

/-- The text gives the package and the blocks. -/
theorem text_inj {b c : Batch} {s : Settings} (hb : b.Legal) (hc : c.Legal)
    (h : text b s = text c s) : b.package = c.package ∧ blocks b.phrases = blocks c.phrases := by
  have hsemicolon : ∀ {package : Text}, isPackageName package = true →
      (.scalar ';' : CodePoint) ∉ package :=
    fun hp => not_mem_of_isPackageName hp (by decide) (by decide)
  -- The header cancels, the package ends at its semicolon, and the imports cancel again.
  rw [text_eq, text_eq] at h
  obtain ⟨hpackage, htail⟩ := Text.append_sep_inj (hsemicolon hb.package) (hsemicolon hc.package)
    (List.append_cancel_left (List.append_cancel_left h))
  have hblocks : Text.unlines (blocks b.phrases) = Text.unlines (blocks c.phrases) :=
    List.append_cancel_right (List.append_cancel_left (List.append_cancel_left htail))
  exact ⟨hpackage,
    Text.unlines_injective (oneLine_blocks hb.phrases) (oneLine_blocks hc.phrases) hblocks⟩

/-- The blocks give the phrases as they are seen. -/
theorem blocks_inj {ps qs : List Phrase} (hp : ∀ p ∈ ps, p.Legal) (hq : ∀ q ∈ qs, q.Legal)
    (h : blocks ps = blocks qs) : List.Forall₂ Phrase.SameInPrint ps qs := by
  -- The fixed ending is put back, so that something marks the end of the builders.
  have hlines : ps.flatMap factoryBlock ++ (ps.flatMap builderBlock ++ ending) =
      qs.flatMap factoryBlock ++ (qs.flatMap builderBlock ++ ending) := by
    rw [← List.append_assoc, ← List.append_assoc]
    exact congrArg (· ++ ending) h
  obtain ⟨hknown, hbuilders⟩ := factories_append_inj (fun p hm => (hp p hm).name)
    (fun q hm => (hq q hm).name) (builders_ne_factory ps) (builders_ne_factory qs) hlines
  exact builders_append_inj hp hq hknown hbuilders

/-- Phrases that are seen as the same have the same blocks. -/
theorem blocks_congr {ps qs : List Phrase} (h : List.Forall₂ Phrase.SameInPrint ps qs) :
    blocks ps = blocks qs := by
  have hboth : ps.flatMap factoryBlock = qs.flatMap factoryBlock ∧
      ps.flatMap builderBlock = qs.flatMap builderBlock := by
    induction h with
    | nil => exact ⟨rfl, rfl⟩
    | cons hpq _ ih =>
      simp only [List.flatMap_cons]
      rw [ih.1, ih.2, factoryBlock_congr hpq.name hpq.documentation,
        builderBlock_congr hpq.name hpq.tokens]
      exact ⟨rfl, rfl⟩
  rw [blocks, blocks, hboth.1, hboth.2]

end Listing

/-- The generated text determines the batch as far as it can be seen: two batches that pass the
check have the same text exactly if their packages are equal and their phrases print the same,
position by position. -/
theorem sourceText_eq_iff {b c : Batch} (settings : Settings) (hb : b.check = .ok ())
    (hc : c.check = .ok ()) :
    ∃ s t, sourceText b settings = .ok s ∧ sourceText c settings = .ok t ∧
      (s = t ↔ b.package = c.package ∧ b.phrases.length = c.phrases.length ∧
        ∀ i (hi : i < b.phrases.length) (hj : i < c.phrases.length),
          b.phrases[i].SameInPrint c.phrases[i]) := by
  have hlb := Batch.check_eq_ok_iff.mp hb
  have hlc := Batch.check_eq_ok_iff.mp hc
  refine ⟨Listing.text b settings, Listing.text c settings,
    Listing.sourceText_eq (Or.inr hb), Listing.sourceText_eq (Or.inr hc), ?_⟩
  have hforall : (b.phrases.length = c.phrases.length ∧
      ∀ i (hi : i < b.phrases.length) (hj : i < c.phrases.length),
        b.phrases[i].SameInPrint c.phrases[i]) ↔
      List.Forall₂ Phrase.SameInPrint b.phrases c.phrases :=
    List.forall₂_iff_get.symm
  rw [hforall]
  constructor
  · intro h
    obtain ⟨hpackage, hblocks⟩ := Listing.text_inj hlb hlc h
    exact ⟨hpackage, Listing.blocks_inj hlb.phrases hlc.phrases hblocks⟩
  · rintro ⟨hpackage, hphrases⟩
    rw [Listing.text_eq, Listing.text_eq, hpackage, Listing.blocks_congr hphrases]

/-- A batch whose documentation is one blank. -/
def blankDoc : Batch := ⟨"app", [⟨"hello", some " ", ["name"]⟩]⟩

/-- The same batch with empty documentation. -/
def emptyDoc : Batch := ⟨"app", [⟨"hello", some "", ["name"]⟩]⟩

/-- Empty documentation is seen as one blank line. -/
theorem sourceText_blankDoc :
    blankDoc.check = .ok () ∧ emptyDoc.check = .ok () ∧
      sourceText blankDoc { } = sourceText emptyDoc { } := by
  refine ⟨rfl, rfl, ?_⟩
  obtain ⟨s, t, hs, ht, hiff⟩ := sourceText_eq_iff (b := blankDoc) (c := emptyDoc) { } rfl rfl
  have hsame : ∀ i (hi : i < blankDoc.phrases.length) (hj : i < emptyDoc.phrases.length),
      blankDoc.phrases[i].SameInPrint emptyDoc.phrases[i] := by
    intro i hi hj
    obtain rfl : i = 0 := Nat.lt_one_iff.mp hi
    exact ⟨rfl, rfl, rfl⟩
  rw [hs, ht, hiff.mpr ⟨rfl, rfl, hsame⟩]

end Phrasebook
