/-
# Phrasebook.Proofs.Java.Pieces -- code and comments of a source, before and after the escapes

`cut` is what is seen of comments when Java is read.  It cuts a text into pieces, by turns code and
a comment with its delimiters.  A text survives the translation of escapes if it can be translated,
and the pieces of the result are the pieces of the text, translated: then comments begin and end
where they did, and the code is left as it was.

Whether a text does is a question about its comments one by one (`survivesEscapes_iff`), if it is
put together from plain code and comments.  Text blocks are left out of `cut`: they need three
quotes in a row, which no such text has outside of its comments.
-/
import Phrasebook.Proofs.Emission.Code
import Phrasebook.Proofs.Java.Escapes

namespace Phrasebook.Java

open Text (star slash)

/-! ## Comments -/

/-- What the reading of a source is in the middle of. -/
inductive Mode where
  | code
  | literal (delimiter : CodePoint)
  /-- Behind a backslash in a literal. -/
  | escaped (delimiter : CodePoint)
  | lineComment
  | blockComment
deriving DecidableEq, Repr

/-- The delimiter of a character literal. -/
def apostrophe : CodePoint := .scalar '\''

/-- A line feed or a carriage return. -/
def endsLine (c : CodePoint) : Bool := c = .scalar '\n' || c = .scalar '\r'

/-- The mode behind a character that opens no comment; a literal ends with its line at the latest. -/
def modeAfter (c : CodePoint) : Mode → Mode
  | .code => if c = quote ∨ c = apostrophe then .literal c else .code
  | .literal delimiter =>
    if c = delimiter ∨ endsLine c then .code
    else if c = backslash then .escaped delimiter
    else .literal delimiter
  | .escaped delimiter => if endsLine c then .code else .literal delimiter
  | mode => mode

/-- A piece of a source that is code, or one comment. -/
structure Piece where
  isComment : Bool
  text : Text
deriving DecidableEq, Repr

/-- Puts a text in front of the first piece. -/
def prepend (t : Text) : List Piece → List Piece
  | [] => []
  | p :: ps => { p with text := t ++ p.text } :: ps

/-- The pieces of what follows, by turns code and a comment.  The end of a line does not belong to a
line comment. -/
def cut : Mode → Text → List Piece
  | .lineComment, [] => [⟨true, []⟩]
  | .blockComment, [] => [⟨true, []⟩]
  | _, [] => [⟨false, []⟩]
  | .code, .scalar '/' :: .scalar '/' :: cs => ⟨false, []⟩ :: prepend "//" (cut .lineComment cs)
  | .code, .scalar '/' :: .scalar '*' :: cs => ⟨false, []⟩ :: prepend "/*" (cut .blockComment cs)
  | .blockComment, .scalar '*' :: .scalar '/' :: cs => ⟨true, "*/"⟩ :: cut .code cs
  | .lineComment, c :: cs =>
    if endsLine c then ⟨true, []⟩ :: prepend [c] (cut .code cs)
    else prepend [c] (cut .lineComment cs)
  | mode, c :: cs => prepend [c] (cut (modeAfter c mode) cs)

/-- The pieces of a whole source. -/
def pieces (t : Text) : List Piece := cut .code t

example : pieces "a//b\n\"/*\"/**/" =
    [⟨false, "a"⟩, ⟨true, "//b"⟩, ⟨false, "\n\"/*\""⟩, ⟨true, "/**/"⟩, ⟨false, ""⟩] := by decide

/-- A piece and what it is translated to: code is left as it is. -/
def Piece.Translates (p q : Piece) : Prop :=
  p.isComment = q.isComment ∧ if p.isComment then translate p.text = some q.text else p.text = q.text

/-- A text that can be translated, and whose comments begin and end where they did. -/
def SurvivesEscapes (t : Text) : Prop :=
  ∃ t', translate t = some t' ∧ List.Forall₂ Piece.Translates (pieces t) (pieces t')

/-! ## Reading on -/

theorem prepend_prepend (s t : Text) (ps : List Piece) :
    prepend s (prepend t ps) = prepend (s ++ t) ps := by
  cases ps with
  | nil => rfl
  | cons p ps =>
    show _ :: ps = _ :: ps
    rw [List.append_assoc]

@[simp] theorem prepend_nil (ps : List Piece) : prepend [] ps = ps := by
  cases ps <;> rfl

/-- A character goes to the piece it is in, if no comment begins or ends with it. -/
theorem cut_cons {mode : Mode} {c : CodePoint} {cs : Text} (hline : mode ≠ .lineComment)
    (hcode : mode = .code → c ≠ slash)
    (hblock : mode = .blockComment → ∀ d ∈ cs.head?, Text.Harmless c d) :
    cut mode (c :: cs) = prepend [c] (cut (modeAfter c mode) cs) := by
  rw [cut]
  · rintro cs' hmode rfl -
    exact hcode hmode rfl
  · rintro cs' hmode rfl -
    exact hcode hmode rfl
  · rintro cs' hmode rfl rfl
    exact hblock hmode slash rfl ⟨rfl, rfl⟩
  · exact hline

theorem cut_literal_cons (delimiter c : CodePoint) (cs : Text) :
    cut (.literal delimiter) (c :: cs) = prepend [c] (cut (modeAfter c (.literal delimiter)) cs) :=
  cut_cons nofun nofun nofun

theorem cut_blockComment_cons {c : CodePoint} {cs : Text}
    (h : ∀ d ∈ cs.head?, Text.Harmless c d) :
    cut .blockComment (c :: cs) = prepend [c] (cut .blockComment cs) :=
  cut_cons nofun nofun fun _ => h

/-! ## Plain code -/

/-- Code behind which there is again nothing but code. -/
def CodeText (t : Text) : Prop := ∀ rest, cut .code (t ++ rest) = prepend t (cut .code rest)

theorem CodeText.append {s t : Text} (hs : CodeText s) (ht : CodeText t) : CodeText (s ++ t) := by
  intro rest
  rw [List.append_assoc, hs, ht, prepend_prepend]

/-- A character of code ends no line. -/
theorem endsLine_of_isCodeChar {c : CodePoint} (hc : isCodeChar c = true) : endsLine c = false := by
  have hfeed : c ≠ .scalar '\n' := ne_of_isCodeChar hc (by decide)
  have hreturn : c ≠ .scalar '\r' := ne_of_isCodeChar hc (by decide)
  simp only [endsLine, hfeed, hreturn, decide_false, Bool.or_self]

/-- A literal is left with the quote it was opened with. -/
theorem cut_literal {content : Text} (h : ∀ c ∈ content, isCodeChar c = true) (rest : Text) :
    cut (.literal quote) (content ++ quote :: rest) =
      prepend (content ++ [quote]) (cut .code rest) := by
  induction content with
  | nil => exact cut_literal_cons quote quote rest
  | cons c content ih =>
    have hc := h c (List.mem_cons_self ..)
    have hquote : c ≠ quote := ne_of_isCodeChar hc (by decide)
    have hbackslash : c ≠ backslash := ne_of_isCodeChar hc (by decide)
    have hmode : modeAfter c (.literal quote) = .literal quote := by
      simp [modeAfter, hquote, hbackslash, endsLine_of_isCodeChar hc]
    rw [List.cons_append, cut_literal_cons, hmode, ih fun d hd => h d (List.mem_cons_of_mem c hd),
      prepend_prepend]
    rfl

/-- A character that opens nothing. -/
theorem codeText_singleton {c : CodePoint} (hslash : c ≠ slash) (hquote : c ≠ quote)
    (hapostrophe : c ≠ apostrophe) : CodeText [c] := by
  intro rest
  have hmode : modeAfter c .code = .code := by
    simp [modeAfter, hquote, hapostrophe]
  have hcons : cut .code (c :: rest) = prepend [c] (cut (modeAfter c .code) rest) :=
    cut_cons nofun (fun _ => hslash) nofun
  rw [hmode] at hcons
  exact hcons

/-- Plain code leaves its reader in code. -/
theorem PlainCode.codeText {t : Text} (h : PlainCode t) : CodeText t := by
  induction h with
  | nil => exact fun rest => (prepend_nil _).symm
  | cons hc _ ih =>
    exact CodeText.append (codeText_singleton (ne_of_isCodeChar hc (by decide))
      (ne_of_isCodeChar hc (by decide)) (ne_of_isCodeChar hc (by decide))) ih
  | @literal content t hcontent _ ih =>
    intro rest
    have hopen : cut .code (quote :: (content ++ quote :: (t ++ rest))) =
        prepend [quote] (cut (.literal quote) (content ++ quote :: (t ++ rest))) :=
      cut_cons nofun (by decide) nofun
    rw [List.cons_append, List.append_assoc, List.cons_append, hopen, cut_literal hcontent, ih rest,
      prepend_prepend, prepend_prepend]
    simp only [List.append_assoc, List.cons_append, List.nil_append]

/-! ## Comments one by one -/

/-- A line comment lasts to the end of its line. -/
theorem cut_lineComment {t : Text} (h : ∀ c ∈ t, endsLine c = false) (rest : Text) :
    cut .lineComment (t ++ .scalar '\n' :: rest) =
      ⟨true, t⟩ :: prepend "\n" (cut .code rest) := by
  induction t with
  | nil => rfl
  | cons c t ih =>
    have hc : ¬ endsLine c = true := by simp [h c (List.mem_cons_self ..)]
    rw [List.cons_append, cut, if_neg hc, ih fun d hd => h d (List.mem_cons_of_mem c hd)]
    rfl

/-- It ends before what was meant to be its end, if there is another end of a line in it. -/
theorem cut_lineComment_early {t : Text} (h : ¬ ∀ c ∈ t, endsLine c = false) (rest : Text) :
    ∃ s ps, cut .lineComment (t ++ rest) = ⟨true, s⟩ :: ps ∧ s.length < t.length := by
  induction t with
  | nil => exact absurd (fun c hc => absurd hc List.not_mem_nil) h
  | cons c t ih =>
    rw [List.cons_append, cut]
    by_cases hc : endsLine c = true
    · rw [if_pos hc]
      exact ⟨[], _, rfl, Nat.succ_pos _⟩
    · have ht : ¬ ∀ d ∈ t, endsLine d = false := by
        intro hall
        refine h (List.forall_mem_cons.mpr ⟨?_, hall⟩)
        simpa using hc
      obtain ⟨s, ps, hcut, hlen⟩ := ih ht
      rw [if_neg hc, hcut]
      exact ⟨c :: s, ps, rfl, Nat.succ_lt_succ hlen⟩

/-- A block comment lasts to the first place that closes it. -/
theorem cut_blockComment {t : Text} (h : t.Unclosed) (rest : Text) :
    cut .blockComment (t ++ star :: slash :: rest) =
      ⟨true, t ++ [star, slash]⟩ :: cut .code rest := by
  induction t with
  | nil => rfl
  | cons c t ih =>
    obtain ⟨hhead, htail⟩ := Text.unclosed_cons.mp h
    have hnext : ∀ d ∈ (t ++ star :: slash :: rest).head?, Text.Harmless c d := by
      cases t with
      | nil =>
        rintro _ ⟨⟩ ⟨-, hslash⟩
        exact absurd hslash (by decide)
      | cons d t => exact hhead
    rw [List.cons_append, cut_blockComment_cons hnext, ih htail]
    rfl

/-- It ends early, if there is another such place in it. -/
theorem cut_blockComment_early {t : Text} (h : ¬ t.Unclosed) (rest : Text) :
    ∃ s ps, cut .blockComment (t ++ rest) = ⟨true, s⟩ :: ps ∧ s.length ≤ t.length := by
  induction t with
  | nil => exact absurd Text.unclosed_nil h
  | cons c t ih =>
    by_cases hhead : ∀ d ∈ t.head?, Text.Harmless c d
    · have ht : ¬ Text.Unclosed t := fun htail => h (Text.unclosed_cons.mpr ⟨hhead, htail⟩)
      obtain ⟨s, ps, hcut, hlen⟩ := ih ht
      have hnext : ∀ d ∈ (t ++ rest).head?, Text.Harmless c d := by
        cases t with
        | nil => exact absurd Text.unclosed_nil ht
        | cons d t => exact hhead
      rw [List.cons_append, cut_blockComment_cons hnext, hcut]
      exact ⟨c :: s, ps, rfl, Nat.succ_le_succ hlen⟩
    · cases t with
      | nil => exact absurd (fun d hd => nomatch hd) hhead
      | cons d t =>
        obtain ⟨rfl, rfl⟩ : c = star ∧ d = slash := by simpa [Text.Harmless] using hhead
        exact ⟨[star, slash], cut .code (t ++ rest), rfl, Nat.succ_le_succ (Nat.succ_pos _)⟩

/-! ## The two kinds of comments -/

/-- A comment to the end of a line, or between delimiters. -/
inductive CommentKind where
  | line
  | block
deriving DecidableEq, Repr

namespace CommentKind

/-- What opens the comment. -/
def opener : CommentKind → Text
  | line => "//"
  | block => "/*"

/-- What closes it and still belongs to it. -/
def closer : CommentKind → Text
  | line => []
  | block => "*/"

/-- The code that has to stand behind it. -/
def behind : CommentKind → Text
  | line => "\n"
  | block => []

/-- The comment itself. -/
def comment (kind : CommentKind) (t : Text) : Text := kind.opener ++ (t ++ kind.closer)

/-- The comment and what has to stand behind it. -/
def text (kind : CommentKind) (t : Text) : Text :=
  kind.opener ++ (t ++ (kind.closer ++ kind.behind))

/-- A text that can be said in a comment, in which it must not end. -/
def Fits : CommentKind → Text → Prop
  | line, t => ∀ c ∈ t, endsLine c = false
  | block, t => t.Unclosed

theorem backslash_not_mem_opener (kind : CommentKind) : backslash ∉ kind.opener := by
  cases kind <;> decide

/-- No escape goes on into the end of a comment. -/
theorem ending_eq (kind : CommentKind) :
    ∃ c cs, kind.closer ++ kind.behind = c :: cs ∧ EndsEscapes c ∧ backslash ∉ cs := by
  cases kind with
  | line => exact ⟨.scalar '\n', [], rfl, ⟨by decide, by decide, rfl⟩, by decide⟩
  | block => exact ⟨star, [slash], rfl, ⟨by decide, by decide, rfl⟩, by decide⟩

instance (kind : CommentKind) (t : Text) : Decidable (kind.Fits t) :=
  match kind with
  | line => inferInstanceAs (Decidable (∀ c ∈ t, endsLine c = false))
  | block => inferInstanceAs (Decidable t.Unclosed)

/-- A text that can be translated, and fits also then. -/
def StillFits (kind : CommentKind) (t : Text) : Prop := ∃ t', translate t = some t' ∧ kind.Fits t'

/-- A comment is translated by translating what it says. -/
theorem translate_text (kind : CommentKind) (t rest : Text) :
    translate (kind.text t ++ rest) =
      (translate t).bind fun t' => (translate rest).map fun rest' => kind.text t' ++ rest' := by
  obtain ⟨c, cs, hending, hc, hcs⟩ := kind.ending_eq
  have htext : ∀ s r, kind.text s ++ r = kind.opener ++ (s ++ c :: (cs ++ r)) := by
    intro s r
    rw [text, hending, List.append_assoc, List.append_assoc, List.cons_append]
  simp only [htext]
  rw [translate_append_of_backslash_not_mem kind.backslash_not_mem_opener, translate_seam hc,
    translate_append_of_backslash_not_mem hcs, Option.map_bind]
  simp only [Function.comp_def, Option.map_map]

theorem translate_comment (kind : CommentKind) {t t' : Text} (h : translate t = some t') :
    translate (kind.comment t) = some (kind.comment t') := by
  have hclosed : translate (t ++ kind.closer) = some (t' ++ kind.closer) := by
    cases kind with
    | line =>
      show translate (t ++ []) = some (t' ++ [])
      rw [List.append_nil, List.append_nil, h]
    | block =>
      have hstar : EndsEscapes star := ⟨by decide, by decide, rfl⟩
      show translate (t ++ star :: [slash]) = _
      rw [translate_seam hstar, h]
      rfl
  rw [comment, translate_append_of_backslash_not_mem kind.backslash_not_mem_opener, hclosed]
  rfl

/-- A comment is one piece, if what it says fits. -/
theorem pieces_text {kind : CommentKind} {t : Text} (h : kind.Fits t) (rest : Text) :
    pieces (kind.text t ++ rest) =
      ⟨false, []⟩ :: ⟨true, kind.comment t⟩ :: prepend kind.behind (pieces rest) := by
  cases kind with
  | line =>
    show ⟨false, []⟩ :: prepend "//" (cut .lineComment (t ++ [.scalar '\n'] ++ rest)) = _
    rw [List.append_assoc, List.singleton_append, cut_lineComment h, comment, closer,
      List.append_nil]
    rfl
  | block =>
    show ⟨false, []⟩ :: prepend "/*" (cut .blockComment (t ++ [star, slash] ++ rest)) = _
    rw [List.append_assoc, List.cons_append, List.singleton_append, cut_blockComment h, behind,
      prepend_nil]
    rfl

/-- Otherwise the comment is a shorter piece. -/
theorem pieces_text_early {kind : CommentKind} {t : Text} (h : ¬ kind.Fits t) (rest : Text) :
    ∃ s ps, pieces (kind.text t ++ rest) = ⟨false, []⟩ :: ⟨true, s⟩ :: ps ∧
      s.length < (kind.comment t).length := by
  cases kind with
  | line =>
    obtain ⟨s, ps, hcut, hlen⟩ := cut_lineComment_early h ([.scalar '\n'] ++ rest)
    refine ⟨"//" ++ s, ps, ?_, ?_⟩
    · show ⟨false, []⟩ :: prepend "//" (cut .lineComment (t ++ [.scalar '\n'] ++ rest)) = _
      rw [List.append_assoc, hcut]
      rfl
    · show s.length + 2 < (t ++ []).length + 2
      rw [List.append_nil]
      omega
  | block =>
    obtain ⟨s, ps, hcut, hlen⟩ := cut_blockComment_early h ([star, slash] ++ rest)
    refine ⟨"/*" ++ s, ps, ?_, ?_⟩
    · show ⟨false, []⟩ :: prepend "/*" (cut .blockComment (t ++ [star, slash] ++ rest)) = _
      rw [List.append_assoc, hcut]
      rfl
    · show s.length + 2 < (t ++ [star, slash]).length + 2
      have hcloser : [star, slash].length = 2 := rfl
      rw [List.length_append]
      omega

end CommentKind

/-! ## A source made of code and comments -/

/-- A part of a source. -/
inductive Part where
  | code (t : Text)
  /-- What a comment says. -/
  | comment (kind : CommentKind) (t : Text)

/-- A part as it is printed. -/
def Part.text : Part → Text
  | code t => t
  | comment kind t => kind.text t

/-- A part that is read as what it is. -/
def Part.WellFormed : Part → Prop
  | code t => CodeText t ∧ backslash ∉ t
  | comment kind t => kind.Fits t

/-- A part that is read as what it is also when it has been translated. -/
def Part.Survives : Part → Prop
  | code _ => True
  | comment kind t => kind.StillFits t

/-- Survival of what comes behind some code. -/
def SurvivesAfter (code t : Text) : Prop :=
  ∃ t', translate t = some t' ∧
    List.Forall₂ Piece.Translates (prepend code (pieces t)) (prepend code (pieces t'))

/-- Behind code a comment is expected; in the translation it has to be what the first is
translated to. -/
theorem forall₂_comment {code comment comment' other : Text} {ps qs : List Piece}
    (h : translate comment = some comment') :
    List.Forall₂ Piece.Translates (⟨false, code⟩ :: ⟨true, comment⟩ :: ps)
      (⟨false, code⟩ :: ⟨true, other⟩ :: qs) ↔
        other = comment' ∧ List.Forall₂ Piece.Translates ps qs := by
  rw [List.forall₂_cons, List.forall₂_cons]
  constructor
  · rintro ⟨-, ⟨-, hcomment⟩, hrest⟩
    have hsome : translate comment = some other := hcomment
    rw [h] at hsome
    exact ⟨(Option.some.inj hsome).symm, hrest⟩
  · rintro ⟨rfl, hrest⟩
    exact ⟨⟨rfl, rfl⟩, ⟨rfl, h⟩, hrest⟩

theorem survivesAfter_code {t : Text} (hcode : CodeText t) (hbackslash : backslash ∉ t)
    (code rest : Text) : SurvivesAfter code (t ++ rest) ↔ SurvivesAfter (code ++ t) rest := by
  have hpieces : ∀ r, prepend code (pieces (t ++ r)) = prepend (code ++ t) (pieces r) := by
    intro r
    rw [pieces, hcode, prepend_prepend]
    rfl
  unfold SurvivesAfter
  rw [translate_append_of_backslash_not_mem hbackslash]
  constructor
  · rintro ⟨t', htranslate, hall⟩
    obtain ⟨r, hr, rfl⟩ := Option.map_eq_some_iff.mp htranslate
    rw [hpieces, hpieces] at hall
    exact ⟨r, hr, hall⟩
  · rintro ⟨r, hr, hall⟩
    refine ⟨t ++ r, Option.map_eq_some_iff.mpr ⟨r, hr, rfl⟩, ?_⟩
    rw [hpieces, hpieces]
    exact hall

theorem survivesAfter_comment {kind : CommentKind} {t : Text} (ht : kind.Fits t)
    (code rest : Text) :
    SurvivesAfter code (kind.text t ++ rest) ↔
      kind.StillFits t ∧ SurvivesAfter kind.behind rest := by
  unfold SurvivesAfter
  rw [kind.translate_text, CommentKind.pieces_text ht]
  constructor
  · rintro ⟨u, hu, hall⟩
    obtain ⟨t', ht', hu⟩ := Option.bind_eq_some_iff.mp hu
    obtain ⟨r, hr, rfl⟩ := Option.map_eq_some_iff.mp hu
    have hcomment := kind.translate_comment ht'
    by_cases hfits : kind.Fits t'
    · rw [CommentKind.pieces_text hfits] at hall
      exact ⟨⟨t', ht', hfits⟩, r, hr, ((forall₂_comment hcomment).mp hall).2⟩
    · -- the translated comment ends early, and so is too short
      obtain ⟨s, ps, hcut, hlen⟩ := CommentKind.pieces_text_early hfits r
      rw [hcut] at hall
      have hs := ((forall₂_comment hcomment).mp hall).1
      exact absurd (congrArg List.length hs) (Nat.ne_of_lt hlen)
  · rintro ⟨⟨t', ht', hfits⟩, r, hr, hall⟩
    refine ⟨kind.text t' ++ r, ?_, ?_⟩
    · rw [ht', hr]
      rfl
    · rw [CommentKind.pieces_text hfits]
      exact (forall₂_comment (kind.translate_comment ht')).mpr ⟨rfl, hall⟩

/-- Behind any code, parts survive if each of them does. -/
theorem survivesAfter_parts {parts : List Part} (h : ∀ p ∈ parts, p.WellFormed) (code : Text) :
    SurvivesAfter code (parts.flatMap Part.text) ↔ ∀ p ∈ parts, p.Survives := by
  induction parts generalizing code with
  | nil => exact iff_of_true ⟨[], rfl, .cons ⟨rfl, rfl⟩ .nil⟩ nofun
  | cons p ps ih =>
    have hps := ih fun q hq => h q (List.mem_cons_of_mem p hq)
    rw [List.flatMap_cons, List.forall_mem_cons]
    cases p with
    | code t =>
      obtain ⟨hcode, hbackslash⟩ := h (.code t) (List.mem_cons_self ..)
      rw [Part.text, survivesAfter_code hcode hbackslash, hps]
      exact (and_iff_right trivial).symm
    | comment kind t =>
      rw [Part.text, survivesAfter_comment (h (.comment kind t) (List.mem_cons_self ..)), hps]
      rfl

/-- A source that is put together from code and comments survives if all of its comments do. -/
theorem survivesEscapes_iff {parts : List Part} (h : ∀ p ∈ parts, p.WellFormed) :
    SurvivesEscapes (parts.flatMap Part.text) ↔ ∀ p ∈ parts, p.Survives := by
  rw [← survivesAfter_parts h [], SurvivesEscapes, SurvivesAfter]
  simp only [prepend_nil]

end Phrasebook.Java
