/-
# Phrasebook.Proofs.Json.Unambiguous -- a text denotes at most one value

If two texts of a rule begin one text, they are the same and denote the same, as long as both are
followed by something that cannot go on with them.  `Unambiguous` says this of a rule and of what is
denoted first.  It holds of values by induction on the value: the first character tells of which kind
a value is, a string ends at its first free quote, a number with its last character, and items end at
marks that no item begins with.
-/
import Phrasebook.Proofs.Json.Grammar
import Phrasebook.Proofs.Text.Numeral
import Phrasebook.Proofs.Text.Split

namespace Phrasebook.Json

/-! ## Rules that can be told apart -/

section Rules

variable {α : Type} {item : Text → α → Prop} {stop : CodePoint → Prop} {a : α}

/-- Nothing follows, or a code point of a class. -/
def Meets (stop : CodePoint → Prop) (rest : Text) : Prop := ∀ c ∈ rest.head?, stop c

theorem meets_nil : Meets stop [] := fun _ h => nomatch h

theorem meets_cons {c : CodePoint} (h : stop c) (rest : Text) : Meets stop (c :: rest) :=
  fun _ hd => Option.some.inj hd ▸ h

/-- A text that denotes `a` is the only one of its rule at a place where a class of code points
stops it, and denotes nothing else. -/
def Unambiguous (stop : CodePoint → Prop) (item : Text → α → Prop) (a : α) : Prop :=
  ∀ ⦃t t' : Text⦄ ⦃a' : α⦄ ⦃r r' : Text⦄, item t a → item t' a' → Meets stop r → Meets stop r' →
    t ++ r = t' ++ r' → t = t' ∧ a = a' ∧ r = r'

/-- What ends a value: white space or a mark. -/
def EndsValue (c : CodePoint) : Prop := c ∈ spaces ∨ c ∈ marks

/-- What ends an item and the white space behind it. -/
def EndsItem (c : CodePoint) : Prop := c ∈ marks

theorem EndsItem.not_space {c : CodePoint} (h : EndsItem c) : c ∉ spaces := by
  have hmarks : ∀ d ∈ marks, d ∉ spaces := by decide
  exact hmarks c h

/-- Every text of a rule begins with something that is neither white space nor a mark, behind white
space. -/
def Opens (item : Text → α → Prop) : Prop := ∀ ⦃t a⦄, item t a →
  ∃ w c s, t = w ++ c :: s ∧ IsSpace w ∧ ¬ EndsValue c

/-- Every text of a rule begins so without white space before it. -/
def OpensAtOnce (item : Text → α → Prop) : Prop := ∀ ⦃t a⦄, item t a →
  ∃ c s, t = c :: s ∧ ¬ EndsValue c

theorem Spaced.opens (hitem : OpensAtOnce item) : Opens (Spaced item) := by
  rintro _ a ⟨hw, h, -⟩
  obtain ⟨c, s, rfl, hc⟩ := hitem h
  exact ⟨_, c, _, rfl, hw, hc⟩

/-- White space around the texts of a rule leaves no doubt. -/
theorem Spaced.unambiguous (hitem : OpensAtOnce item) (h : Unambiguous EndsValue item a) :
    Unambiguous EndsItem (Spaced item) a := by
  rintro _ _ a' r r' ⟨hw, hin, hv⟩ ⟨hw', hin', hv'⟩ hr hr' heq
  rename_i w t v w' t' v'
  simp only [List.append_assoc] at heq
  have hbegin : ∀ {u : Text} {b : α} {s : Text}, item u b → Meets (· ∉ spaces) (u ++ s) := by
    intro u b s hu
    obtain ⟨c, s', rfl, hc⟩ := hitem hu
    exact meets_cons (fun hspace => hc (Or.inl hspace)) _
  have hend : ∀ {u s : Text}, IsSpace u → Meets EndsItem s → Meets EndsValue (u ++ s) := by
    intro u s hu hs
    cases u with
    | nil => exact fun c hc => Or.inr (hs c hc)
    | cons c u => exact meets_cons (Or.inl (hu c (List.mem_cons_self ..))) _
  have hmark : ∀ {s : Text}, Meets EndsItem s → Meets (· ∉ spaces) s := fun hs c hc =>
    (hs c hc).not_space
  obtain ⟨rfl, hinner⟩ := Text.append_run_inj hw hw' (hbegin hin) (hbegin hin') heq
  obtain ⟨rfl, rfl, hafter⟩ := h hin hin' (hend hv hr) (hend hv' hr') hinner
  obtain ⟨rfl, rfl⟩ := Text.append_run_inj hv hv' (hmark hr) (hmark hr') hafter
  exact ⟨rfl, rfl, rfl⟩

/-- Commas between texts leave no doubt, if another mark follows the last. -/
theorem Sequence.inj {closing : CodePoint} (hclosing : EndsItem closing)
    (hcomma : closing ≠ .scalar ',') {s s' r r' : Text} {as as' : List α}
    (h : ∀ a ∈ as, Unambiguous EndsItem item a) (hs : Sequence item s as)
    (hs' : Sequence item s' as') (heq : s ++ closing :: r = s' ++ closing :: r') :
    s = s' ∧ as = as' ∧ r = r' := by
  have hend : ∀ u : Text, Meets EndsItem (closing :: u) := meets_cons hclosing
  have hmore : ∀ u : Text, Meets EndsItem (.scalar ',' :: u) :=
    meets_cons (by decide : _ ∈ marks)
  induction hs generalizing s' as' with
  | last hitem =>
    have ha := h _ (List.mem_cons_self ..)
    cases hs' with
    | last hitem' =>
      obtain ⟨rfl, rfl, heq⟩ := ha hitem hitem' (hend _) (hend _) heq
      exact ⟨rfl, rfl, (List.cons.inj heq).2⟩
    | more hitem' hrest' =>
      rw [List.append_assoc] at heq
      exact absurd (List.cons.inj (ha hitem hitem' (hend _) (hmore _) heq).2.2).1 hcomma
  | more hitem hrest ih =>
    obtain ⟨ha, has⟩ := List.forall_mem_cons.mp h
    rw [List.append_assoc] at heq
    cases hs' with
    | last hitem' =>
      exact absurd (List.cons.inj (ha hitem hitem' (hmore _) (hend _) heq).2.2).1.symm hcomma
    | more hitem' hrest' =>
      rw [List.append_assoc] at heq
      obtain ⟨rfl, rfl, heq⟩ := ha hitem hitem' (hmore _) (hmore _) heq
      obtain ⟨rfl, rfl, rfl⟩ := ih has hrest' (List.cons.inj heq).2
      exact ⟨rfl, rfl, rfl⟩

/-- Items between brackets begin with an item. -/
theorem Sequence.opens (hitem : Opens item) : Opens (Sequence item) := by
  intro s as hs
  cases hs with
  | last h => exact hitem h
  | more h hrest =>
    obtain ⟨w, c, u, rfl, hw, hc⟩ := hitem h
    exact ⟨w, c, _, by rw [List.append_assoc]; rfl, hw, hc⟩

/-- Brackets without items are not brackets with items. -/
theorem Sequence.ne_space (hitem : Opens item) {closing : CodePoint} (hclosing : EndsItem closing)
    {s w r r' : Text} {as : List α} (hs : Sequence item s as) (hw : IsSpace w) :
    w ++ closing :: r ≠ s ++ closing :: r' := by
  obtain ⟨v, c, u, rfl, hv, hc⟩ := Sequence.opens hitem hs
  intro heq
  rw [List.append_assoc] at heq
  have hopens : c ∉ spaces := fun h => hc (Or.inl h)
  obtain ⟨-, hrest⟩ := Text.append_run_inj hw hv (meets_cons hclosing.not_space r)
    (meets_cons hopens _) heq
  exact hc (Or.inr ((List.cons.inj hrest).1 ▸ hclosing))

/-- Between brackets there is white space, or there are items. -/
theorem Enclosed.inside {opening closing : CodePoint} {t : Text} {as : List α}
    (h : Enclosed item opening closing t as) : ∃ s, t = opening :: (s ++ [closing]) ∧
      (IsSpace s ∧ as = [] ∨ Sequence item s as) := by
  cases h with
  | none hw => exact ⟨_, rfl, Or.inl ⟨hw, rfl⟩⟩
  | some hs => exact ⟨_, rfl, Or.inr hs⟩

/-- Brackets around items leave no doubt, whatever follows. -/
theorem Enclosed.unambiguous (hitem : Opens item) {opening closing : CodePoint}
    (hclosing : EndsItem closing) (hcomma : closing ≠ .scalar ',') {as : List α}
    (h : ∀ a ∈ as, Unambiguous EndsItem item a) :
    Unambiguous stop (Enclosed item opening closing) as := by
  intro t t' as' r r' hin hin' _ _ heq
  obtain ⟨s, rfl, hs⟩ := hin.inside
  obtain ⟨s', rfl, hs'⟩ := hin'.inside
  have hafter : s ++ closing :: r = s' ++ closing :: r' := by
    rw [List.cons_append, List.cons_append, List.append_assoc, List.append_assoc] at heq
    exact (List.cons.inj heq).2
  rcases hs with ⟨hw, rfl⟩ | hs
  · rcases hs' with ⟨hw', rfl⟩ | hs'
    · obtain ⟨rfl, hrest⟩ := Text.append_run_inj hw hw' (meets_cons hclosing.not_space r)
        (meets_cons hclosing.not_space r') hafter
      exact ⟨rfl, rfl, (List.cons.inj hrest).2⟩
    · exact absurd hafter (hs'.ne_space hitem hclosing hw)
  · rcases hs' with ⟨hw', rfl⟩ | hs'
    · exact absurd hafter.symm (hs.ne_space hitem hclosing hw')
    · obtain ⟨rfl, rfl, rfl⟩ := hs.inj hclosing hcomma h hs' hafter
      exact ⟨rfl, rfl, rfl⟩

end Rules

/-! ## Strings -/

section Strings

variable {stop : CodePoint → Prop} {t t' s s' r r' : Text} {p p' : Piece} {ps ps' : List Piece}

/-- No piece of a string begins with a quote. -/
theorem IsPiece.ne_quoteMark (h : IsPiece t p) : t ++ r ≠ quoteMark :: r' := by
  intro heq
  cases h with
  | plain visible noQuote noEscape => exact noQuote (List.cons.inj heq).1
  | short h => exact absurd (List.cons.inj heq).1 (by decide)
  | long hlength h => exact absurd (List.cons.inj heq).1 (by decide)

/-- Where a piece of a string ends is seen by the piece. -/
theorem IsPiece.inj (h : IsPiece t p) (h' : IsPiece t' p') (heq : t ++ r = t' ++ r') :
    t = t' ∧ p = p' ∧ r = r' := by
  have hmark : ∀ {c d : CodePoint} {u u' : Text}, escapeMark :: c :: u = escapeMark :: d :: u' →
      c = d ∧ u = u' := fun h => List.cons.inj (List.cons.inj h).2
  cases h with
  | plain visible noQuote noEscape =>
    cases h' with
    | plain visible' noQuote' noEscape' =>
      obtain ⟨rfl, rfl⟩ := List.cons.inj heq
      exact ⟨rfl, rfl, rfl⟩
    | short h' => exact absurd (List.cons.inj heq).1 noEscape
    | long hlength' h' => exact absurd (List.cons.inj heq).1 noEscape
  | short h =>
    cases h' with
    | plain visible' noQuote' noEscape' => exact absurd (List.cons.inj heq).1.symm noEscape'
    | short h' =>
      obtain ⟨rfl, rfl⟩ := hmark heq
      obtain rfl := Option.some.inj (h.symm.trans h')
      exact ⟨rfl, rfl, rfl⟩
    | long hlength' h' =>
      obtain ⟨rfl, -⟩ := hmark heq
      cases h
  | long hlength h =>
    cases h' with
    | plain visible' noQuote' noEscape' => exact absurd (List.cons.inj heq).1.symm noEscape'
    | short h' =>
      obtain ⟨rfl, -⟩ := hmark heq
      cases h'
    | long hlength' h' =>
      obtain ⟨rfl, rfl⟩ := List.append_inj (hmark heq).2 (hlength.trans hlength'.symm)
      obtain rfl := Option.some.inj (h.symm.trans h')
      exact ⟨rfl, rfl, rfl⟩

/-- A string ends at the first quote that is no part of a piece. -/
theorem ArePieces.inj (h : ArePieces s ps) (h' : ArePieces s' ps')
    (heq : s ++ quoteMark :: r = s' ++ quoteMark :: r') : s = s' ∧ ps = ps' ∧ r = r' := by
  induction h generalizing s' ps' with
  | nil =>
    cases h' with
    | nil => exact ⟨rfl, rfl, (List.cons.inj heq).2⟩
    | cons first' rest' =>
      rw [List.append_assoc] at heq
      exact absurd heq.symm first'.ne_quoteMark
  | cons first rest ih =>
    rw [List.append_assoc] at heq
    cases h' with
    | nil => exact absurd heq first.ne_quoteMark
    | cons first' rest' =>
      rw [List.append_assoc] at heq
      obtain ⟨rfl, rfl, htail⟩ := first.inj first' heq
      obtain ⟨rfl, rfl, rfl⟩ := ih rest' htail
      exact ⟨rfl, rfl, rfl⟩

theorem Quoted.unambiguous (a : Text) : Unambiguous stop Quoted a := by
  rintro _ _ _ r r' ⟨h⟩ ⟨h'⟩ - - heq
  rw [List.cons_append, List.cons_append, List.append_assoc, List.append_assoc] at heq
  obtain ⟨rfl, rfl, rfl⟩ := h.inj h' (List.cons.inj heq).2
  exact ⟨rfl, rfl, rfl⟩

end Strings

/-! ## Numbers -/

/-- What the number behind a whole part may go on with. -/
theorem Fraction.not_digit {t u : Text} {f : ℚ} {e : Int} (h : Fraction t f) (h' : Exponent u e) :
    Meets (fun c => ¬ c.isDigit = true) (t ++ u) := by
  cases h with
  | digits h => exact meets_cons (by decide) _
  | none =>
    cases h' with
    | none => exact meets_nil
    | digits hmark h' => rcases hmark with rfl | rfl <;> exact meets_cons (by decide) _

/-- A text denotes at most one power of ten. -/
theorem Exponent.functional {t : Text} {e e' : Int} (h : Exponent t e) (h' : Exponent t e') :
    e = e' := by
  cases h with
  | none =>
    cases h'
    rfl
  | digits hc h =>
    cases h' with
    | digits hc' h' => exact Option.some.inj (h.symm.trans h')

/-- A fraction and a power of ten behind it are told apart. -/
theorem Fraction.inj {t t' u u' : Text} {f f' : ℚ} {e e' : Int} (h : Fraction t f)
    (h' : Fraction t' f') (hu : Exponent u e) (hu' : Exponent u' e') (heq : t ++ u = t' ++ u') :
    f = f' ∧ e = e' := by
  have hpoint : ∀ {s : Text} {x : Int}, Exponent s x → ∀ s', s ≠ .scalar '.' :: s' := by
    rintro s x (_ | ⟨rfl | rfl, _⟩) s' hs <;> cases hs
  cases h with
  | none =>
    cases h' with
    | none =>
      obtain rfl : u = u' := heq
      exact ⟨rfl, hu.functional hu'⟩
    | digits h' => exact absurd heq (hpoint hu _)
  | digits h =>
    cases h' with
    | none => exact absurd heq.symm (hpoint hu' _)
    | digits h' =>
      obtain ⟨rfl, rfl⟩ := Text.append_run_inj (Text.isDigit_of_toNat? h).2
        (Text.isDigit_of_toNat? h').2 (Fraction.none.not_digit hu) (Fraction.none.not_digit hu')
        (List.cons.inj heq).2
      obtain rfl := Option.some.inj (h.symm.trans h')
      exact ⟨rfl, hu.functional hu'⟩

theorem Unsigned.functional {t : Text} {q q' : ℚ} (h : Unsigned t q) (h' : Unsigned t q') :
    q = q' := by
  rcases h with @⟨t, u, s, n, f, e, hwhole, hfraction, hexponent⟩
  generalize ht : t ++ (u ++ s) = whole at h'
  rcases h' with @⟨t', u', s', n', f', e', hwhole', hfraction', hexponent'⟩
  obtain ⟨rfl, htail⟩ := Text.append_run_inj (Text.isDigit_of_toNat? hwhole.1).2
    (Text.isDigit_of_toNat? hwhole'.1).2 (hfraction.not_digit hexponent)
    (hfraction'.not_digit hexponent') ht
  obtain rfl := Option.some.inj (hwhole.1.symm.trans hwhole'.1)
  obtain ⟨rfl, rfl⟩ := hfraction.inj hfraction' hexponent hexponent' htail
  rfl

/-- A number without a sign begins with a digit. -/
theorem Unsigned.head {t : Text} {q : ℚ} (h : Unsigned t q) :
    ∃ c s, t = c :: s ∧ c.isDigit = true := by
  rcases h with @⟨t, u, s, n, f, e, hwhole, -, -⟩
  obtain ⟨hne, hdigits⟩ := Text.isDigit_of_toNat? hwhole.1
  obtain ⟨c, t, rfl⟩ := List.exists_cons_of_ne_nil hne
  exact ⟨c, _, rfl, hdigits c (List.mem_cons_self ..)⟩

/-- A text denotes at most one number. -/
theorem Numeral.functional {t : Text} {q q' : ℚ} (h : Numeral t q) (h' : Numeral t q') :
    q = q' := by
  have hsign : ∀ {s : Text} {x : ℚ}, ¬ Unsigned (.scalar '-' :: s) x := by
    intro s x hs
    obtain ⟨c, u, hcons, hc⟩ := hs.head
    obtain rfl := (List.cons.inj hcons).1
    exact absurd hc (by decide)
  cases h with
  | plain h =>
    cases h' with
    | plain h' => exact h.functional h'
    | negative h' => exact absurd h hsign
  | negative h =>
    cases h' with
    | plain h' => exact absurd h' hsign
    | negative h' => rw [h.functional h']

/-- A code point of a number. -/
def InNumeral (c : CodePoint) : Prop :=
  c.isDigit = true ∨ c ∈ ([.scalar '-', .scalar '+', .scalar '.', .scalar 'e', .scalar 'E'] : Text)

theorem EndsValue.not_inNumeral {c : CodePoint} (h : EndsValue c) : ¬ InNumeral c := by
  have hends : ∀ d ∈ spaces ++ marks, ¬ InNumeral d := by
    unfold InNumeral
    decide
  exact hends c (List.mem_append.mpr h)

theorem Numeral.inNumeral {t : Text} {q : ℚ} (h : Numeral t q) : ∀ c ∈ t, InNumeral c := by
  have hdigits : ∀ {s : Text} {n : Nat}, s.toNat? = some n → ∀ c ∈ s, InNumeral c := fun hs c hc =>
    Or.inl ((Text.isDigit_of_toNat? hs).2 c hc)
  have hsigned : ∀ {s : Text} {x : Int}, signed? s = some x → ∀ c ∈ s, InNumeral c := by
    intro s x hs
    obtain ⟨n, hn, -⟩ := Option.map_eq_some_iff.mp hs
    unfold Text.splitSign at hn
    split at hn
    · exact List.forall_mem_cons.mpr ⟨Or.inr (by decide), hdigits hn⟩
    · exact List.forall_mem_cons.mpr ⟨Or.inr (by decide), hdigits hn⟩
    · exact hdigits hn
  have hfraction : ∀ {s : Text} {x : ℚ}, Fraction s x → ∀ c ∈ s, InNumeral c := by
    rintro s x (_ | hs)
    · exact fun c hc => absurd hc List.not_mem_nil
    · exact List.forall_mem_cons.mpr ⟨Or.inr (by decide), hdigits hs⟩
  have hexponent : ∀ {s : Text} {x : Int}, Exponent s x → ∀ c ∈ s, InNumeral c := by
    rintro s x (_ | ⟨rfl | rfl, hs⟩)
    · exact fun c hc => absurd hc List.not_mem_nil
    · exact List.forall_mem_cons.mpr ⟨Or.inr (by decide), hsigned hs⟩
    · exact List.forall_mem_cons.mpr ⟨Or.inr (by decide), hsigned hs⟩
  have hunsigned : ∀ {s : Text} {x : ℚ}, Unsigned s x → ∀ c ∈ s, InNumeral c := by
    rintro _ _ ⟨hw, hf, he⟩
    exact List.forall_mem_append.mpr ⟨hdigits hw.1, List.forall_mem_append.mpr
      ⟨hfraction hf, hexponent he⟩⟩
  cases h with
  | plain h => exact hunsigned h
  | negative h => exact List.forall_mem_cons.mpr ⟨Or.inr (by decide), hunsigned h⟩

/-- A number is as long as it can be. -/
theorem Numeral.unambiguous (q : ℚ) : Unambiguous EndsValue Numeral q := by
  intro t t' q' r r' h h' hr hr' heq
  have hnot : ∀ {s : Text}, Meets EndsValue s → Meets (¬ InNumeral ·) s := fun hs c hc =>
    (hs c hc).not_inNumeral
  obtain ⟨rfl, rfl⟩ := Text.append_run_inj h.inNumeral h'.inNumeral (hnot hr) (hnot hr') heq
  exact ⟨rfl, h.functional h', rfl⟩

/-! ## Kinds of values -/

/-- What can be told of a value by the first character of its text. -/
inductive Kind where
  | null
  | bool (b : Bool)
  | number
  | text
  | list
  | object
deriving DecidableEq

/-- The kind of a value. -/
def kind : Json → Kind
  | .null => .null
  | .bool b => .bool b
  | .int _ => .number
  | .text _ => .text
  | .list _ => .list
  | .object _ => .object

/-- The kind of the values that begin with a character. -/
def kindOf? (c : CodePoint) : Option Kind :=
  if c = .scalar 'n' then some .null
  else if c = .scalar 't' then some (.bool true)
  else if c = .scalar 'f' then some (.bool false)
  else if c = quoteMark then some .text
  else if c = .scalar '[' then some .list
  else if c = .scalar '\x7b' then some .object
  else if c = .scalar '-' ∨ c.isDigit then some .number
  else none

/-- No value begins with what ends one. -/
theorem not_endsValue_of_kindOf? {c : CodePoint} {k : Kind} (h : kindOf? c = some k) :
    ¬ EndsValue c := by
  intro hc
  have hends : ∀ d ∈ spaces ++ marks, kindOf? d = none := by decide
  rw [hends c (List.mem_append.mpr hc)] at h
  cases h

/-- A digit begins a number only. -/
theorem kindOf?_of_isDigit {c : CodePoint} (h : c.isDigit = true) : kindOf? c = some .number := by
  have hne : ∀ d : CodePoint, d.isDigit = false → c ≠ d := fun d hd heq => by
    rw [heq, hd] at h
    cases h
  rw [kindOf?, if_neg (hne _ (by decide)), if_neg (hne _ (by decide)), if_neg (hne _ (by decide)),
    if_neg (hne _ (by decide)), if_neg (hne _ (by decide)), if_neg (hne _ (by decide)),
    if_pos (Or.inr h)]

/-- The first character of a text tells the kind of the value it denotes. -/
theorem Denotes.head {t : Text} {v : Json} (h : Denotes t v) :
    ∃ c s, t = c :: s ∧ kindOf? c = some v.kind := by
  cases h with
  | null => exact ⟨_, _, rfl, rfl⟩
  | true => exact ⟨_, _, rfl, rfl⟩
  | false => exact ⟨_, _, rfl, rfl⟩
  | number h =>
    generalize hq : ((_ : Int) : ℚ) = q at h
    cases h with
    | plain h =>
      obtain ⟨c, s, rfl, hc⟩ := h.head
      exact ⟨c, s, rfl, kindOf?_of_isDigit hc⟩
    | negative h => exact ⟨_, _, rfl, rfl⟩
  | text h =>
    cases h
    exact ⟨_, _, rfl, rfl⟩
  | list h => cases h <;> exact ⟨_, _, rfl, rfl⟩
  | object h => cases h <;> exact ⟨_, _, rfl, rfl⟩

theorem Denotes.opensAtOnce : OpensAtOnce Denotes := by
  intro t v h
  obtain ⟨c, s, rfl, hc⟩ := h.head
  exact ⟨c, s, rfl, not_endsValue_of_kindOf? hc⟩

theorem Quoted.opensAtOnce : OpensAtOnce Quoted := by
  rintro _ _ ⟨-⟩
  exact ⟨_, _, rfl, by unfold EndsValue; decide⟩

theorem Member.opens : Opens (Member Denotes) := by
  rintro _ _ ⟨left, -⟩
  obtain ⟨w, c, s, rfl, hw, hc⟩ := Spaced.opens Quoted.opensAtOnce left
  exact ⟨w, c, _, by rw [List.append_assoc]; rfl, hw, hc⟩

/-! ## Values -/

/-- What holds of a value if it holds of its items, or of the values of its members, holds of all
values. -/
theorem induct {motive : Json → Prop} (null : motive .null) (bool : ∀ b, motive (.bool b))
    (int : ∀ n, motive (.int n)) (text : ∀ t, motive (.text t))
    (list : ∀ items, (∀ v ∈ items, motive v) → motive (.list items))
    (object : ∀ members, (∀ m ∈ members, motive m.2) → motive (.object members)) (v : Json) :
    motive v := by
  refine @Json.rec motive (fun items => ∀ v ∈ items, motive v)
    (fun members => ∀ m ∈ members, motive m.2) (fun m => motive m.2) null bool int text list object
    ?none ?some ?noMember ?someMember ?member v
  case none => exact fun v h => absurd h List.not_mem_nil
  case some => exact fun v vs hv hvs => List.forall_mem_cons.mpr ⟨hv, hvs⟩
  case noMember => exact fun m h => absurd h List.not_mem_nil
  case someMember => exact fun m ms hm hms => List.forall_mem_cons.mpr ⟨hm, hms⟩
  case member => exact fun name v hv => hv

/-- A member is told apart if its value is. -/
theorem Member.unambiguous {m : Text × Json} (h : Unambiguous EndsValue Denotes m.2) :
    Unambiguous EndsItem (Member Denotes) m := by
  have hcolon : ∀ u : Text, Meets EndsItem (.scalar ':' :: u) :=
    meets_cons (by decide : _ ∈ marks)
  rintro _ _ _ r r' ⟨left, right⟩ ⟨left', right'⟩ hr hr' heq
  rw [List.append_assoc, List.append_assoc] at heq
  obtain ⟨rfl, rfl, htail⟩ := Spaced.unambiguous Quoted.opensAtOnce (Quoted.unambiguous _) left left'
    (hcolon _) (hcolon _) heq
  obtain ⟨rfl, rfl, rfl⟩ := Spaced.unambiguous Denotes.opensAtOnce h right right' hr hr'
    (List.cons.inj htail).2
  exact ⟨rfl, rfl, rfl⟩

/-- Two values that one text begins with are of the same kind. -/
theorem Denotes.kind_eq {t t' r r' : Text} {v v' : Json} (h : Denotes t v) (h' : Denotes t' v')
    (heq : t ++ r = t' ++ r') : v.kind = v'.kind := by
  obtain ⟨c, s, rfl, hc⟩ := h.head
  obtain ⟨c', s', rfl, hc'⟩ := h'.head
  obtain rfl := (List.cons.inj heq).1
  exact Option.some.inj (hc.symm.trans hc')

/-- Values are told apart. -/
theorem Denotes.unambiguous (v : Json) : Unambiguous EndsValue Denotes v := by
  induction v using induct with
  | null =>
    intro t t' v' r r' h h' hr hr' heq
    have hkind := h.kind_eq h' heq
    cases h
    cases h' with
    | null => exact ⟨rfl, rfl, List.append_cancel_left heq⟩
    | _ => cases hkind
  | bool b =>
    intro t t' v' r r' h h' hr hr' heq
    have hkind := h.kind_eq h' heq
    cases v' with
    | bool b' =>
      obtain rfl := Kind.bool.inj hkind
      cases h <;> cases h' <;> exact ⟨rfl, rfl, List.append_cancel_left heq⟩
    | _ => cases hkind
  | int n =>
    rintro t t' v' r r' h h' hr hr' heq
    have hkind := h.kind_eq h' heq
    cases h with
    | number h =>
      cases h' with
      | number h' =>
        obtain ⟨rfl, hn, rfl⟩ := Numeral.unambiguous n h h' hr hr' heq
        obtain rfl := Rat.intCast_injective hn
        exact ⟨rfl, rfl, rfl⟩
      | _ => cases hkind
  | text s =>
    intro t t' v' r r' h h' hr hr' heq
    have hkind := h.kind_eq h' heq
    cases h with
    | text h =>
      cases h' with
      | text h' =>
        obtain ⟨rfl, rfl, rfl⟩ := Quoted.unambiguous s h h' hr hr' heq
        exact ⟨rfl, rfl, rfl⟩
      | _ => cases hkind
  | list items ih =>
    intro t t' v' r r' h h' hr hr' heq
    have hkind := h.kind_eq h' heq
    have hitems : ∀ v ∈ items, Unambiguous EndsItem (Spaced Denotes) v := fun v hv =>
      Spaced.unambiguous Denotes.opensAtOnce (ih v hv)
    cases h with
    | list h =>
      cases h' with
      | list h' =>
        obtain ⟨rfl, rfl, rfl⟩ := Enclosed.unambiguous (Spaced.opens Denotes.opensAtOnce)
          (by decide : _ ∈ marks) (by decide) hitems h h' hr hr' heq
        exact ⟨rfl, rfl, rfl⟩
      | _ => cases hkind
  | object members ih =>
    intro t t' v' r r' h h' hr hr' heq
    have hkind := h.kind_eq h' heq
    have hmembers : ∀ m ∈ members, Unambiguous EndsItem (Member Denotes) m := fun m hm =>
      Member.unambiguous (ih m hm)
    cases h with
    | object h =>
      cases h' with
      | object h' =>
        obtain ⟨rfl, rfl, rfl⟩ := Enclosed.unambiguous Member.opens
          (by decide : _ ∈ marks) (by decide) hmembers h h' hr hr' heq
        exact ⟨rfl, rfl, rfl⟩
      | _ => cases hkind

/-- A text denotes at most one value. -/
theorem IsDocument.unique {t : Text} {v v' : Json} (h : IsDocument t v) (h' : IsDocument t v') :
    v = v' :=
  (Spaced.unambiguous Denotes.opensAtOnce (Denotes.unambiguous v) h h' meets_nil meets_nil
    rfl).2.1

end Phrasebook.Json
