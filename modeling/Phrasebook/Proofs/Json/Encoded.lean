/-
# Phrasebook.Proofs.Json.Encoded -- printed values as bytes

Printing adds nothing but ASCII to the texts in a value and leaves no lone surrogate out.  So the
document of a value has a form in bytes if its texts have one.
-/
import Phrasebook.Proofs.Json.Printed
import Phrasebook.Proofs.Text.Encoding

namespace Phrasebook.Json

/-- All texts in a value have a form in bytes, the names of members included. -/
inductive Encoded : Json → Prop
  | null : Encoded .null
  | bool (b : Bool) : Encoded (.bool b)
  | int (n : Int) : Encoded (.int n)
  | text {t : Text} (h : t.encode?.isSome) : Encoded (.text t)
  | list {items : List Json} (h : ∀ v ∈ items, Encoded v) : Encoded (.list items)
  | object {members : List (Text × Json)} (names : ∀ t ∈ members.map Prod.fst, t.encode?.isSome)
      (h : ∀ m ∈ members, Encoded m.2) : Encoded (.object members)

theorem encode?_escape {c : CodePoint} (h : c.toChar?.isSome) : (escape c).encode?.isSome := by
  rw [Text.encode?_isSome_iff]
  rcases escape_cases c with ⟨mark, hmark, hescape⟩ | ⟨-, hescape⟩ | ⟨-, hescape⟩
  · have hscalar : mark.toChar?.isSome := by
      cases mark with
      | scalar ch => rfl
      | surrogate u => cases hmark
    rw [hescape]
    exact List.forall_mem_cons.mpr ⟨rfl, List.forall_mem_singleton.mpr hscalar⟩
  · rw [hescape]
    refine List.forall_mem_cons.mpr ⟨rfl, List.forall_mem_cons.mpr ⟨rfl, ?_⟩⟩
    exact Text.encode?_isSome_iff.mp (Text.encode?_isSome_map_scalar _)
  · rw [hescape]
    exact List.forall_mem_singleton.mpr h

theorem encode?_quote {t : Text} (h : t.encode?.isSome) : (quote t).encode?.isSome := by
  rw [Text.encode?_isSome_iff] at h
  have hinside : (Text.encode? (t.flatMap escape)).isSome := by
    rw [Text.encode?_isSome_iff]
    intro c hc
    obtain ⟨d, hd, hc⟩ := List.mem_flatMap.mp hc
    exact Text.encode?_isSome_iff.mp (encode?_escape (h d hd)) c hc
  rw [quote, Text.encode?_isSome_append, Text.encode?_isSome_append]
  exact ⟨⟨by decide, hinside⟩, by decide⟩

theorem encode?_newline (level : Nat) : (newline level).encode?.isSome := by
  rw [Text.encode?_isSome_iff]
  refine List.forall_mem_cons.mpr ⟨rfl, fun c hc => ?_⟩
  rw [List.eq_of_mem_replicate hc]
  rfl

theorem encode?_bracket {opening closing : Text} (hopening : opening.encode?.isSome)
    (hclosing : closing.encode?.isSome) (level : Nat) {items : List Text}
    (h : ∀ t ∈ items, t.encode?.isSome) : (bracket opening closing level items).encode?.isSome := by
  unfold bracket
  split
  · exact Text.encode?_isSome_append.mpr ⟨hopening, hclosing⟩
  · have hsep : (("," : Text) ++ newline (level + 1)).encode?.isSome :=
      Text.encode?_isSome_append.mpr ⟨by decide, encode?_newline _⟩
    simp only [Text.encode?_isSome_append]
    exact ⟨⟨⟨⟨hopening, encode?_newline _⟩, Text.encode?_join hsep h⟩, encode?_newline _⟩, hclosing⟩

theorem encode?_ofInt (n : Int) : (Text.ofInt n).encode?.isSome := by
  cases n with
  | ofNat n => exact Text.encode?_isSome_map_scalar _
  | negSucc n => exact Text.encode?_isSome_map_scalar ('-' :: Nat.toDigits 10 (n + 1))

/-- A value is printed as a text with a form in bytes, whatever its level. -/
theorem Encoded.print {v : Json} (h : v.Encoded) (level : Nat) : (v.print level).encode?.isSome := by
  induction h generalizing level with
  | null => exact (by decide : ("null" : Text).encode?.isSome)
  | bool b =>
    cases b with
    | false => exact (by decide : ("false" : Text).encode?.isSome)
    | true => exact (by decide : ("true" : Text).encode?.isSome)
  | int n => exact encode?_ofInt n
  | text h => exact encode?_quote h
  | list h ih =>
    rw [Json.print, printItems_eq_map]
    refine encode?_bracket (by decide) (by decide) level fun t ht => ?_
    obtain ⟨v, hv, rfl⟩ := List.mem_map.mp ht
    exact ih v hv _
  | object names h ih =>
    rw [Json.print, printMembers_eq_map]
    refine encode?_bracket (by decide) (by decide) level fun t ht => ?_
    obtain ⟨m, hm, rfl⟩ := List.mem_map.mp ht
    rw [Text.encode?_isSome_append, Text.encode?_isSome_append]
    exact ⟨⟨encode?_quote (names m.1 (List.mem_map_of_mem hm)), by decide⟩, ih m hm _⟩

theorem Encoded.document {v : Json} (h : v.Encoded) : v.document.encode?.isSome :=
  Text.encode?_isSome_append.mpr ⟨h.print 0, by decide⟩

end Phrasebook.Json
