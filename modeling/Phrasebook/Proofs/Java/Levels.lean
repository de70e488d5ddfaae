/-
# Phrasebook.Proofs.Java.Levels -- a member at two levels

What is printed for a member does not depend on where the member stands.  It is a list of lines
that is fixed by the member alone, each of which is moved in to the level at which it is added.  So
between two levels there is nothing but the indentation, and an empty line has none.

Printing leaves the level as it was, and only adds to the lines that are there.
-/
import Phrasebook.Proofs.Java.Slots

namespace Phrasebook.Java

/-- A member that can be printed: its own slot is supported, and so are those that are reached from
it. -/
structure Node.IsPrintable (node : Node) : Prop where
  member : (Slot.member node).isSupported
  inside : ∀ slot, Reaches node slot → slot.isSupported

/-- Whether a member can be printed is seen from the list of its slots. -/
theorem Node.isPrintable_iff {node : Node} :
    node.IsPrintable ↔ ∀ slot ∈ Slot.member node :: slots node, slot.isSupported := by
  rw [List.forall_mem_cons]
  constructor
  · intro h
    exact ⟨h.member, fun slot hslot => h.inside slot (mem_slots_iff.mp hslot)⟩
  · rintro ⟨hmember, hinside⟩
    exact ⟨hmember, fun slot hslot => hinside slot (mem_slots_iff.mpr hslot)⟩

/-- A layout to which lines have been added that are indented already. -/
structure Layout.Extended (before after : Layout) (lines : List Text) : Prop where
  lines_eq : after.lines.toList = before.lines.toList ++ lines
  level_eq : after.level = before.level

/-- Added at a level, lines are moved in to it. -/
theorem Layout.extended_addLines (out : Layout) (ts : List Text) :
    out.Extended (out.addLines ts) (ts.map (atLevel out.level)) where
  lines_eq := addLines_lines out ts
  level_eq := addLines_level out ts

/-- Lines at a deeper level are those at a level, moved in by the difference. -/
theorem Layout.map_atLevel_of_le {shallow deep : Nat} (h : shallow ≤ deep) (ts : List Text) :
    ts.map (atLevel deep) = (ts.map (atLevel shallow)).map (atLevel (deep - shallow)) := by
  rw [List.map_map]
  refine List.map_congr_left fun t _ => ?_
  rw [Function.comp_apply, ← atLevel_add, Nat.sub_add_cancel h]

/-- A member that can be printed adds its lines at the current level. -/
theorem writeMember_of_isPrintable {node : Node} (h : node.IsPrintable) (out : Layout) :
    writeMember node out = .ok (out.addLines (memberLines node)) := by
  rw [writeMember_eq, memberFault?_eq_none h.member h.inside]
  rfl

/-- Printed at two levels, a member adds the same lines to what is there, those at the deeper level
with the indentation of the difference in front of every line that is not empty.  Both times the
level is afterwards what it was before. -/
theorem writeMember_levels {node : Node} (h : node.IsPrintable) {shallow deep : Layout}
    (hle : shallow.level ≤ deep.level) :
    ∃ (lines : List Text) (shallow' deep' : Layout),
      writeMember node shallow = .ok shallow' ∧ shallow.Extended shallow' lines ∧
      writeMember node deep = .ok deep' ∧
      deep.Extended deep' (lines.map fun l =>
        if l = [] then [] else indentation (deep.level - shallow.level) ++ l) := by
  refine ⟨(memberLines node).map (Layout.atLevel shallow.level), _, _,
    writeMember_of_isPrintable h shallow, shallow.extended_addLines _,
    writeMember_of_isPrintable h deep, ?_⟩
  have hmoved : (fun l : Text => if l = [] then [] else
      indentation (deep.level - shallow.level) ++ l) =
        Layout.atLevel (deep.level - shallow.level) := by
    funext l
    cases l <;> rfl
  rw [hmoved, ← Layout.map_atLevel_of_le hle]
  exact deep.extended_addLines (memberLines node)

/-- A type with a field, a documented method and a type inside, to be printed at any level. -/
def nestedSample : Node := .type { name := "A" } [
  .field ⟨"int", "x", []⟩,
  .method { name := "f", javadoc := some "One.\n\nTwo." } [.comment "c", .statement "return"],
  .type { name := "B" } []]

/-- Two levels further in, the sample has four spaces more in front of its lines. -/
theorem writeMember_levels_nested :
    nestedSample.IsPrintable ∧ ({ level := 1 } : Layout).level ≤ ({ level := 3 } : Layout).level ∧
      ∃ (lines : List Text) (shallow' deep' : Layout),
        writeMember nestedSample { level := 1 } = .ok shallow' ∧
        Layout.Extended { level := 1 } shallow' lines ∧
        writeMember nestedSample { level := 3 } = .ok deep' ∧
        Layout.Extended { level := 3 } deep' (lines.map fun l =>
          if l = [] then [] else indentation 2 ++ l) := by
  have hprintable : nestedSample.IsPrintable := Node.isPrintable_iff.mpr (by decide)
  have hle : ({ level := 1 } : Layout).level ≤ ({ level := 3 } : Layout).level := by decide
  exact ⟨hprintable, hle, writeMember_levels hprintable hle⟩

end Phrasebook.Java
