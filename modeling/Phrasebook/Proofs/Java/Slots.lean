/-
# Phrasebook.Proofs.Java.Slots -- the first slot that cannot be printed

A tree of any nodes has slots for members and slots for body items.  Those that are reached from a
type through types and methods are listed by `slots` in document order: a member stands before what
is inside of it, and that before the next member.

A file is printed if all of its slots are supported, and otherwise the fault is that of the first
one in this order that is not.  Indentation never goes below its first level.
-/
import Phrasebook.Proofs.Java.Lines

namespace Phrasebook.Java

/-! ## Slots -/

/-- A slot of a tree with the node it holds. -/
inductive Slot where
  | member (node : Node)
  | bodyItem (node : Node)

namespace Slot

/-- Members are types, methods and fields, and bodies hold statements and line comments. -/
def isSupported : Slot → Bool
  | member (.type ..) | member (.method ..) | member (.field _) => true
  | bodyItem (.statement _) | bodyItem (.comment _) => true
  | _ => false

/-- What an unsupported slot is reported as. -/
def fault : Slot → PrintFault
  | member node => .unsupportedMember node.sort
  | bodyItem node => .unsupportedBodyItem node.sort

/-- The report in words: the kind of the slot, and the sort of the node in it. -/
def message : Slot → Text
  | member node => "Unsupported member: " ++ node.sort
  | bodyItem node => "Unsupported body item: " ++ node.sort

theorem message_fault (slot : Slot) : slot.fault.message = slot.message := by
  cases slot <;> rfl

/-- The fault of a slot, if it is not supported. -/
def fault? (slot : Slot) : Option PrintFault := if slot.isSupported then none else some slot.fault

theorem fault?_eq_none_iff {slot : Slot} : slot.fault? = none ↔ slot.isSupported := by
  simp [fault?]

theorem fault?_eq_some_iff {slot : Slot} {fault : PrintFault} :
    slot.fault? = some fault ↔ ¬ slot.isSupported ∧ slot.fault = fault := by
  simp [fault?]

end Slot

/-- The slots that are reached from a node. -/
inductive Reaches : Node → Slot → Prop
  | member {head : TypeHead} {members : List Node} {node : Node} :
      node ∈ members → Reaches (.type head members) (.member node)
  | inside {head : TypeHead} {members : List Node} {node : Node} {slot : Slot} :
      node ∈ members → Reaches node slot → Reaches (.type head members) slot
  | bodyItem {head : MethodHead} {body : List Node} {node : Node} :
      node ∈ body → Reaches (.method head body) (.bodyItem node)

mutual

/-- The slots that are reached from a node, in document order. -/
def slots : Node → List Slot
  | .type _ members => memberSlots members
  | .method _ body => body.map .bodyItem
  | _ => []

/-- The slots of members, each followed by those that are reached from it. -/
def memberSlots : List Node → List Slot
  | [] => []
  | node :: nodes => .member node :: slots node ++ memberSlots nodes

end

/-- The slots of a file in document order. -/
def SourceFile.slots (file : SourceFile) : List Slot :=
  match file.type with
  | none => []
  | some type => Java.slots type.toNode

/-- The slots that are reached in a file. -/
def SourceFile.Reaches (file : SourceFile) (slot : Slot) : Prop :=
  ∃ type, file.type = some type ∧ Java.Reaches type.toNode slot

/-! ## The list of slots is complete -/

mutual

/-- Whatever is listed is reached. -/
theorem reaches_of_mem_slots : ∀ {node : Node} {slot : Slot}, slot ∈ slots node → Reaches node slot
  | .type _ members, slot, h => by
    rw [slots] at h
    obtain ⟨node, hm, rfl | hslot⟩ := reaches_of_mem_memberSlots h
    · exact .member hm
    · exact .inside hm hslot
  | .method _ body, slot, h => by
    rw [slots] at h
    obtain ⟨node, hm, rfl⟩ := List.mem_map.mp h
    exact .bodyItem hm
  | .absent, _, h | .javadoc _, _, h | .comment _, _, h | .statement _, _, h | .param _, _, h
  | .field _, _, h | .file _ _, _, h => by
    simp [slots] at h

theorem reaches_of_mem_memberSlots : ∀ {nodes : List Node} {slot : Slot},
    slot ∈ memberSlots nodes → ∃ node ∈ nodes, slot = .member node ∨ Reaches node slot
  | [], _, h => by simp [memberSlots] at h
  | node :: nodes, slot, h => by
    rw [memberSlots, List.cons_append, List.mem_cons, List.mem_append] at h
    rcases h with rfl | h | h
    · exact ⟨node, List.mem_cons_self .., Or.inl rfl⟩
    · exact ⟨node, List.mem_cons_self .., Or.inr (reaches_of_mem_slots h)⟩
    · obtain ⟨other, hm, hslot⟩ := reaches_of_mem_memberSlots h
      exact ⟨other, List.mem_cons_of_mem _ hm, hslot⟩

end

/-- The slots of a member are among those of the members. -/
theorem mem_memberSlots {nodes : List Node} {node : Node} {slot : Slot} (hm : node ∈ nodes)
    (h : slot = .member node ∨ slot ∈ slots node) : slot ∈ memberSlots nodes := by
  induction nodes with
  | nil => cases hm
  | cons other nodes ih =>
    rw [memberSlots, List.cons_append, List.mem_cons, List.mem_append]
    rcases List.mem_cons.mp hm with rfl | hm
    · rcases h with rfl | h
      · exact Or.inl rfl
      · exact Or.inr (Or.inl h)
    · exact Or.inr (Or.inr (ih hm))

/-- The listed slots are exactly those that are reached. -/
theorem mem_slots_iff {node : Node} {slot : Slot} : slot ∈ slots node ↔ Reaches node slot := by
  refine ⟨reaches_of_mem_slots, fun h => ?_⟩
  induction h with
  | member hm =>
    rw [slots]
    exact mem_memberSlots hm (Or.inl rfl)
  | inside hm _ ih =>
    rw [slots]
    exact mem_memberSlots hm (Or.inr ih)
  | bodyItem hm =>
    rw [slots]
    exact List.mem_map_of_mem hm

theorem SourceFile.mem_slots_iff {file : SourceFile} {slot : Slot} :
    slot ∈ file.slots ↔ file.Reaches slot := by
  unfold SourceFile.slots SourceFile.Reaches
  cases file.type with
  | none => simp
  | some type => simp [Java.mem_slots_iff]

/-! ## The fault of a file -/

/-- The fault of a body is that of its first unsupported slot. -/
theorem findSome?_bodyItemFault? (body : List Node) :
    body.findSome? bodyItemFault? = (body.map Slot.bodyItem).findSome? Slot.fault? := by
  have hitem : ∀ node, bodyItemFault? node = (Slot.bodyItem node).fault? := by
    intro node
    cases node <;> simp [bodyItemFault?, Slot.fault?, Slot.isSupported, Slot.fault]
  rw [List.findSome?_map]
  exact congrArg (body.findSome? ·) (funext hitem)

mutual

/-- The fault of a member is that of its own slot, or else of the first one in it. -/
theorem memberFault?_eq : ∀ node : Node,
    memberFault? node = (Slot.member node :: slots node).findSome? Slot.fault?
  | .type _ members => by
    rw [memberFault?, slots, membersFault?_eq members]
    rfl
  | .method _ body => by
    rw [memberFault?, slots, findSome?_bodyItemFault?]
    rfl
  | .absent | .javadoc _ | .comment _ | .statement _ | .param _ | .field _ | .file _ _ => by
    rfl

/-- The fault of members is that of the first unsupported slot among theirs. -/
theorem membersFault?_eq : ∀ nodes : List Node,
    membersFault? nodes = (memberSlots nodes).findSome? Slot.fault?
  | [] => rfl
  | node :: nodes => by
    rw [membersFault?, memberSlots, memberFault?_eq node, membersFault?_eq nodes,
      List.findSome?_append]

end

/-- A member has no fault if its own slot and those that are reached from it are supported. -/
theorem memberFault?_eq_none {node : Node} (hnode : (Slot.member node).isSupported)
    (h : ∀ slot, Reaches node slot → slot.isSupported) : memberFault? node = none := by
  rw [memberFault?_eq, List.findSome?_eq_none_iff, List.forall_mem_cons]
  exact ⟨Slot.fault?_eq_none_iff.mpr hnode,
    fun slot hslot => Slot.fault?_eq_none_iff.mpr (h slot (mem_slots_iff.mp hslot))⟩

/-- The fault of a file, if there is one, is that of its first unsupported slot. -/
theorem SourceFile.print_eq_unlessFault (file : SourceFile) :
    ∃ text, file.print = match file.slots.findSome? Slot.fault? with
      | none => .ok text
      | some fault => .error fault := by
  unfold SourceFile.print SourceFile.slots
  cases file.type with
  | none => exact ⟨_, rfl⟩
  | some type =>
    refine ⟨((writeHead file.toFileHead).addLines (memberLines type.toNode)).text, ?_⟩
    -- The type itself stands in no slot.
    have hfault : memberFault? type.toNode = (Java.slots type.toNode).findSome? Slot.fault? :=
      memberFault?_eq type.toNode
    simp only [writeMember_eq, hfault]
    cases (Java.slots type.toNode).findSome? Slot.fault? <;> rfl

/-- A file is printed exactly if all slots that are reached in it are supported.  The fault of any
other file is that of the first slot in document order that is not, and names its kind and the sort
of the node in it. -/
theorem SourceFile.print_exact (file : SourceFile) :
    ((∃ text, file.print = .ok text) ↔ ∀ slot, file.Reaches slot → slot.isSupported) ∧
    (∀ fault, file.print = .error fault ↔
      ∃ before slot after, file.slots = before ++ slot :: after ∧
        (∀ s ∈ before, s.isSupported) ∧ ¬ slot.isSupported ∧ fault = slot.fault ∧
        fault.message = slot.message) ∧
    (∀ slot, slot ∈ file.slots ↔ file.Reaches slot) ∧
    file.print ≠ .error .unbalancedDedent := by
  obtain ⟨text, hprint⟩ := file.print_eq_unlessFault
  have herror : ∀ fault, file.print = .error fault ↔
      file.slots.findSome? Slot.fault? = some fault := by
    intro fault
    rw [hprint]
    cases file.slots.findSome? Slot.fault? <;> simp
  have hfirst : ∀ fault, file.print = .error fault ↔
      ∃ before slot after, file.slots = before ++ slot :: after ∧
        (∀ s ∈ before, s.isSupported) ∧ ¬ slot.isSupported ∧ fault = slot.fault ∧
        fault.message = slot.message := by
    intro fault
    rw [herror, List.findSome?_eq_some_iff]
    constructor
    · rintro ⟨before, slot, after, heq, hfault, hbefore⟩
      obtain ⟨hslot, rfl⟩ := Slot.fault?_eq_some_iff.mp hfault
      exact ⟨before, slot, after, heq, fun s hs => Slot.fault?_eq_none_iff.mp (hbefore s hs),
        hslot, rfl, slot.message_fault⟩
    · rintro ⟨before, slot, after, heq, hbefore, hslot, hfault, -⟩
      exact ⟨before, slot, after, heq, Slot.fault?_eq_some_iff.mpr ⟨hslot, hfault.symm⟩,
        fun s hs => Slot.fault?_eq_none_iff.mpr (hbefore s hs)⟩
  refine ⟨?printed, hfirst, fun slot => SourceFile.mem_slots_iff, ?balanced⟩
  case printed =>
    have hok : (∃ text, file.print = .ok text) ↔ file.slots.findSome? Slot.fault? = none := by
      rw [hprint]
      cases file.slots.findSome? Slot.fault? <;> simp
    rw [hok, List.findSome?_eq_none_iff]
    simp only [SourceFile.mem_slots_iff, Slot.fault?_eq_none_iff]
  case balanced =>
    intro hbalance
    obtain ⟨-, slot, -, -, -, -, hfault, -⟩ := (hfirst _).mp hbalance
    cases slot <;> cases hfault

example : SourceFile.print { package := "a", type := some { name := "A", members := [
    .type { name := "B" } [.method { name := "f" } [.absent]], .javadoc "c"] } } =
      .error (.unsupportedBodyItem "NoneType") := rfl

end Phrasebook.Java
