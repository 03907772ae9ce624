import PocketScript.Proofs.Code.Verified
import PocketScript.Proofs.Compile.Levels

/-!
# What a function is completed from

A function is completed from collected instructions and from what is known of its variables then
(`Origin`). When the operands of these instructions refer to what there is (`Resources.Allow`) and
the code has the shape of some body, the completed function passes the verifier
(`Origin.Yields.verified`).
-/

namespace PocketScript

/-- What the operands of collected instructions may refer to. -/
structure Resources where
  slots : Nat
  /-- The slots that inner functions capture. -/
  isCaptured : Nat → Prop
  captures : Nat
  numbers : Nat
  strings : Nat
  functions : Array FunctionDef
  /-- Functions are referred to from this place on. -/
  first : Nat

namespace Resources

/-- The instruction at an index may be there. -/
structure Allow (resources : Resources) (index : Nat) (instr : PendingInstruction) : Prop where
  slot : instr.op.refersToSlot = true → instr.a.toNat < resources.slots
  cell : instr.op.refersToCell = true →
    instr.op = .pushCell ∧ resources.isCaptured instr.a.toNat
  /-- Slots are boxed only when the function is complete. -/
  box : instr.op ≠ .makeCell
  capture : instr.op.refersToUpvalue = true → instr.a.toNat < resources.captures
  number : instr.op = .pushNumber → instr.a.toNat < resources.numbers
  string : instr.op.refersToString = true → instr.a.toNat < resources.strings
  /-- A function value is created with as many captures as the function uses. -/
  function : instr.op.refersToFunction = true → resources.first ≤ instr.a.toNat ∧
    ∃ created count, resources.functions[instr.a.toNat]? = some created ∧
      created.UsesBelow count ∧ (instr.op = .pushFunction → count = 0) ∧
        (instr.op = .makeClosure → instr.b = UInt16.ofNat count ∧ count ≤ index)

/-- There is at least as much to refer to. -/
structure Within (less more : Resources) : Prop where
  slots : less.slots ≤ more.slots
  isCaptured : ∀ slot, less.isCaptured slot → more.isCaptured slot
  captures : less.captures ≤ more.captures
  numbers : less.numbers ≤ more.numbers
  strings : less.strings ≤ more.strings
  functions : ∀ (index : Nat) function, less.first ≤ index →
    less.functions[index]? = some function → more.functions[index]? = some function
  first : more.first ≤ less.first

theorem Allow.mono {less more : Resources} {index : Nat} {instr : PendingInstruction}
    (allowed : less.Allow index instr) (within : less.Within more) :
    more.Allow index instr where
  slot refers := Nat.lt_of_lt_of_le (allowed.slot refers) within.slots
  cell refers := (allowed.cell refers).imp_right (within.isCaptured _)
  box := allowed.box
  capture refers := Nat.lt_of_lt_of_le (allowed.capture refers) within.captures
  number refers := Nat.lt_of_lt_of_le (allowed.number refers) within.numbers
  string refers := Nat.lt_of_lt_of_le (allowed.string refers) within.strings
  function refers := by
    obtain ⟨new, created, count, found, rest⟩ := allowed.function refers
    exact ⟨Nat.le_trans within.first new, created, count, within.functions _ _ new found, rest⟩

end Resources

/-- What a function is completed from. -/
structure Origin where
  assembler : Assembler
  slots : Nat
  argCount : UInt16
  /-- The slots that inner functions capture. -/
  captured : Array Bool
  captures : Nat
  isClosure : Bool
  body : List Stmt
  flow : Flow

namespace Origin

variable {origin : Origin} {numbers strings place : Nat} {functions : Array FunctionDef}
  {function : FunctionDef}

/-- What the instructions of the function at some place may refer to: functions behind it only,
which are those in its body. -/
def resources (origin : Origin) (numbers strings : Nat) (functions : Array FunctionDef)
    (place : Nat) : Resources where
  slots := origin.slots
  isCaptured slot := origin.captured[slot]? = some true
  captures := origin.captures
  numbers
  strings
  functions
  first := place + 1

/-- The function at a place is completed from an origin. -/
structure Yields (origin : Origin) (numbers strings : Nat) (functions : Array FunctionDef)
    (place : Nat) (function : FunctionDef) : Prop where
  finished : origin.assembler.finish origin.slots origin.argCount origin.captured origin.isClosure =
    .ok function
  layout : (CompleteCode.plain origin.assembler).BodyAt origin.body origin.flow
  allowed : ∀ (index : Nat) instr, origin.assembler.pending[index]? = some instr →
    (origin.resources numbers strings functions place).Allow index instr
  small : origin.slots ≤ 65535
  args : origin.argCount.toNat ≤ origin.slots
  captured : origin.captured.size ≤ origin.slots
  /-- Whatever is captured is pushed somewhere for the function that captures it. -/
  pushed : ∀ slot : Nat, origin.captured[slot]? = some true →
    ∃ index : Nat, origin.assembler.pending[index]? =
      some ⟨.pushCell, UInt16.ofNat slot, 0, none⟩

/-- A completed function stays complete while constants are added and functions behind it stay. -/
theorem Yields.mono {numbers' strings' : Nat} {functions' : Array FunctionDef}
    (yields : origin.Yields numbers strings functions place function) (moreNumbers : numbers ≤ numbers')
    (moreStrings : strings ≤ strings')
    (kept : ∀ (index : Nat) other, place < index → functions[index]? = some other →
      functions'[index]? = some other) :
    origin.Yields numbers' strings' functions' place function where
  finished := yields.finished
  layout := yields.layout
  allowed index instr found := (yields.allowed index instr found).mono
    ⟨Nat.le_refl _, fun _ => id, Nat.le_refl _, moreNumbers, moreStrings, kept, Nat.le_refl _⟩
  small := yields.small
  args := yields.args
  captured := yields.captured
  pushed := yields.pushed

/-! ## The instructions of a completed function -/

theorem Yields.sound (yields : origin.Yields numbers strings functions place function) :
    ∃ last final, origin.assembler.pending.size = last + 1 ∧
      origin.assembler.pending[last]? = some final ∧ final.op.leaves = true ∧
        ∀ (index : Nat) instr, origin.assembler.pending[index]? = some instr →
          (CompleteCode.plain origin.assembler).Sound last index instr := by
  obtain ⟨last, final, size, there, leaves, sound⟩ := yields.layout.sound
  refine ⟨last, final, size, there, leaves, fun index instr found => ?_⟩
  obtain ⟨inside, -⟩ := Array.getElem?_eq_some_iff.mp found
  obtain ⟨other, found', sound⟩ := sound index (Nat.zero_le _) (size ▸ inside)
  cases found.symm.trans found'
  exact sound

theorem Yields.proper (yields : origin.Yields numbers strings functions place function) :
    ∀ instr ∈ origin.assembler.pending.toList, instr.IsProper := by
  obtain ⟨last, final, -, -, -, sound⟩ := yields.sound
  intro instr member
  obtain ⟨index, found⟩ := List.getElem?_of_mem member
  rw [Array.getElem?_toList] at found
  exact (sound index instr found).proper

theorem Yields.disassemble (yields : origin.Yields numbers strings functions place function) :
    function.code.disassemble =
      .ok (Code.listed 0 (origin.assembler.settled origin.captured)) :=
  Assembler.disassemble_finish yields.finished yields.proper

/-- The final form of an instruction. -/
def settle (origin : Origin) (instr : PendingInstruction) : Instruction :=
  Assembler.settle origin.captured (origin.assembler.target origin.captured) instr

/-- What is listed either boxes a captured slot or is the final form of a collected instruction. -/
theorem mem_settled {instr : Instruction}
    (member : instr ∈ origin.assembler.settled origin.captured) :
    (∃ slot : Nat, origin.captured[slot]? = some true ∧
      instr = ⟨.makeCell, UInt16.ofNat slot, 0⟩) ∨
      ∃ (index : Nat) (pending : PendingInstruction),
        origin.assembler.pending[index]? = some pending ∧ instr = origin.settle pending := by
  obtain boxes | collected := List.mem_append.mp member
  · obtain ⟨slot, captured, same⟩ := Assembler.mem_boxing.mp boxes
    rw [Array.getElem?_toList] at captured
    exact .inl ⟨slot, captured, same⟩
  · obtain ⟨pending, there, same⟩ := List.mem_map.mp collected
    obtain ⟨index, found⟩ := List.getElem?_of_mem there
    rw [Array.getElem?_toList] at found
    exact .inr ⟨index, pending, found, same.symm⟩

theorem op_settle (origin : Origin) (instr : PendingInstruction) :
    (origin.settle instr).op = Assembler.settledOp origin.captured instr := by
  rw [settle, Assembler.settle_eq]

theorem b_settle (origin : Origin) (instr : PendingInstruction) :
    (origin.settle instr).b = instr.b := by
  rw [settle, Assembler.settle_eq]

/-- An instruction without a label keeps its operand. -/
theorem a_settle (origin : Origin) {instr : PendingInstruction}
    (proper : instr.IsProper) (noJump : instr.op.isJump = false) :
    (origin.settle instr).a = instr.a := by
  rw [settle, Assembler.settle_eq]
  cases target : instr.target with
  | none => rfl
  | some label =>
      have jump := proper.1.mpr (by rw [target]; rfl)
      rw [noJump] at jump
      cases jump

theorem needs_settle (origin : Origin) {instr : PendingInstruction}
    (proper : instr.IsProper) :
    (origin.settle instr).needs = instr.bare.needs := by
  have jumps := proper.1
  obtain ⟨op, a, b, target⟩ := instr
  rw [settle, Assembler.settle_eq]
  cases target with
  | none => cases op <;> first | rfl | (simp only [Assembler.settledOp]; split <;> rfl)
  | some label =>
      have jump := jumps.mpr rfl
      cases op <;> first | rfl | cases jump

theorem effect_settle (origin : Origin) {instr : PendingInstruction}
    (proper : instr.IsProper) :
    (origin.settle instr).effect = instr.bare.effect := by
  have jumps := proper.1
  obtain ⟨op, a, b, target⟩ := instr
  rw [settle, Assembler.settle_eq]
  cases target with
  | none => cases op <;> first | rfl | (simp only [Assembler.settledOp]; split <;> rfl)
  | some label =>
      have jump := jumps.mpr rfl
      cases op <;> first | rfl | cases jump

/-- The instruction at an index of the settled code. -/
theorem getElem?_settled {index : Nat} {instr : Instruction}
    (found : (origin.assembler.settled origin.captured)[index]? = some instr) :
    let entry := (Assembler.boxing origin.captured.toList).length
    (index < entry ∧ ∃ slot : Nat, instr = ⟨.makeCell, UInt16.ofNat slot, 0⟩) ∨
      ∃ position pending, index = entry + position ∧
        origin.assembler.pending[position]? = some pending ∧
          instr = origin.settle pending := by
  by_cases front : index < (Assembler.boxing origin.captured.toList).length
  · rw [Assembler.settled, List.getElem?_append_left front] at found
    obtain ⟨slot, -, same⟩ := Assembler.mem_boxing.mp (List.mem_of_getElem? found)
    exact .inl ⟨front, slot, same⟩
  · rw [Assembler.settled, List.getElem?_append_right (Nat.le_of_not_lt front), List.getElem?_map,
      Option.map_eq_some_iff] at found
    obtain ⟨pending, there, same⟩ := found
    rw [Array.getElem?_toList] at there
    exact .inr ⟨_, pending, by omega, there, same.symm⟩

theorem length_settled (origin : Origin) :
    (origin.assembler.settled origin.captured).length =
      (Assembler.boxing origin.captured.toList).length + origin.assembler.pending.size := by
  rw [Assembler.settled, List.length_append, List.length_map]
  rfl

/-- A collected instruction is listed in its final form at its offset. -/
theorem mem_listed_settle {index : Nat} {instr : PendingInstruction}
    (found : origin.assembler.pending[index]? = some instr) :
    (origin.assembler.offset origin.captured index, origin.settle instr) ∈
      Code.listed 0 (origin.assembler.settled origin.captured) := by
  refine Code.mem_listed.mpr
    ⟨(Assembler.boxing origin.captured.toList).length + index, ?_, ?_⟩
  · rw [Assembler.settled, List.getElem?_append_right (Nat.le_add_right _ _),
      Nat.add_sub_cancel_left, List.getElem?_map, Array.getElem?_toList, found]
    rfl
  · rw [Nat.zero_add]
    exact (Assembler.sumOver_take_settled origin.captured origin.assembler index).symm

/-- A jump leads to the offset of the instruction that its label was placed in front of. -/
theorem Yields.target_settle (yields : origin.Yields numbers strings functions place function)
    {instr : PendingInstruction} {label : Label} {index : Nat}
    (target : instr.target = some label)
    (placed : (CompleteCode.plain origin.assembler).Places label index)
    (inside : index ≤ origin.assembler.pending.size) :
    (origin.settle instr).a.toNat = origin.assembler.offset origin.captured index := by
  obtain ⟨-, fits, -⟩ := Assembler.finish_eq_ok yields.finished
  have bound := Assembler.offset_mono origin.captured origin.assembler inside
  have offset : origin.assembler.target origin.captured label =
      origin.assembler.offset origin.captured index :=
    Assembler.target_eq origin.captured placed
  rw [settle, Assembler.settle_eq, target]
  simp only
  rw [offset, toNat_ofNat_of_le (Nat.le_trans bound fits)]

/-- The depths of the collected instructions are those of the completed function. -/
theorem Yields.leveled (yields : origin.Yields numbers strings functions place function) :
    ∃ level cells, Listing.Leveled
      (Code.listed 0 (origin.assembler.settled origin.captured)) function.stackHigh.toNat level
        cells := by
  obtain ⟨last, final, size, there, leaves, sound⟩ := yields.sound
  have leads := @yields.target_settle
  obtain ⟨shallow, -, rfl⟩ := Assembler.finish_eq_ok yields.finished
  have high : (UInt16.ofNat origin.assembler.maxDepth.toNat).toNat =
      origin.assembler.maxDepth.toNat := toNat_ofNat_of_le (by omega)
  have length := origin.length_settled
  have offsets := Assembler.sumOver_take_settled origin.captured origin.assembler
  have inverse := @getElem?_settled origin
  generalize (Assembler.boxing origin.captured.toList).length = front at length offsets inverse
  -- Nothing lies on the stack while slots are boxed.
  have early : ∀ index ≤ front, (CompleteCode.plain origin.assembler).level (index - front) = 0 ∧
      (CompleteCode.plain origin.assembler).cells (index - front) = 0 := fun index before => by
    rw [Nat.sub_eq_zero_of_le before]
    exact ⟨rfl, rfl⟩
  refine @Listing.Ordered.leveled _ _
    (fun index => (CompleteCode.plain origin.assembler).level (index - front))
    (fun index => (CompleteCode.plain origin.assembler).cells (index - front)) ⟨(early 0 (Nat.zero_le _)).1,
    (early 0 (Nat.zero_le _)).2, fun index instr found => ?needs,
    fun index instr found => ?room, fun index instr found goesOn => ?next,
    fun index instr found jump => ?taken, fun index instr found closure => ?captured⟩
  all_goals
    obtain ⟨before, slot, rfl⟩ | ⟨position, pending, rfl, collected, rfl⟩ := inverse found
  case needs.inl => exact Nat.zero_le _
  case needs.inr =>
    have ready := sound position pending collected
    rw [needs_settle origin ready.proper, Nat.add_sub_cancel_left]
    exact ready.needs
  case room.inl =>
    rw [(early index (Nat.le_of_lt before)).1]
    exact Nat.zero_le _
  case room.inr =>
    rw [Nat.add_sub_cancel_left, high]
    exact (sound position pending collected).room
  case next.inl =>
    rw [(early (index + 1) before).1, (early (index + 1) before).2,
      (early index (Nat.le_of_lt before)).1]
    exact ⟨by omega, rfl, Nat.zero_le _⟩
  case next.inr =>
    have ready := sound position pending collected
    obtain ⟨inside, -⟩ := Array.getElem?_eq_some_iff.mp collected
    rw [op_settle, Assembler.settledOp_congr Opcode.goesOn rfl rfl] at goesOn
    have notLast : position ≠ last := by
      rintro rfl
      cases there.symm.trans collected
      rw [Opcode.goesOn, leaves, Bool.not_true, Bool.and_false] at goesOn
      cases goesOn
    have behind : front + position + 1 - front = position + 1 := by omega
    have enough := pending.bare.zero_le_needs_add_effect
    have needs := ready.needs
    rw [behind, Nat.add_sub_cancel_left, CompleteCode.level_succ collected,
      CompleteCode.cells_succ collected, PendingInstruction.levelAfter, if_pos goesOn,
      effect_settle origin ready.proper, op_settle,
      Assembler.settledOp_congr Opcode.pushesCell rfl rfl]
    exact ⟨by omega, Int.toNat_of_nonneg (by omega), Nat.le_refl _⟩
  case taken.inl => cases jump
  case taken.inr =>
    have ready := sound position pending collected
    rw [op_settle, Assembler.settledOp_congr Opcode.isJump rfl rfl] at jump
    obtain ⟨label, target⟩ := Option.isSome_iff_exists.mp (ready.proper.1.mp jump)
    obtain ⟨depth, same, place, placed, inside, level, cells⟩ := ready.taken label target
    have effect : (origin.settle pending).takenEffect = pending.bare.takenEffect := by
      unfold Instruction.takenEffect
      rw [effect_settle origin ready.proper, op_settle,
        Assembler.settledOp_congr Opcode.keepsOperand rfl rfl]
      rfl
    refine ⟨front + place, by omega, ?_, ?_, ?_⟩
    · rw [leads target placed (by omega)]
      exact (offsets place).symm
    · rw [Nat.add_sub_cancel_left, Nat.add_sub_cancel_left, level, effect, same]
    · rw [Nat.add_sub_cancel_left]
      exact cells
  case captured.inl => cases closure
  case captured.inr =>
    rw [op_settle] at closure
    have op : pending.op = .makeClosure := by
      obtain ⟨op, a, b, target⟩ := pending
      unfold Assembler.settledOp at closure
      cases op <;> simp only at closure <;>
        first | rfl | cases closure | (split at closure <;> cases closure)
    rw [b_settle, Nat.add_sub_cancel_left]
    exact Nat.le_of_eq ((sound position pending collected).captured op)

/-! ## What their operands refer to -/

theorem Yields.small_index (yields : origin.Yields numbers strings functions place function)
    {slot : Nat} (captured : origin.captured[slot]? = some true) :
    slot < origin.slots ∧ (UInt16.ofNat slot).toNat = slot := by
  obtain ⟨inside, -⟩ := Array.getElem?_eq_some_iff.mp captured
  have few := yields.captured
  have small := yields.small
  exact ⟨by omega, toNat_ofNat_of_le (by omega)⟩

/-- Exactly the captured slots are boxed. -/
theorem Yields.boxes_iff (yields : origin.Yields numbers strings functions place function)
    {slot : UInt16} :
    Listing.Boxes (Code.listed 0 (origin.assembler.settled origin.captured)) slot ↔
      origin.captured[slot.toNat]? = some true := by
  constructor
  · rintro ⟨offset, instr, member, op, rfl⟩
    obtain ⟨index, found, -⟩ := Code.mem_listed.mp member
    obtain ⟨slot, captured, rfl⟩ | ⟨position, pending, there, rfl⟩ :=
      mem_settled (List.mem_of_getElem? found)
    · rw [(yields.small_index captured).2]
      exact captured
    · rw [op_settle] at op
      exact absurd op (Assembler.settledOp_ne_makeCell origin.captured
        (yields.allowed position pending there).box)
  · intro captured
    have member : (⟨.makeCell, slot, 0⟩ : Instruction) ∈
        origin.assembler.settled origin.captured := by
      refine List.mem_append_left _ (Assembler.mem_boxing.mpr ⟨slot.toNat, ?_, ?_⟩)
      · rw [Array.getElem?_toList]
        exact captured
      · rw [UInt16.ofNat_toNat]
    obtain ⟨index, found⟩ := List.getElem?_of_mem member
    exact ⟨_, _, Code.mem_listed.mpr ⟨index, found, rfl⟩, rfl, rfl⟩

section

variable {offset : Nat} {instr : Instruction}

/-- What is known of a listed instruction whose operation neither boxes a slot nor jumps. -/
theorem Yields.allowed_settled
    (yields : origin.Yields numbers strings functions place function) (property : Opcode → Bool)
    (load : property .loadCell = property .loadLocal)
    (store : property .storeCell = property .storeLocal) (box : property .makeCell = false)
    (jump : ∀ op, property op = true → op.isJump = false)
    (member : (offset, instr) ∈ Code.listed 0 (origin.assembler.settled origin.captured))
    (holds : property instr.op = true) : ∃ index pending,
      origin.assembler.pending[index]? = some pending ∧ property pending.op = true ∧
        instr.op = Assembler.settledOp origin.captured pending ∧
          instr.a = pending.a ∧ instr.b = pending.b ∧
            (origin.resources numbers strings functions place).Allow index pending := by
  obtain ⟨index, found, -⟩ := Code.mem_listed.mp member
  obtain ⟨slot, -, rfl⟩ | ⟨position, pending, there, rfl⟩ :=
    mem_settled (List.mem_of_getElem? found)
  · rw [box] at holds
    cases holds
  · rw [op_settle, Assembler.settledOp_congr property load store] at holds
    have proper := yields.proper pending (Array.mem_toList_iff.mpr (Array.mem_of_getElem? there))
    exact ⟨position, pending, there, holds, op_settle origin pending,
      origin.a_settle proper (jump _ holds), origin.b_settle pending,
      yields.allowed position pending there⟩

/-- The function uses none but its captures. -/
theorem Yields.usesBelow (yields : origin.Yields numbers strings functions place function) :
    function.UsesBelow origin.captures := by
  intro listing listed offset instr member refers
  cases yields.disassemble.symm.trans listed
  obtain ⟨index, pending, -, used, -, same, -, allowed⟩ :=
    yields.allowed_settled Opcode.refersToUpvalue rfl rfl rfl (fun op => by cases op <;> decide)
      member refers
  rw [same]
  exact allowed.capture used

variable {program : Program}

/-- An access to a variable goes to its slot when no function captures it, and to its cell when one
does. -/
theorem Yields.accesses (yields : origin.Yields numbers strings functions place function)
    (member : (offset, instr) ∈ Code.listed 0 (origin.assembler.settled origin.captured))
    (refers : instr.op.refersToSlot = true ∨ instr.op.refersToCell = true) :
    (instr.op.refersToSlot = true ∧ instr.a.toNat < origin.slots ∧
      origin.captured[instr.a.toNat]? ≠ some true) ∨
      (instr.op.refersToCell = true ∧
        origin.captured[instr.a.toNat]? = some true) := by
  obtain ⟨index, pending, -, used, op, same, -, allowed⟩ :=
    yields.allowed_settled (fun op => op.refersToSlot || op.refersToCell) rfl rfl rfl
      (fun op => by cases op <;> decide) member (Bool.or_eq_true _ _ ▸ refers)
  rw [op, same]
  by_cases slot : pending.op.refersToSlot = true
  · obtain ⟨captured, cell⟩ | ⟨notCaptured, kept⟩ :=
      Assembler.settledOp_of_slot origin.captured slot
    · exact .inr ⟨cell, captured⟩
    · exact .inl ⟨kept ▸ slot, allowed.slot slot, notCaptured⟩
  · have cell : pending.op.refersToCell = true :=
      ((Bool.or_eq_true _ _).mp used).resolve_left slot
    rw [Assembler.settledOp_of_not_slot origin.captured (eq_false_of_ne_true slot)]
    exact .inr ⟨cell, (allowed.cell cell).2⟩

theorem Yields.inRange
    (yields : origin.Yields program.numbers.size program.strings.size program.functions place
      function)
    (member : (offset, instr) ∈ Code.listed 0 (origin.assembler.settled origin.captured)) :
    instr.InRange program function := by
  have slots : function.varCount.toNat = origin.slots := by
    obtain ⟨-, -, rfl⟩ := Assembler.finish_eq_ok yields.finished
    exact toNat_ofNat_of_le yields.small
  have captured : ∀ slot : UInt16, origin.captured[slot.toNat]? = some true →
      slot.toNat < function.varCount.toNat := fun slot captured => by
    rw [slots]
    exact (yields.small_index captured).1
  refine ⟨?_, fun op => ?_, fun refers => ?_, fun refers => ?_⟩
  · intro refers
    obtain access | op := or_assoc.mpr refers
    · obtain ⟨-, inside, -⟩ | ⟨-, isCaptured⟩ := yields.accesses member access
      · rw [slots]
        exact inside
      · exact captured _ isCaptured
    · exact captured _ (yields.boxes_iff.mp ⟨offset, instr, member, op, rfl⟩)
  · obtain ⟨index, pending, -, used, -, same, -, allowed⟩ :=
      yields.allowed_settled (· == .pushNumber) rfl rfl rfl (fun op => by cases op <;> decide)
        member (beq_iff_eq.mpr op)
    rw [same]
    exact allowed.number (eq_of_beq used)
  · obtain ⟨index, pending, -, used, -, same, -, allowed⟩ :=
      yields.allowed_settled Opcode.refersToString rfl rfl rfl (fun op => by cases op <;> decide)
        member refers
    rw [same]
    exact allowed.string used
  · obtain ⟨index, pending, -, used, -, same, -, allowed⟩ :=
      yields.allowed_settled Opcode.refersToFunction rfl rfl rfl (fun op => by cases op <;> decide)
        member refers
    obtain ⟨-, created, -, found, -⟩ := allowed.function used
    obtain ⟨inside, -⟩ := Array.getElem?_eq_some_iff.mp found
    rw [same]
    exact inside

/-- The operations that refer to cells and to slots are different ones. -/
theorem not_refersToSlot_of_cell {op : Opcode} (cell : op.refersToCell = true) :
    op.refersToSlot = false := by
  cases op <;> first | rfl | cases cell

/-- The completed function passes the verifier. -/
theorem Yields.verified
    (yields : origin.Yields program.numbers.size program.strings.size program.functions place
      function) :
    function.Verified program (Code.listed 0 (origin.assembler.settled origin.captured)) := by
  obtain ⟨last, final, size, there, leaves, sound⟩ := yields.sound
  have few := Assembler.pending_size_le yields.finished
  refine ⟨yields.disassemble, ?last,
    fun offset instr member jump => ?jumps, yields.leveled, ?args,
    fun _ _ member => yields.inRange member, ?boxing, fun offset instr member cell => ?boxed,
    fun slot boxes => ?shared, fun offset instr member slot boxes => ?unboxed,
    fun offset instr member op created found => ?plain,
    fun offset instr member op created found => ?closure⟩
  case last =>
    have ends : (origin.assembler.settled origin.captured).getLast? =
        some (origin.settle final) := by
      rw [Assembler.settled, List.getLast?_append, List.getLast?_map, List.getLast?_eq_getElem?,
        Array.length_toList, size, Nat.add_sub_cancel, Array.getElem?_toList, there]
      rfl
    obtain ⟨offset, listed⟩ := Code.getLast?_listed ends
    refine ⟨offset, _, listed, ?_⟩
    rw [op_settle, Assembler.settledOp_congr Opcode.leaves rfl rfl]
    exact leaves
  case jumps =>
    obtain ⟨index, found, -⟩ := Code.mem_listed.mp member
    obtain ⟨slot, -, rfl⟩ | ⟨position, pending, collected, rfl⟩ :=
      mem_settled (List.mem_of_getElem? found)
    · cases jump
    · have ready := sound position pending collected
      rw [op_settle, Assembler.settledOp_congr Opcode.isJump rfl rfl] at jump
      obtain ⟨label, target⟩ := Option.isSome_iff_exists.mp (ready.proper.1.mp jump)
      obtain ⟨-, -, index, placed, before, -⟩ := ready.taken label target
      have inside : index < origin.assembler.pending.size := by omega
      rw [yields.target_settle target placed (Nat.le_of_lt inside)]
      exact ⟨_, mem_listed_settle (Array.getElem?_eq_getElem inside)⟩
  case args =>
    obtain ⟨-, -, rfl⟩ := Assembler.finish_eq_ok yields.finished
    rw [UInt16.le_iff_toNat_le, toNat_ofNat_of_le yields.small]
    exact yields.args
  case boxing =>
    refine ⟨_, _, Code.listed_append _ _ _, fun offset instr member => ?_,
      fun offset instr member op => ?_⟩
    · obtain ⟨index, found, -⟩ := Code.mem_listed.mp member
      obtain ⟨slot, -, rfl⟩ := Assembler.mem_boxing.mp (List.mem_of_getElem? found)
      rfl
    · obtain ⟨index, found, -⟩ := Code.mem_listed.mp member
      obtain ⟨pending, collected, rfl⟩ := List.mem_map.mp (List.mem_of_getElem? found)
      obtain ⟨position, there⟩ := List.getElem?_of_mem collected
      rw [Array.getElem?_toList] at there
      rw [Assembler.settle_eq] at op
      exact Assembler.settledOp_ne_makeCell origin.captured
        (yields.allowed position pending there).box op
  case boxed =>
    obtain ⟨slot, -⟩ | ⟨-, captured⟩ := yields.accesses member (.inr cell)
    · rw [not_refersToSlot_of_cell cell] at slot
      cases slot
    · exact yields.boxes_iff.mpr captured
  case shared =>
    have captured := yields.boxes_iff.mp boxes
    obtain ⟨index, found⟩ := yields.pushed slot.toNat captured
    rw [UInt16.ofNat_toNat] at found
    exact ⟨_, _, mem_listed_settle found, rfl, rfl⟩
  case unboxed =>
    obtain ⟨-, -, notCaptured⟩ | ⟨cell, -⟩ := yields.accesses member (.inl slot)
    · exact notCaptured (yields.boxes_iff.mp boxes)
    · rw [not_refersToSlot_of_cell cell] at slot
      cases slot
  case plain =>
    obtain ⟨index, pending, -, used, -, same, -, allowed⟩ :=
      yields.allowed_settled (· == .pushFunction) rfl rfl rfl (fun op => by cases op <;> decide)
        member (beq_iff_eq.mpr op)
    have isPush := eq_of_beq used
    obtain ⟨-, other, count, found', below, none, -⟩ := allowed.function (by rw [isPush]; rfl)
    rw [same] at found
    cases found'.symm.trans found
    exact none isPush ▸ below
  case closure =>
    obtain ⟨index, pending, there, used, -, same, sameCount, allowed⟩ :=
      yields.allowed_settled (· == .makeClosure) rfl rfl rfl (fun op => by cases op <;> decide)
        member (beq_iff_eq.mpr op)
    have isClosure := eq_of_beq used
    obtain ⟨-, other, count, found', below, -, counts⟩ := allowed.function (by rw [isClosure]; rfl)
    obtain ⟨counted, small⟩ := counts isClosure
    obtain ⟨inside, -⟩ := Array.getElem?_eq_some_iff.mp there
    rw [same] at found
    cases found'.symm.trans found
    rw [sameCount, counted, toNat_ofNat_of_le (by omega)]
    exact below

end

end Origin

end PocketScript
