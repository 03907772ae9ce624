import PocketScript.Proofs.Code.Listing
import PocketScript.Proofs.Code.Operands

/-!
# Verified code

What a verifier of compiled functions would check (`FunctionDef.Verified`): the code is a list of
whole instructions and ends by leaving the function, jumps lead to instructions, every instruction
has a depth at which it finds its operands and stays within the room that the function asks for,
operands refer to what there is, boxed variables are reached through their cells only, and a function
that uses captured variables is created with enough of them.
-/

namespace PocketScript

/-- Instructions with their offsets. -/
abbrev Listing := List (Nat × Instruction)

namespace Listing

/-- Operand depths for the instructions at all offsets: nothing lies on the stack at the entry, each
instruction finds the operands it needs, and the depths agree along every way that leads on. The
topmost operands that are known to be cells are counted as well; a closure is made of nothing
else. -/
structure Leveled (listing : Listing) (stackHigh : Nat) (level cells : Nat → Nat) : Prop where
  entry : level 0 = 0
  entryCells : cells 0 = 0
  needs : ∀ offset instr, (offset, instr) ∈ listing → instr.needs ≤ level offset
  room : ∀ offset instr, (offset, instr) ∈ listing → level offset ≤ stackHigh
  next : ∀ offset instr, (offset, instr) ∈ listing → instr.op.goesOn = true →
    (∃ follower, (offset + instr.size, follower) ∈ listing) ∧
      (level (offset + instr.size) : Int) = level offset + instr.effect ∧
        cells (offset + instr.size) ≤ if instr.op.pushesCell then cells offset + 1 else 0
  taken : ∀ offset instr, (offset, instr) ∈ listing → instr.op.isJump = true →
    (level instr.a.toNat : Int) = level offset + instr.takenEffect ∧
      cells instr.a.toNat = 0
  captured : ∀ offset instr, (offset, instr) ∈ listing →
    instr.op = .makeClosure → instr.b.toNat ≤ cells offset

/-- Operand depths for the instructions by their order. -/
structure Ordered (instructions : List Instruction) (stackHigh : Nat) (level cells : Nat → Nat) :
    Prop where
  entry : level 0 = 0
  entryCells : cells 0 = 0
  needs : ∀ (index : Nat) instr, instructions[index]? = some instr →
    instr.needs ≤ level index
  room : ∀ (index : Nat) instr, instructions[index]? = some instr →
    level index ≤ stackHigh
  next : ∀ (index : Nat) instr, instructions[index]? = some instr →
    instr.op.goesOn = true → index + 1 < instructions.length ∧
      (level (index + 1) : Int) = level index + instr.effect ∧
        cells (index + 1) ≤ if instr.op.pushesCell then cells index + 1 else 0
  taken : ∀ (index : Nat) instr, instructions[index]? = some instr →
    instr.op.isJump = true → ∃ target < instructions.length,
      instr.a.toNat = sumOver Instruction.size (instructions.take target) ∧
        (level target : Int) = level index + instr.takenEffect ∧ cells target = 0
  captured : ∀ (index : Nat) instr, instructions[index]? = some instr →
    instr.op = .makeClosure → instr.b.toNat ≤ cells index

/-- Depths by order are depths at offsets. -/
theorem Ordered.leveled {instructions : List Instruction} {stackHigh : Nat} {level cells : Nat → Nat}
    (ordered : Ordered instructions stackHigh level cells) :
    ∃ level cells, Leveled (Code.listed 0 instructions) stackHigh level cells := by
  obtain ⟨levels, levelAt⟩ := Code.exists_at_offsets instructions level
  obtain ⟨counts, cellsAt⟩ := Code.exists_at_offsets instructions cells
  have listed : ∀ {offset instr}, (offset, instr) ∈ Code.listed 0 instructions →
      ∃ index, instructions[index]? = some instr ∧ levels offset = level index ∧
        counts offset = cells index ∧
          offset = sumOver Instruction.size (instructions.take index) := by
    intro offset instr member
    obtain ⟨index, found, same⟩ := Code.mem_listed.mp member
    obtain ⟨inside, -⟩ := List.getElem?_eq_some_iff.mp found
    rw [Nat.zero_add] at same
    subst same
    exact ⟨index, found, levelAt index (Nat.le_of_lt inside), cellsAt index (Nat.le_of_lt inside),
      rfl⟩
  refine ⟨levels, counts, (levelAt 0 (Nat.zero_le _)).trans ordered.entry,
    (cellsAt 0 (Nat.zero_le _)).trans ordered.entryCells, fun offset instr member => ?_,
    fun offset instr member => ?_, fun offset instr member goesOn => ?_,
    fun offset instr member jump => ?_, fun offset instr member closure => ?_⟩
  · obtain ⟨index, found, here, -⟩ := listed member
    rw [here]
    exact ordered.needs index instr found
  · obtain ⟨index, found, here, -⟩ := listed member
    rw [here]
    exact ordered.room index instr found
  · obtain ⟨index, found, here, cellsHere, same⟩ := listed member
    obtain ⟨inside, next, nextCells⟩ := ordered.next index instr found goesOn
    have behind : offset + instr.size =
        sumOver Instruction.size (instructions.take (index + 1)) := by
      rw [List.take_add_one, found, sumOver_append, same]
      rfl
    rw [behind, levelAt _ (Nat.le_of_lt inside), cellsAt _ (Nat.le_of_lt inside), here, cellsHere]
    refine ⟨⟨instructions[index + 1], Code.mem_listed.mpr ⟨index + 1, ?_, ?_⟩⟩, next, nextCells⟩
    · exact List.getElem?_eq_getElem inside
    · exact (Nat.zero_add _).symm
  · obtain ⟨index, found, here, -⟩ := listed member
    obtain ⟨target, inside, place, there, none⟩ := ordered.taken index instr found jump
    rw [place, levelAt _ (Nat.le_of_lt inside), cellsAt _ (Nat.le_of_lt inside), here]
    exact ⟨there, none⟩
  · obtain ⟨index, found, -, cellsHere, -⟩ := listed member
    rw [cellsHere]
    exact ordered.captured index instr found closure

/-- A slot is boxed on entry. -/
def Boxes (listing : Listing) (slot : UInt16) : Prop :=
  ∃ offset instr, (offset, instr) ∈ listing ∧ instr.op = .makeCell ∧
    instr.a = slot

/-- The captured variables that the code uses are among so many. -/
def UsesBelow (listing : Listing) (count : Nat) : Prop :=
  ∀ offset instr, (offset, instr) ∈ listing → instr.op.refersToUpvalue = true →
    instr.a.toNat < count

end Listing

/-- The captured variables that a function uses are among so many. -/
def FunctionDef.UsesBelow (function : FunctionDef) (count : Nat) : Prop :=
  ∀ listing, function.code.disassemble = .ok listing → Listing.UsesBelow listing count

/-- What the operand of an instruction refers to is there. -/
structure Instruction.InRange (program : Program) (function : FunctionDef)
    (instr : Instruction) : Prop where
  variable_ : instr.op.refersToSlot = true ∨ instr.op.refersToCell = true ∨
    instr.op = .makeCell → instr.a.toNat < function.varCount.toNat
  number : instr.op = .pushNumber → instr.a.toNat < program.numbers.size
  string : instr.op.refersToString = true → instr.a.toNat < program.strings.size
  function : instr.op.refersToFunction = true → instr.a.toNat < program.functions.size

/-- The code of a function passes the verifier. -/
structure FunctionDef.Verified (program : Program) (function : FunctionDef) (listing : Listing) :
    Prop where
  listed : function.code.disassemble = .ok listing
  last : ∃ offset instr, listing.getLast? = some (offset, instr) ∧
    instr.op.leaves = true
  jumps : ∀ offset instr, (offset, instr) ∈ listing → instr.op.isJump = true →
    ∃ target, (instr.a.toNat, target) ∈ listing
  leveled : ∃ level cells, Listing.Leveled listing function.stackHigh.toNat level cells
  args : function.argCount ≤ function.varCount
  inRange : ∀ offset instr, (offset, instr) ∈ listing →
    instr.InRange program function
  /-- Slots are boxed before anything else is done. -/
  boxing : ∃ boxes rest : Listing, listing = boxes ++ rest ∧
    (∀ offset instr, (offset, instr) ∈ boxes → instr.op = .makeCell) ∧
      ∀ offset instr, (offset, instr) ∈ rest → instr.op ≠ .makeCell
  boxed : ∀ offset instr, (offset, instr) ∈ listing →
    instr.op.refersToCell = true → Listing.Boxes listing instr.a
  /-- Nothing is boxed in vain. -/
  shared : ∀ slot, Listing.Boxes listing slot → ∃ offset instr,
    (offset, instr) ∈ listing ∧ instr.op.refersToCell = true ∧ instr.a = slot
  unboxed : ∀ offset instr, (offset, instr) ∈ listing →
    instr.op.refersToSlot = true → ¬ Listing.Boxes listing instr.a
  /-- Without captures only a function is created that uses none. -/
  plain : ∀ offset instr, (offset, instr) ∈ listing → instr.op = .pushFunction →
    ∀ created, program.function? instr.a = some created → created.UsesBelow 0
  closure : ∀ offset instr, (offset, instr) ∈ listing → instr.op = .makeClosure →
    ∀ created, program.function? instr.a = some created →
      created.UsesBelow instr.b.toNat

/-- What the verifier checks of a whole program; the function that it starts with captures
nothing. -/
structure Program.Verified (program : Program) : Prop where
  main : ∃ function, program.function? 0 = some function ∧ function.UsesBelow 0
  functions : ∀ (index : Nat) function, program.functions[index]? = some function →
    ∃ listing, function.Verified program listing

end PocketScript
