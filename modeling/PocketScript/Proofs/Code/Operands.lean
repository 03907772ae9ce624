import PocketScript.Code.Instruction

/-!
# What instructions need and where they lead

How many operands an instruction needs, what it leaves of them on each of the ways that lead on from
it, and what its operand refers to.
-/

namespace PocketScript

namespace Opcode

/-- The operation ends the running function. -/
def leaves (op : Opcode) : Bool := op == .ret || op == .retUndefined

/-- The next instruction may follow. -/
def goesOn (op : Opcode) : Bool := op != .jump && !op.leaves

/-- A jump that keeps its operand when it is taken. -/
def keepsOperand (op : Opcode) : Bool := op == .jumpIfFalseOrPop || op == .jumpIfTrueOrPop

/-- The operand is the slot of a variable that was not boxed. -/
def refersToSlot (op : Opcode) : Bool := op == .loadLocal || op == .storeLocal

/-- The operand is the slot of a variable that was boxed. -/
def refersToCell (op : Opcode) : Bool := op == .loadCell || op == .storeCell || op == .pushCell

/-- The operand is one of the cells of the running closure. -/
def refersToUpvalue (op : Opcode) : Bool :=
  op == .loadUpvalue || op == .storeUpvalue || op == .pushUpvalue

/-- The operand is a string constant of the unit. -/
def refersToString (op : Opcode) : Bool :=
  op == .pushString || op == .loadGlobal || op == .storeGlobal || op == .defineGlobal ||
    op == .declareGlobal

/-- The operand is a function of the unit. -/
def refersToFunction (op : Opcode) : Bool := op == .pushFunction || op == .makeClosure

/-- The topmost operand is a cell afterwards. -/
def pushesCell (op : Opcode) : Bool := op == .pushCell || op == .pushUpvalue

end Opcode

namespace Instruction

/-- The operands that the instruction looks at or takes. -/
def needs (instr : Instruction) : Nat :=
  match instr.op with
  | .nop | .pushUndefined | .pushNaN | .pushTrue | .pushFalse | .pushZero | .pushInt | .pushNumber
  | .pushString | .pushFunction | .loadLocal | .loadCell | .makeCell | .pushCell | .loadUpvalue
  | .pushUpvalue | .loadGlobal | .declareGlobal | .jump | .retUndefined => 0
  | .pop | .dup | .storeLocal | .storeCell | .storeUpvalue | .storeGlobal | .defineGlobal | .neg
  | .not | .bitNot | .jumpIfFalse | .jumpIfTrue | .jumpIfFalseOrPop | .jumpIfTrueOrPop | .ret => 1
  | .dup2 | .getElem | .add | .sub | .mul | .div | .mod | .bitAnd | .bitOr | .bitXor | .shl | .shr
  | .eq | .ne | .lt | .le | .gt | .ge => 2
  | .setElem => 3
  | .makeClosure => instr.b.toNat
  | .makeArray => instr.a.toNat
  | .makeObject => 2 * instr.a.toNat
  | .call => instr.a.toNat + 1

/-- The change in depth when the next instruction follows. -/
def effect (instr : Instruction) : Int := instr.op.stackEffect instr.a instr.b

/-- The change in depth when a jump is taken. -/
def takenEffect (instr : Instruction) : Int :=
  if instr.op.keepsOperand then 0 else instr.effect

/-- An instruction that finds the operands it needs never leaves less than none. -/
theorem zero_le_needs_add_effect (instr : Instruction) :
    0 ≤ (instr.needs : Int) + instr.effect := by
  obtain ⟨op, a, b⟩ := instr
  cases op <;> simp only [needs, effect, Opcode.stackEffect] <;> omega

end Instruction

end PocketScript
