import PocketScript.Fault
import PocketScript.Code.Opcode

/-!
# Instructions as bytes

An instruction is its operation's byte followed by its operands, each 16 bits with the low byte
first. Decoding at a position and listing a whole code sequence use the same step, so a listing
shows exactly the instructions a run without jumps would meet.
-/

namespace PocketScript

/-- An operation with its operands; operands the operation does not take are zero. -/
structure Instruction where
  op : Opcode
  a : UInt16
  b : UInt16
  deriving DecidableEq, Repr

namespace Instruction

def size (instruction : Instruction) : Nat := instruction.op.size

/-- The two bytes of an operand, the low one first. -/
def operandBytes (value : UInt16) : List UInt8 :=
  [UInt8.ofNat (value.toNat % 256), UInt8.ofNat (value.toNat / 256)]

/-- The operand two bytes stand for. -/
def operandOf (low high : UInt8) : UInt16 := UInt16.ofNat (low.toNat + 256 * high.toNat)

/-- The bytes of an instruction. -/
def encode (instruction : Instruction) : List UInt8 :=
  instruction.op.toByte ::
    match instruction.op.arity with
    | 0 => []
    | 1 => operandBytes instruction.a
    | _ => operandBytes instruction.a ++ operandBytes instruction.b

/-- The instruction in a listing. -/
def text (instruction : Instruction) : String :=
  match instruction.op.arity with
  | 0 => instruction.op.mnemonic
  | 1 => s!"{instruction.op.mnemonic} {toString instruction.a.toNat}"
  | _ =>
      s!"{instruction.op.mnemonic} {toString instruction.a.toNat} {toString instruction.b.toNat}"

end Instruction

/-- The code of a function. -/
abbrev Code := Array UInt8

namespace Code

/-- The operand at a position. -/
def operandAt (code : Code) (position : Nat) : Except Fault UInt16 :=
  match code[position]?, code[position + 1]? with
  | some low, some high => .ok (Instruction.operandOf low high)
  | _, _ => .error .invalidOperand

/-- The instruction that starts at a position. -/
def decode (code : Code) (pc : Nat) : Except Fault Instruction :=
  match code[pc]? with
  | none => .error .invalidOperand
  | some byte =>
      match Opcode.ofByte? byte with
      | none => .error (.invalidOpcode byte)
      | some op => do
          let a ← if 1 ≤ op.arity then code.operandAt (pc + 1) else pure 0
          let b ← if 2 ≤ op.arity then code.operandAt (pc + 3) else pure 0
          pure ⟨op, a, b⟩

/-- Lists the instructions from a position on, each with its offset; `listed` holds those before
it, last first. -/
def disassembleFrom (code : Code) (listed : List (Nat × Instruction)) (pc : Nat) :
    Except Fault (List (Nat × Instruction)) :=
  if pc < code.size then
    match code.decode pc with
    | .error fault => .error fault
    | .ok instruction =>
        have := instruction.op.size_pos
        disassembleFrom code ((pc, instruction) :: listed) (pc + instruction.op.size)
  else .ok listed.reverse
termination_by code.size - pc

/-- All instructions of a code sequence with their offsets. -/
def disassemble (code : Code) : Except Fault (List (Nat × Instruction)) :=
  code.disassembleFrom [] 0

end Code

end PocketScript
