import PocketScript.CompileError
import PocketScript.Program

/-!
# Assembling a function

The code of a function is collected as instructions whose jumps name labels. When the function is
complete its captured slots are known: on entry each of them is boxed into a cell, and every access
to it becomes an access to the cell. Only then do labels turn into offsets.
-/

namespace PocketScript

/-- A place in unfinished code, named before it is known. -/
structure Label where
  index : Nat
  deriving DecidableEq, Repr

/-- An instruction whose jump target is still a label. -/
structure PendingInstruction where
  op : Opcode
  a : UInt16
  b : UInt16
  target : Option Label
  deriving DecidableEq, Repr

/-- The unfinished code of one function. -/
structure Assembler where
  pending : Array PendingInstruction := #[]
  /-- For each label the number of instructions in front of its place, once it has one. -/
  labels : Array (Option Nat) := #[]
  /-- Operands on the stack behind the last instruction. -/
  depth : Int := 0
  maxDepth : Int := 0
  deriving Repr, Inhabited

namespace Assembler

def push (assembler : Assembler) (instruction : PendingInstruction) : Assembler :=
  let depth := assembler.depth + instruction.op.stackEffect instruction.a instruction.b
  { assembler with
    pending := assembler.pending.push instruction
    depth
    maxDepth := max assembler.maxDepth depth }

/-- Adds an instruction that is no jump. -/
def emit (assembler : Assembler) (op : Opcode) (a b : UInt16) : Assembler :=
  assembler.push ⟨op, a, b, none⟩

/-- Adds a jump to a label. -/
def emitJump (assembler : Assembler) (op : Opcode) (target : Label) : Assembler :=
  assembler.push ⟨op, 0, 0, some target⟩

def newLabel (assembler : Assembler) : Label × Assembler :=
  (⟨assembler.labels.size⟩, { assembler with labels := assembler.labels.push none })

/-- Places a label in front of the next instruction. -/
def placeLabel (assembler : Assembler) (label : Label) : Assembler :=
  { assembler with
    labels := assembler.labels.setIfInBounds label.index (some assembler.pending.size) }

/-- Declares how many operands are on the stack, where control arrives from elsewhere. -/
def setDepth (assembler : Assembler) (depth : Int) : Assembler := { assembler with depth }

/-- The instructions that box the captured slots, in the order of the slots. -/
def boxing (captured : List Bool) : List Instruction :=
  (captured.zipIdx.filter (·.1)).map fun slot => ⟨.makeCell, UInt16.ofNat slot.2, 0⟩

/-- The offset of each instruction when the first one stands at `start`, and the offset behind all
of them. -/
def layout (start : Nat) (pending : Array PendingInstruction) : Array Nat × Nat :=
  pending.foldl
    (fun (places, next) instruction => (places.push next, next + instruction.op.size))
    (#[], start)

/-- The offset a label stands for: that of the instruction it was placed in front of, or `behind`
when none follows. -/
def labelOffset (labels : Array (Option Nat)) (places : Array Nat) (behind : Nat)
    (label : Label) : Nat :=
  match labels[label.index]? with
  | some (some index) => places.getD index behind
  | _ => behind

/-- The final form of an instruction: an access to a captured slot goes to its cell, and a label is
replaced by its offset. -/
def settle (captured : Array Bool) (offset : Label → Nat) (instruction : PendingInstruction) :
    Instruction :=
  let isCaptured := captured.getD instruction.a.toNat false
  let op :=
    match instruction.op with
    | .loadLocal => if isCaptured then .loadCell else .loadLocal
    | .storeLocal => if isCaptured then .storeCell else .storeLocal
    | op => op
  match instruction.target with
  | none => ⟨op, instruction.a, instruction.b⟩
  | some label => ⟨op, UInt16.ofNat (offset label), instruction.b⟩

/-- Completes the function. Its stack depth and its code size have to fit 16 bits. -/
def finish (assembler : Assembler) (varCount : Nat) (argCount : UInt16) (captured : Array Bool)
    (isClosure : Bool) : Except Complaint FunctionDef :=
  if 65535 < assembler.maxDepth then .error .stackTooDeep
  else
    let entry := boxing captured.toList
    let (places, size) := layout (sumOver Instruction.size entry) assembler.pending
    if 65535 < size then .error .functionTooLarge
    else
      let offset := labelOffset assembler.labels places size
      let body := assembler.pending.toList.map (settle captured offset)
      .ok
        { varCount := UInt16.ofNat varCount
          argCount
          stackHigh := UInt16.ofNat assembler.maxDepth.toNat
          isClosure
          code := ((entry ++ body).flatMap Instruction.encode).toArray }

end Assembler

end PocketScript
