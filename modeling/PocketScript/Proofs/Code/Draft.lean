import PocketScript.Proofs.Code.Symbolic

/-!
# Code without bounds

The code of a function as it would be if numbers had no bound: operands, offsets and counts are
natural numbers, and every function can be completed (`Draft.Code.finish`). Whatever function is
completed from collected instructions reads back as the one completed from the same instructions here
(`Assembler.finish_widened`), so none of its numbers was cut off.
-/

namespace PocketScript

namespace Draft

/-- An instruction whose jump target is still a label. -/
structure Step where
  op : Opcode
  a : Nat
  b : Nat
  target : Option Label
  deriving DecidableEq, Repr

/-- The unfinished code of one function. -/
structure Code where
  steps : Array Step := #[]
  /-- For each label the number of instructions in front of its place, once it has one. -/
  labels : Array (Option Nat) := #[]
  /-- Operands on the stack behind the last instruction. -/
  depth : Int := 0
  maxDepth : Int := 0
  deriving DecidableEq, Repr

/-- A completed function. -/
structure Function where
  varCount : Nat := 0
  argCount : Nat := 0
  stackHigh : Nat := 0
  isClosure : Bool := false
  lines : List Line := []
  deriving DecidableEq, Repr

/-- The change in evaluation depth when the next instruction follows. -/
def effect (op : Opcode) (a b : Nat) : Int :=
  match op with
  | .makeClosure => 1 - (b : Int)
  | .makeArray => 1 - (a : Int)
  | .makeObject => 1 - 2 * (a : Int)
  | .call => -(a : Int)
  | op => op.stackEffect 0 0

theorem effect_toNat (op : Opcode) (a b : UInt16) :
    effect op a.toNat b.toNat = op.stackEffect a b := by
  cases op <;> rfl

/-- An instruction in its final form: an access to a captured slot goes to its cell, a label stands
for its place, and operands that the operation does not take are zero. -/
def Step.line (captured : Array Bool) (place : Label → Nat) (offset : Nat) (step : Step) : Line where
  offset
  op :=
    if captured[step.a]? = some true then
      match step.op with
      | .loadLocal => .loadCell
      | .storeLocal => .storeCell
      | op => op
    else step.op
  a :=
    if 1 ≤ step.op.arity then
      match step.target with
      | none => step.a
      | some label => place label
    else 0
  b := if 2 ≤ step.op.arity then step.b else 0

namespace Code

def push (code : Code) (step : Step) : Code :=
  let depth := code.depth + effect step.op step.a step.b
  { code with
    steps := code.steps.push step
    depth
    maxDepth := max code.maxDepth depth }

def newLabel (code : Code) : Label × Code :=
  (⟨code.labels.size⟩, { code with labels := code.labels.push none })

/-- Places a label in front of the next instruction. -/
def placeLabel (code : Code) (label : Label) : Code :=
  { code with labels := code.labels.setIfInBounds label.index (some code.steps.size) }

/-- The offset of an instruction, behind those that box slots and those in front of it. -/
def offset (captured : Array Bool) (code : Code) (index : Nat) : Nat :=
  3 * (Directives.capturedSlots captured).length +
    sumOver (·.op.size) (code.steps.toList.take index)

/-- The offset a label stands for: that of the instruction it was placed in front of, or the end. -/
def place (captured : Array Bool) (code : Code) (label : Label) : Nat :=
  match code.labels[label.index]? with
  | some (some index) => code.offset captured index
  | _ => code.offset captured code.steps.size

/-- Completes a function: a box for each captured slot in ascending order, and the instructions. -/
def finish (code : Code) (varCount argCount : Nat) (captured : Array Bool) (isClosure : Bool) :
    Function where
  varCount
  argCount
  stackHigh := code.maxDepth.toNat
  isClosure
  lines :=
    ((Directives.capturedSlots captured).mapIdx fun index slot => ⟨3 * index, .makeCell, slot, 0⟩) ++
      code.steps.toList.mapIdx fun index step =>
        step.line captured (code.place captured) (code.offset captured index)

end Code

end Draft

/-- An instruction whose operands have no bound. -/
def PendingInstruction.widened (instr : PendingInstruction) : Draft.Step :=
  ⟨instr.op, instr.a.toNat, instr.b.toNat, instr.target⟩

/-- The lines of a code sequence; none when it cannot be listed. -/
def Code.lines (code : Code) : List Line :=
  match code.disassemble with
  | .ok listing => listing.map Line.ofListed
  | .error _ => []

/-- A compiled function as it is read. -/
def FunctionDef.widened (function : FunctionDef) : Draft.Function where
  varCount := function.varCount.toNat
  argCount := function.argCount.toNat
  stackHigh := function.stackHigh.toNat
  isClosure := function.isClosure
  lines := function.code.lines

theorem FunctionDef.widened_default : widened default = {} := by
  have empty : Code.disassemble #[] = .ok [] :=
    Code.disassemble_flatMap fun _ member => absurd member List.not_mem_nil
  have lines : (default : FunctionDef).code.lines = [] := by
    change Code.lines #[] = []
    rw [Code.lines, empty]
    rfl
  rw [widened, lines]
  rfl

namespace Assembler

variable {assembler : Assembler} {varCount : Nat} {argCount : UInt16} {captured : Array Bool}
  {isClosure : Bool} {function : FunctionDef}

/-- Collected code whose operands have no bound. -/
def widened (assembler : Assembler) : Draft.Code where
  steps := assembler.pending.map PendingInstruction.widened
  labels := assembler.labels
  depth := assembler.depth
  maxDepth := assembler.maxDepth

theorem widened_empty : widened {} = {} := by
  simp only [widened, Array.map_empty]

theorem widened_push (assembler : Assembler) (instr : PendingInstruction) :
    (assembler.push instr).widened = assembler.widened.push instr.widened := by
  simp only [widened, push, Draft.Code.push, Array.map_push, PendingInstruction.widened,
    Draft.effect_toNat]

theorem widened_placeLabel (assembler : Assembler) (label : Label) :
    (assembler.placeLabel label).widened = assembler.widened.placeLabel label := by
  simp only [widened, placeLabel, Draft.Code.placeLabel, Array.size_map]

theorem offset_widened (captured : Array Bool) (assembler : Assembler) (index : Nat) :
    assembler.widened.offset captured index = assembler.offset captured index := by
  have sizes : ∀ instructions : List PendingInstruction,
      sumOver (·.op.size) (instructions.map PendingInstruction.widened) =
        sumOver (·.op.size) instructions := by
    intro instructions
    induction instructions with
    | nil => rfl
    | cons first rest ih => rw [List.map_cons, sumOver_cons, sumOver_cons, ih]; rfl
  rw [Draft.Code.offset, offset, entrySize_told, widened, Array.toList_map, ← List.map_take, sizes]

theorem place_widened (captured : Array Bool) (assembler : Assembler) (label : Label) :
    assembler.widened.place captured label = assembler.target captured label := by
  have count : assembler.widened.steps.size = assembler.pending.size := Array.size_map
  simp only [Draft.Code.place, target_eq_match, offset_widened, count]
  rfl

/-- A completed function has all its numbers as they would be without bounds. -/
theorem finish_widened
    (finished : assembler.finish varCount argCount captured isClosure = .ok function)
    (vars : varCount ≤ 65535) (few : captured.size ≤ 65535) :
    function.widened =
      assembler.widened.finish varCount argCount.toNat captured isClosure := by
  obtain ⟨shallow, small, rfl⟩ := finish_eq_ok finished
  obtain ⟨listing, listed, lines⟩ := disassemble_settled captured assembler few small
  unfold settled at listed
  have high : (UInt16.ofNat assembler.maxDepth.toNat).toNat = assembler.maxDepth.toNat := by
    rw [UInt16.toNat_ofNat']
    omega
  have count : (UInt16.ofNat varCount).toNat = varCount := by
    rw [UInt16.toNat_ofNat']
    omega
  have places : assembler.widened.place captured = assembler.target captured :=
    funext (place_widened captured assembler)
  have steps : assembler.widened.steps.toList =
      assembler.pending.toList.map PendingInstruction.widened := Array.toList_map
  simp only [FunctionDef.widened, Code.lines, listed, lines, high, count, Draft.Code.finish, places,
    offset_widened, steps]
  congr 2
  exact List.ext_getElem (by simp) fun index _ _ => by
    simp only [List.getElem_mapIdx, List.getElem_map]
    rfl

end Assembler

end PocketScript
