import PocketScript.Environment.Call
import PocketScript.Environment.Operators

/-!
# Instructions

What each instruction does. Every value that an instruction takes from the stack is released again,
also when the instruction fails, unless it has been stored.
-/

namespace PocketScript

/-- What the instructions of a running function refer to. -/
structure Activation where
  unit : Nat
  program : Program
  base : Nat
  varCount : Nat
  closure : Option Handle

namespace Activation

/-- The place of the function's lowest operand. -/
def floor (activation : Activation) : Nat := activation.base + activation.varCount

/-- The place of a variable. -/
def localPlace (activation : Activation) (index : UInt16) : Environment.Action Nat :=
  if index.toNat < activation.varCount then pure (activation.base + index.toNat)
  else throw .invalidOperand

end Activation

namespace Environment

/-- The next instruction of the running function starts at a position. -/
def setPosition (pc : Nat) : Update Unit :=
  modify fun environment =>
    { environment with
      frames := environment.frames.modify (environment.frames.size - 1) ({ · with pc }) }

/-- The value, or a fault when the operand that selects it refers to nothing. -/
def found {α : Type} : Option α → Action α
  | some value => pure value
  | none => throw .invalidOperand

/-! ## Variables -/

/-- The cell in a variable. -/
def localCell (activation : Activation) (index : UInt16) : Action Handle := do
  match ← slot (← activation.localPlace index) with
  | .cell block => return block
  | _ => throw .invalidOperand

/-- A cell of the running closure. -/
def upvalueCell (activation : Activation) (index : UInt16) : Action Handle := do
  let closure ← found activation.closure
  match ← view (·.heap.closureCell? closure index.toNat) with
  | some (.cell block) => return block
  | _ => throw .invalidOperand

/-- Pushes the value in a cell. -/
def pushCellValue (cell : Handle) : Action Unit := do
  pushShared (← found (← view (·.heap.cellGet? cell)))

/-- Stores the topmost operand in a cell. -/
def storeInCell (activation : Activation) (cell : Handle) : Action Unit := do
  let value ← peek activation.floor 0
  retain value
  onHeap (·.cellSet cell value)

/-- Stores the topmost operand in a variable. -/
def storeLocal (activation : Activation) (index : UInt16) : Action Unit := do
  let place ← activation.localPlace index
  let value ← peek activation.floor 0
  retain value
  release (← replaceSlot place value)

/-- Moves the value of a variable into a cell of its own. -/
def makeCell (activation : Activation) (index : UInt16) : Action Unit := do
  let place ← activation.localPlace index
  let value ← replaceSlot place .undefined
  let cell ← onHeap (·.allocCell value)
  discard (replaceSlot place cell)

/-! ## Globals -/

/-- The slot that a unit has noted for a string constant. -/
def notedSlot? (environment : Environment) (unit : Nat) (name : UInt16) : Option Nat := do
  let loaded ← environment.units[unit]?
  (← loaded.slots[name.toNat]?)

/-- Notes the slot of the global that a string constant of a unit names. -/
def noteSlot (unit : Nat) (name : UInt16) (slot : Nat) : Update Unit :=
  modify fun environment =>
    { environment with
      units := environment.units.modify unit fun loaded =>
        { loaded with slots := loaded.slots.setIfInBounds name.toNat (some slot) } }

/-- The slot of the global that a string constant names, when there is such a global. -/
def namedSlot (activation : Activation) (name : UInt16) : Action (Option Nat) := do
  match ← view (·.notedSlot? activation.unit name) with
  | some slot => return some slot
  | none =>
      let text ← found (activation.program.string? name)
      match ← view (·.globalSlot? text) with
      | none => return none
      | some slot =>
          noteSlot activation.unit name slot
          return some slot

/-- The string constant of a name. -/
def nameText (activation : Activation) (name : UInt16) : String :=
  (activation.program.string? name).getD ""

/-- Stores a value, whose reference is handed over, in the global that a string constant names. -/
def assignGlobal (activation : Activation) (name : UInt16) (value : Value) : Action Unit := do
  let slot ← tryCatch (namedSlot activation name) fun fault => do
    release value
    throw fault
  match slot with
  | some slot => setGlobal slot value
  | none => defineGlobal (nameText activation name) value

def loadGlobal (activation : Activation) (name : UInt16) : Action Unit := do
  match ← namedSlot activation name with
  | none => throw (.undefinedVariable (nameText activation name))
  | some slot =>
      let binding ← found (← view (·.globals[slot]?))
      pushShared binding.2

def storeGlobal (activation : Activation) (name : UInt16) : Action Unit := do
  let value ← peek activation.floor 0
  retain value
  assignGlobal activation name value

def defineNamed (activation : Activation) (name : UInt16) : Action Unit := do
  assignGlobal activation name (← pop activation.floor)

def declareGlobal (activation : Activation) (name : UInt16) : Action Unit := do
  if (← namedSlot activation name).isNone then assignGlobal activation name .undefined

/-! ## Constants and literals -/

def pushNumber (activation : Activation) (index : UInt16) : Action Unit := do
  push (Value.ofNumber (← found (activation.program.number? index)))

def pushString (activation : Activation) (index : UInt16) : Action Unit := do
  discard (found (activation.program.string? index))
  push (.constant ⟨activation.unit, index⟩)

def pushFunction (activation : Activation) (index : UInt16) : Action Unit := do
  discard (found (activation.program.function? index))
  push (.function ⟨activation.unit, index⟩)

def makeClosure (activation : Activation) (index count : UInt16) : Action Unit := do
  discard (found (activation.program.function? index))
  let cells ← popMany activation.floor count.toNat
  unless cells.all (·.isCell) do
    releaseAll cells
    throw .invalidOperand
  push (← onHeap (·.allocClosure ⟨activation.unit, index⟩ cells.toArray))

def makeArray (activation : Activation) (count : UInt16) : Action Unit := do
  let items ← popMany activation.floor count.toNat
  push (← onHeap (·.allocArray items.toArray))

/-- The properties of an object whose keys and values alternate, while all keys are strings. The
keys are released, and so is every value that finds no key. -/
def takeProperties (properties : Array (String × Value)) :
    List Value → Update (Option (Array (String × Value)))
  | key :: value :: rest => do
      match ← view (·.string? key) with
      | some name =>
          release key
          takeProperties (properties.push (name, value)) rest
      | none =>
          releaseUnkeyed (key :: value :: rest)
          releaseAll (properties.toList.map (·.2))
          return none
  | _ => return some properties
where
  /-- Releases keys and values, of each pair the value first. -/
  releaseUnkeyed : List Value → Update Unit
    | key :: value :: rest => do
        release value
        release key
        releaseUnkeyed rest
    | _ => pure ()

def makeObject (activation : Activation) (count : UInt16) : Action Unit := do
  let values ← popMany activation.floor (2 * count.toNat)
  match ← takeProperties #[] values with
  | some properties => push (← onHeap (·.allocObject properties.toList))
  | none => throw .typeMismatch

/-! ## Operators, elements, jumps -/

def unary (activation : Activation) (op : UnaryOp) : Action Unit := do
  let value ← pop activation.floor
  let result ← view (·.applyUnary op value)
  release value
  push result

/-- Releases values in any case before an action's outcome takes effect. -/
def releasingAfter {α : Type} (values : List Value) (action : Action α) : Action α := do
  let result ← tryCatch action fun fault => do
    releaseAll values
    throw fault
  releaseAll values
  return result

def binary (activation : Activation) (op : BinaryOp) : Action Unit := do
  let right ← pop activation.floor
  let left ← pop activation.floor
  push (← releasingAfter [left, right] (applyBinary op left right))

def pushElement (activation : Activation) : Action Unit := do
  let key ← pop activation.floor
  let container ← pop activation.floor
  push (← releasingAfter [container, key] (getElement container key))

/-- Stores the topmost operand in an element, and leaves it as the result. -/
def storeElement (activation : Activation) : Action Unit := do
  let value ← pop activation.floor
  let key ← pop activation.floor
  let container ← pop activation.floor
  tryCatch (releasingAfter [container, key] (setElement container key value)) fun fault => do
    release value
    throw fault
  push value

/-- Jumps when the topmost operand, which is dropped, is true or false as wanted. -/
def jumpIf (activation : Activation) (wanted : Bool) (target : Nat) : Action Unit := do
  let value ← pop activation.floor
  let truthy ← view (·.isTruthy value)
  release value
  if truthy = wanted then setPosition target

/-- Jumps when the topmost operand is true or false as wanted, and drops it otherwise. -/
def jumpOrPop (activation : Activation) (wanted : Bool) (target : Nat) : Action Unit := do
  let value ← peek activation.floor 0
  let truthy ← view (·.isTruthy value)
  if truthy = wanted then setPosition target
  else release (← pop activation.floor)

/-! ## All instructions -/

/-- Executes an instruction. Of a call it only checks that the callee and the arguments are operands
of the running function. -/
def execute (activation : Activation) (instruction : Instruction) : Action Unit := do
  let floor := activation.floor
  let a := instruction.a
  match instruction.op with
  | .nop => pure ()
  | .pushUndefined => push .undefined
  | .pushNaN => push .nan
  | .pushTrue => push (.boolean true)
  | .pushFalse => push (.boolean false)
  | .pushZero => push (.number Number.zero)
  | .pushInt => push (Value.ofNat a.toNat)
  | .pushNumber => pushNumber activation a
  | .pushString => pushString activation a
  | .pushFunction => pushFunction activation a
  | .makeClosure => makeClosure activation a instruction.b
  | .makeArray => makeArray activation a
  | .makeObject => makeObject activation a
  | .pop => release (← pop floor)
  | .dup => pushShared (← peek floor 0)
  | .dup2 =>
      let first ← peek floor 1
      let second ← peek floor 0
      pushShared first
      pushShared second
  | .loadLocal => pushShared (← slot (← activation.localPlace a))
  | .storeLocal => storeLocal activation a
  | .loadCell => pushCellValue (← localCell activation a)
  | .storeCell => storeInCell activation (← localCell activation a)
  | .makeCell => makeCell activation a
  | .pushCell => pushShared (.cell (← localCell activation a))
  | .loadUpvalue => pushCellValue (← upvalueCell activation a)
  | .storeUpvalue => storeInCell activation (← upvalueCell activation a)
  | .pushUpvalue => pushShared (.cell (← upvalueCell activation a))
  | .loadGlobal => loadGlobal activation a
  | .storeGlobal => storeGlobal activation a
  | .defineGlobal => defineNamed activation a
  | .declareGlobal => declareGlobal activation a
  | .getElem => pushElement activation
  | .setElem => storeElement activation
  | .neg => unary activation .neg
  | .not => unary activation .not
  | .bitNot => unary activation .bitNot
  | .add => binary activation .add
  | .sub => binary activation .sub
  | .mul => binary activation .mul
  | .div => binary activation .div
  | .mod => binary activation .mod
  | .bitAnd => binary activation .bitAnd
  | .bitOr => binary activation .bitOr
  | .bitXor => binary activation .bitXor
  | .shl => binary activation .shl
  | .shr => binary activation .shr
  | .eq => binary activation .eq
  | .ne => binary activation .ne
  | .lt => binary activation .lt
  | .le => binary activation .le
  | .gt => binary activation .gt
  | .ge => binary activation .ge
  | .jump => setPosition a.toNat
  | .jumpIfFalse => jumpIf activation false a.toNat
  | .jumpIfTrue => jumpIf activation true a.toNat
  | .jumpIfFalseOrPop => jumpOrPop activation false a.toNat
  | .jumpIfTrueOrPop => jumpOrPop activation true a.toNat
  | .call => requireOperands floor (a.toNat + 1)
  | .ret => leaveFunction activation.base (← pop floor)
  | .retUndefined => leaveFunction activation.base .undefined

end Environment

end PocketScript
