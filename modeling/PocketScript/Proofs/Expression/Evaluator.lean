import PocketScript.Machine
import PocketScript.Proofs.Expression.Term

/-!
# The meaning of terms

A term is evaluated from left to right by recursion on the term, without code and without operands
on the stack. What a name denotes is given by a `Scene`. A global variable is looked up by its name
each time, and what stands for itself is a value at once. Every value in flight is a reference, which
is given up when an operation has used it.
-/

namespace PocketScript

open Environment

/-- The running function, as far as the variables of an expression in it are concerned. -/
structure Scene extends Activation where
  place : String → Place
  /-- The slots that inner functions share. Their variables are in cells. -/
  captured : Array Bool

/-- The value that decides a logical operator, so that the right operand does not matter. -/
def LogicalOp.decides : LogicalOp → Bool
  | and => false
  | or => true

def Literal.value : Literal → Value
  | true_ => .boolean true
  | false_ => .boolean false
  | undefined => .undefined
  | nan => .nan

namespace Scene

variable (scene : Scene)

def isCaptured (slot : UInt16) : Bool := scene.captured.getD slot.toNat false

/-- A string constant of the program. -/
def constant (text : String) : Value :=
  .constant ⟨scene.unit, UInt16.ofNat ((scene.program.strings.findIdx? (· == text)).getD 0)⟩

def readCell (cell : Handle) : Action Value := do
  found (← view (·.heap.cellGet? cell))

def writeCell (cell : Handle) (value : Value) : Action Unit := do
  retain value
  onHeap (·.cellSet cell value)

/-- The value of a variable. -/
def variableValue (name : String) : Action Value := do
  match scene.place name with
  | .slot index =>
      if scene.isCaptured index then readCell (← localCell scene.toActivation index)
      else slot (← scene.localPlace index)
  | .capture index => readCell (← upvalueCell scene.toActivation index)
  | .global =>
      match ← view (·.global? name) with
      | some value => return value
      | none => throw (.undefinedVariable name)

/-- A new reference to the value of a variable. -/
def readVariable (name : String) : Action Value := do
  let value ← scene.variableValue name
  retain value
  return value

/-- Makes a value that of a variable, which counts a reference of its own. -/
def writeVariable (name : String) (value : Value) : Action Unit := do
  match scene.place name with
  | .slot index =>
      if scene.isCaptured index then writeCell (← localCell scene.toActivation index) value
      else
        let place ← scene.localPlace index
        retain value
        release (← replaceSlot place value)
  | .capture index => writeCell (← upvalueCell scene.toActivation index) value
  | .global => do
      retain value
      defineGlobal name value

/-- Combines two values, which are used up. -/
def combine (op : BinaryOp) (left right : Value) : Action Value :=
  releasingAfter [left, right] (applyBinary op left right)

/-- Reads an element; the container and the key are used up. -/
def readElementOf (container key : Value) : Action Value :=
  releasingAfter [container, key] (getElement container key)

/-- Writes an element; the container and the key are used up, and so is the value on a failure. -/
def writeElementOf (container key value : Value) : Action Unit :=
  tryCatch (releasingAfter [container, key] (setElement container key value)) fun fault => do
    release value
    throw fault

/-- Whether a value that is used up counts as true. -/
def test (value : Value) : Action Bool := do
  let truthy ← view (·.isTruthy value)
  release value
  return truthy

end Scene

namespace Term

open Scene

mutual

/-- The value of a term, or the fault that ends its evaluation. -/
def eval (scene : Scene) : Term → Action Value
  | .literal value => return value.value
  | .number value => return .ofNumber value
  | .string value => return scene.constant value
  | .variable name => scene.readVariable name
  | .unary op operand => do
      let value ← eval scene operand
      let result ← view (·.applyUnary op value)
      release value
      return result
  | .binary op left right => do
      let left ← eval scene left
      let right ← eval scene right
      combine op left right
  | .logical op left right => do
      let left ← eval scene left
      if (← view (·.isTruthy left)) = op.decides then return left
      else
        release left
        eval scene right
  | .conditional condition whenTrue whenFalse => do
      if ← test (← eval scene condition) then eval scene whenTrue else eval scene whenFalse
  | .assign name none value => do
      let value ← eval scene value
      scene.writeVariable name value
      return value
  | .assign name (some op) value => do
      let old ← scene.readVariable name
      let value ← combine op old (← eval scene value)
      scene.writeVariable name value
      return value
  | .assignElement container key none value => do
      let container ← eval scene container
      let key ← eval scene key
      let value ← eval scene value
      writeElementOf container key value
      return value
  | .assignElement container key (some op) value => do
      let container ← eval scene container
      let key ← eval scene key
      retain container
      retain key
      let old ← readElementOf container key
      let value ← combine op old (← eval scene value)
      writeElementOf container key value
      return value
  | .element container key => do
      let container ← eval scene container
      let key ← eval scene key
      readElementOf container key
  | .array items => do
      let items ← evalAll scene items
      onHeap (·.allocArray items.toArray)
  | .object properties => do
      let properties ← evalProperties scene properties
      onHeap (·.allocObject properties)

/-- The values of terms, one after the other. -/
def evalAll (scene : Scene) : List Term → Action (List Value)
  | [] => return []
  | first :: rest => do
      let value ← eval scene first
      let values ← evalAll scene rest
      return value :: values

/-- Properties with their values, one after the other. -/
def evalProperties (scene : Scene) : List Property → Action (List (String × Value))
  | [] => return []
  | .mk key value :: rest => do
      let value ← eval scene value
      let values ← evalProperties scene rest
      return (key, value) :: values

end

end Term

end PocketScript
