import PocketScript.Environment.Basic

/-!
# The value stack

Every value on the stack is a reference. The stack never grows beyond its configured size, and a
function never takes operands from below its own: each access names the floor it stays above.
-/

namespace PocketScript

namespace Environment

/-- Puts a value on the stack, which takes over the reference; a full stack gives it up. -/
def push (value : Value) : Action Unit := do
  let depth ← view (·.stack.size)
  let capacity ← view (·.config.stackSize)
  if depth < capacity then
    modify fun environment => { environment with stack := environment.stack.push value }
  else
    release value
    throw .stackOverflow

/-- Puts a value on the stack as a new reference. -/
def pushShared (value : Value) : Action Unit := do
  retain value
  push value

/-- Demands that there are so many operands above the floor. -/
def requireOperands (floor count : Nat) : Action Unit := do
  let depth ← view (·.stack.size)
  if depth < floor + count then throw .stackUnderflow

/-- A value of the stack. -/
def slot (place : Nat) : Action Value := do
  match ← view (·.stack[place]?) with
  | some value => return value
  | none => throw .invalidOperand

/-- The operand so many places below the topmost one. -/
def peek (floor below : Nat) : Action Value := do
  requireOperands floor (below + 1)
  let depth ← view (·.stack.size)
  slot (depth - 1 - below)

/-- Takes the topmost operand, with its reference. -/
def pop (floor : Nat) : Action Value := do
  let value ← peek floor 0
  modify fun environment => { environment with stack := environment.stack.pop }
  return value

/-- Puts another value in a place of the stack, and gives the one from before. -/
def replaceSlot (place : Nat) (value : Value) : Action Value := do
  let old ← slot place
  modify fun environment =>
    { environment with stack := environment.stack.setIfInBounds place value }
  return old

/-- Takes everything from a place on, the lowest value first. -/
def takeFrom (place : Nat) : Update (List Value) := do
  let values ← view fun environment => (environment.stack.extract place).toList
  modify fun environment => { environment with stack := environment.stack.shrink place }
  return values

/-- Gives up everything from a place on. -/
def releaseFrom (place : Nat) : Update Unit := do
  releaseAll (← takeFrom place)

/-- Takes the topmost operands, the lowest one first. -/
def popMany (floor count : Nat) : Action (List Value) := do
  requireOperands floor count
  let depth ← view (·.stack.size)
  takeFrom (depth - count)

end Environment

end PocketScript
