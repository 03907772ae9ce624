import PocketScript.Environment.Stack

/-!
# Calls

A call finds its callee on the stack below the arguments. A function of a program gets a frame: the
arguments it does not expect are dropped, and the ones it lacks are undefined like its other
variables. It is entered only when the stack has room for all it may ever need. A native function
reads its arguments from the stack, where they stay until it has finished.
-/

namespace PocketScript

/-- What a call leads to. -/
inductive EnteredCall where
  /-- A frame, whose function is to run. -/
  | script
  /-- A native function, whose callee lies in a place of the stack. -/
  | native (program : Host (Except Fault Value)) (place : Nat)

namespace Environment

/-- A function of a loaded unit. -/
def function? (environment : Environment) (target : FunctionRef) : Option FunctionDef := do
  let unit ← environment.units[target.unit]?
  unit.program.function? target.index

/-- Drops the arguments beyond `count`, the last one first, and adds undefined values until all
variables of a frame have one. -/
def layOutVariables (base argCount varCount : Nat) : Update Unit := do
  let surplus ← takeFrom (base + argCount)
  releaseAll surplus.reverse
  modify fun environment =>
    let missing := base + varCount - environment.stack.size
    { environment with stack := environment.stack ++ Array.replicate missing .undefined }

/-- Gives a function a frame; its callee lies in a place of the stack. -/
def enterFunction (target : FunctionRef) (closure : Option Handle) (place : Nat) :
    Action Unit := do
  let active ← view (·.frames.size)
  let maxDepth ← view (·.config.maxCallDepth)
  unless active < maxDepth do throw .callDepthExceeded
  let function ← match ← view (·.function? target) with
    | some function => pure function
    | none => throw .invalidOperand
  let argCount := function.argCount.toNat
  let varCount := function.varCount.toNat
  if varCount < argCount then throw .invalidOperand
  let base := place + 1
  let capacity ← view (·.config.stackSize)
  if capacity < base + varCount + function.stackHigh.toNat then throw .stackOverflow
  layOutVariables base argCount varCount
  let frame : Frame := { unit := target.unit, index := target.index, pc := 0, base, closure }
  modify fun environment => { environment with frames := environment.frames.push frame }

/-- Calls the value below the topmost `argCount` ones. -/
def enterCall (argCount : Nat) : Action EnteredCall := do
  let depth ← view (·.stack.size)
  if depth < argCount + 1 then throw .stackUnderflow
  let place := depth - (argCount + 1)
  match ← slot place with
  | .function target =>
      enterFunction target none place
      return .script
  | .closure block =>
      match ← view (·.heap.closureTarget? block) with
      | none => throw .typeMismatch
      | some target =>
          enterFunction target (some block) place
          return .script
  | .native id =>
      match ← view (·.natives[id]?) with
      | none => throw .notCallable
      | some native =>
          let args ← view fun environment => (environment.stack.extract (place + 1)).toList
          return .native (native.run args).run place
  | _ => throw .notCallable

/-- Puts a function and its arguments on the stack and calls it. -/
def enterHostCall (callee : Value) (args : List Value) : Action EnteredCall := do
  unless callee.isFunction do throw .notCallable
  let depth ← view (·.stack.size)
  let capacity ← view (·.config.stackSize)
  if capacity < depth + (args.length + 1) then throw .stackOverflow
  pushShared callee
  args.forM pushShared
  enterCall args.length

/-- Replaces the callee, and all that lies above it, by the result of a native function. -/
def leaveNative (place : Nat) (result : Except Fault Value) : Action Unit := do
  releaseFrom place
  match result with
  | .ok value => push value
  | .error fault => throw fault

/-- Ends the topmost frame: its callee, and all that lies above it, gives way to the result. -/
def leaveFunction (base : Nat) (result : Value) : Action Unit := do
  releaseFrom (base - 1)
  modify fun environment => { environment with frames := environment.frames.pop }
  push result

/-- Drops the frames and the values beyond those that were there before a call. -/
def unwind (frames depth : Nat) : Update Unit := do
  modify fun environment => { environment with frames := environment.frames.shrink frames }
  releaseFrom depth

end Environment

end PocketScript
