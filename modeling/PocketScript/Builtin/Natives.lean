import PocketScript.Builtin
import PocketScript.Environment.Basic

/-!
# What the builtin functions do

`print` shows its arguments on a line, `systicks` tells the time. A timer is started with a
function, a wait and a parameter, and stopped by its number; without a number, all timers are
stopped.
-/

namespace PocketScript

namespace Builtin

/-- Shows the arguments with blanks between them. As printing never fails, nor does this. -/
def printArgs (args : List Value) : ExceptT Fault Host Value := do
  let shown ← args.mapM fun arg => (Host.display arg : Host String)
  Host.print (" ".intercalate shown ++ "\n")
  return .undefined

/-- The wait that an argument stands for. A wait that is not positive is zero. -/
def waitOf : Option Value → Except Fault UInt32
  | none => .ok 0
  | some (.number wait) => .ok wait.toUInt32Clamped
  | some _ => .error .typeMismatch

/-- Starts a timer, and gives its number. -/
def startTimer (repeats : Bool) (args : List Value) : ExceptT Fault Host Value := do
  let callback := (args[0]?).getD .undefined
  unless callback.isFunction do throw .typeMismatch
  let wait ← waitOf args[1]?
  let id ← Host.startTimer wait callback repeats ((args[2]?).getD .undefined)
  return Value.ofNat id.toNat

/-- The number of a timer that a value stands for, its fraction being dropped. -/
def timerId? : Value → Option UInt32
  | .number id =>
      let isTooLow := id.order? Number.zero = some .lt
      let isTooHigh := id.order? (Number.ofNat (Nat.pow 2 32 - 1)) = some .gt
      if id.isNaN ∨ isTooLow ∨ isTooHigh then none else some id.toUInt32Clamped
  | _ => none

/-- Stops a timer or all of them, and tells whether there was one to stop. -/
def stopTimer (args : List Value) : ExceptT Fault Host Value := do
  match args with
  | [] => return .boolean (0 < (← Host.stopTimers))
  | id :: _ =>
      match timerId? id with
      | some id => return .boolean (← Host.stopTimer id)
      | none => return .boolean false

/-- What a builtin function does. -/
def native : Builtin → NativeFunction
  | print => printArgs
  | systicks => fun _ => do return Value.ofNat (← Host.ticks).toNat
  | setTimeout => startTimer false
  | setInterval => startTimer true
  | clearTimeout | clearInterval => stopTimer

end Builtin

namespace Environment

/-- Makes the builtin functions known. -/
def registerBuiltins : Update Unit :=
  Builtin.all.forM fun builtin => discard (register builtin.name builtin.native)

/-- An environment with the builtin functions. -/
def withBuiltins (config : Config) : Environment := (registerBuiltins (new config)).2

end Environment

end PocketScript
