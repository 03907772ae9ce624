import PocketScript.Failure
import PocketScript.Host
import PocketScript.Path

/-!
# Running programs and timers

The host programs that run a program, a program text or an image, and those that run the timers that
are due. Whatever a program leaves as its result is owned by whoever ran it.
-/

namespace PocketScript

namespace Host

/-- A failure in the log. -/
def describeFault (fault : Fault) : String := s!"{fault.code}: {fault.message}"

/-- Runs the top level of a loaded program. -/
def runUnit (unit : Nat) : ExceptT Fault Host Value := do
  Host.log s!"executing unit {unit.repr}"
  try
    let value ← run (.function ⟨unit, 0⟩) []
    Host.log s!"unit {unit.repr} finished"
    return value
  catch fault =>
    Host.log s!"unit {unit.repr} failed with {describeFault fault}"
    throw fault

/-- Loads a program and runs its top level. -/
def executeProgram (program : Program) : ExceptT Fault Host Value := do
  runUnit (← load program)

/-- Compiles and runs a program text. -/
def executeSource (source : Source) : ExceptT Failure Host Value := do
  let program ← ExceptT.adapt Failure.compile do
    try
      compile source
    catch diagnostic =>
      Host.log s!"compilation of '{source.name}' failed: {diagnostic.error.message}"
      throw diagnostic
  ExceptT.adapt Failure.fault (executeProgram program)

/-- The name of program texts that come from no file. -/
def textName : String := "string"

/-- Compiles and runs a program text that comes from no file. -/
def executeString (text : String) : ExceptT Failure Host Value :=
  executeSource { name := textName, bytes := Utf8.encode text }

/-- Runs the program of an image. -/
def executeImage (bytes : List UInt8) : ExceptT Failure Host Value := do
  match Image.read bytes with
  | .ok image => ExceptT.adapt Failure.fault (executeProgram image.program)
  | .error reason =>
      Host.log s!"rejected image of {bytes.length.repr} bytes: {reason.message}"
      throw (.image reason)

/-- Runs the content of a file: a program text, or an image when the path says so. -/
def executeFile (path : String) (bytes : List UInt8) : ExceptT Failure Host Value :=
  if Path.isImage path then executeImage bytes else executeSource { name := path, bytes }

/-! ## Timers -/

/-- The timer still is to run: it has ended and was taken as a whole, or nobody has stopped it. -/
def isActive (due : DueTimer) : Host Bool :=
  if due.block.isSome then pure true else hasTimer due.id

/-- Runs the function of a due timer. -/
def fire (due : DueTimer) (now : UInt32) : ExceptT Fault Host Unit := do
  Host.log s!"timer {due.id.toNat.repr} fired at {now.toNat.repr}"
  try
    release (← run due.callback [due.param])
  catch fault =>
    Host.log s!"timer {due.id.toNat.repr} failed with {describeFault fault}"
    throw fault

/-- Runs the functions of due timers, `count` having been run before. After a fault the others are
only given up. -/
def fireAll (now : UInt32) (count : Nat) : List DueTimer → Host (Except Fault Nat)
  | [] => return .ok count
  | due :: rest => do
      let active ← isActive due
      let outcome ← if active then (fire due now).run else pure (.ok ())
      settle due
      match outcome with
      | .ok () => fireAll now (if active then count + 1 else count) rest
      | .error fault =>
          rest.forM settle
          return .error fault

/-- Runs the functions of all timers that are due at a tick, and counts them. -/
def poll (now : UInt32) : ExceptT Fault Host Nat := do
  ExceptT.mk (fireAll now 0 (← takeDue now))

/-- Polls at the present tick. -/
def pollNow : ExceptT Fault Host Nat := do
  poll (← ticks)

end Host

end PocketScript
