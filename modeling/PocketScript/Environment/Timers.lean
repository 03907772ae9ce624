import PocketScript.Environment.Basic

/-!
# The timers of an environment

A started timer owns a reference to its function, one to its parameter, and a block of the heap.
What is taken of a due timer owns references too: those of the timer itself when it has ended, and
new ones when it goes on. Settling gives them up.
-/

namespace PocketScript

namespace Environment

/-- Gives up what a timer owned. -/
def releaseTimer (timer : Timer) : Update Unit := do
  release timer.callback
  release timer.param
  releaseBlock timer.block

/-- Starts a timer at the present tick. -/
def startTimer (wait : UInt32) (callback : Value) (repeats : Bool) (param : Value) :
    Action UInt32 := do
  unless callback.isFunction do throw .notCallable
  let block ← notingFullHeap (onHeap (·.allocTimer))
  retain callback
  retain param
  let origin ← view (·.ticks)
  let timers ← view (·.timers)
  let (id, timers) := timers.start { id := 0, wait, origin, repeats, callback, param, block }
  modify fun environment => { environment with timers }
  let wait := wait.toNat.repr
  let start := origin.toNat.repr
  logLine s!"registered timer {id.toNat.repr} (wait {wait}, repeat {repeats}) at {start}"
  pure id

/-- Stops a timer, and tells whether there was one of this number. -/
def stopTimer (id : UInt32) : Update Bool := do
  let timers ← view (·.timers)
  let (timer, timers) := timers.stop id
  modify fun environment => { environment with timers }
  match timer with
  | none => pure false
  | some timer =>
      releaseTimer timer
      logLine s!"unregistered timer {id.toNat.repr}"
      pure true

/-- Stops all timers, and tells how many there were. -/
def stopTimers : Update Nat := do
  let timers ← view (·.timers)
  let (stopped, timers) := timers.stopAll
  modify fun environment => { environment with timers }
  stopped.forM releaseTimer
  unless stopped.isEmpty do logLine s!"cleared {stopped.length.repr} timers"
  pure stopped.length

/-- Counts the references of a due timer that goes on. -/
def retainDue (due : DueTimer) : Update Unit := do
  if due.block.isNone then
    retain due.callback
    retain due.param

/-- Takes the timers that are due at a tick. -/
def takeDue (now : UInt32) : Update (List DueTimer) := do
  let timers ← view (·.timers)
  let (due, timers) := timers.takeDue now
  modify fun environment => { environment with timers }
  due.forM retainDue
  pure due

/-- Gives up what was taken of a due timer. -/
def settle (due : DueTimer) : Update Unit := do
  release due.callback
  release due.param
  due.block.toList.forM releaseBlock

/-- Moves the clock on, and tells the new tick. -/
def advance (ticks : UInt32) : Update UInt32 := do
  modify fun environment => { environment with ticks := environment.ticks + ticks }
  view (·.ticks)

end Environment

end PocketScript
