import PocketScript.Environment.Instructions
import PocketScript.Environment.Timers

/-!
# The machine

A machine runs a host program on an environment in steps: a request, the beginning or the end of a
call, or one instruction of a script. Whoever waits for a call is kept apart from the stacks, with
the sizes that the stacks had; when the call fails, everything beyond these sizes is dropped before
the caller learns of the fault. A run is given a number of steps, and has no result when they do not
suffice.
-/

namespace PocketScript

/-- Who waits for a call: the sizes of the frame stack and the value stack in front of it, and how
to go on with its outcome. -/
structure Caller (α : Type) where
  frames : Nat
  depth : Nat
  resume : Except Fault Value → Host α

/-- All who wait for a call, from the innermost one on to the host. A native function that waits was
itself called, its callee lying in a place of the stack. -/
inductive Callers (α : Type) where
  | host (caller : Caller α)
  | native (caller : Caller (Except Fault Value)) (place : Nat) (outer : Callers α)

/-- Who is at work. -/
inductive Control (α : Type) where
  | host (program : Host α)
  /-- A native function, whose callee lies in a place of the stack. -/
  | native (program : Host (Except Fault Value)) (place : Nat) (callers : Callers α)
  /-- The topmost frame, or nobody when the innermost call has ended. -/
  | script (callers : Callers α)

structure Machine (α : Type) where
  environment : Environment
  control : Control α

namespace Callers

variable {α : Type}

/-- The number of frames in front of the innermost call. -/
def frames : Callers α → Nat
  | host caller => caller.frames
  | native caller _ _ => caller.frames

/-- The number of values on the stack in front of the innermost call. -/
def depth : Callers α → Nat
  | host caller => caller.depth
  | native caller _ _ => caller.depth

/-- The innermost caller goes on. -/
def resume (callers : Callers α) (outcome : Except Fault Value) : Control α :=
  match callers with
  | host caller => .host (caller.resume outcome)
  | native caller place outer => .native (caller.resume outcome) place outer

end Callers

namespace Environment

/-- Answers a request. -/
def answer : (request : Request) → Update request.Answer
  | .retain value => retain value
  | .release value => release value
  | .allocString text => (allocString text).run
  | .textOf value => view (·.string? value)
  | .display value => view (·.display value)
  | .print text => printText text
  | .log line => logLine line
  | .ticks => view (·.ticks)
  | .startTimer wait callback repeats param => (startTimer wait callback repeats param).run
  | .stopTimer id => stopTimer id
  | .stopTimers => stopTimers
  | .hasTimer id => view (·.timers.contains id)
  | .takeDue now => takeDue now
  | .settle due => settle due
  | .compile source => view (·.compile source)
  | .load program => (load program).run

/-- Reads the next instruction of the topmost frame, which moves on behind it. -/
def fetch : Action (Activation × Instruction) := do
  let frame ← found (← view (·.frames.back?))
  let program ← found (← view fun environment => environment.units[frame.unit]?.map (·.program))
  let function ← found (program.function? frame.index)
  match function.code.decode frame.pc with
  | .error fault => throw fault
  | .ok instruction =>
      setPosition (frame.pc + instruction.size)
      let varCount := function.varCount.toNat
      let activation : Activation :=
        { unit := frame.unit, program, base := frame.base, varCount, closure := frame.closure }
      return (activation, instruction)

/-- Executes the next instruction. A call is left to be entered; its number of arguments is
given. -/
def executeNext : Action (Option Nat) := do
  let (activation, instruction) ← fetch
  execute activation instruction
  return if instruction.op = .call then some instruction.a.toNat else none

end Environment

namespace Machine

variable {α : Type}

/-- The innermost call fails. -/
def fail (environment : Environment) (callers : Callers α) (fault : Fault) : Machine α :=
  let (_, environment) := Environment.unwind callers.frames callers.depth environment
  ⟨environment, callers.resume (.error fault)⟩

/-- What follows an attempt to enter a call. -/
def afterEntering (outcome : Except Fault EnteredCall × Environment) (callers : Callers α) :
    Machine α :=
  match outcome with
  | (.ok .script, environment) => ⟨environment, .script callers⟩
  | (.ok (.native program place), environment) => ⟨environment, .native program place callers⟩
  | (.error fault, environment) => fail environment callers fault

/-- Who waits for a call that begins now. -/
def waiting {β : Type} (environment : Environment) (resume : Except Fault Value → Host β) :
    Caller β :=
  ⟨environment.frames.size, environment.stack.size, resume⟩

/-- A step of the host, which has not yet finished. -/
def stepHost (environment : Environment) (program : Host α) : Machine α :=
  match program with
  | .done result => ⟨environment, .host (.done result)⟩
  | .ask request next =>
      let (answer, environment) := Environment.answer request environment
      ⟨environment, .host (next answer)⟩
  | .call callee args next =>
      let callers := Callers.host (waiting environment next)
      afterEntering (Environment.enterHostCall callee args environment) callers

/-- A step of a native function. -/
def stepNative (environment : Environment) (program : Host (Except Fault Value)) (place : Nat)
    (callers : Callers α) : Machine α :=
  match program with
  | .done result =>
      match Environment.leaveNative place result environment with
      | (.ok (), environment) => ⟨environment, .script callers⟩
      | (.error fault, environment) => fail environment callers fault
  | .ask request next =>
      let (answer, environment) := Environment.answer request environment
      ⟨environment, .native (next answer) place callers⟩
  | .call callee args next =>
      let callers := Callers.native (waiting environment next) place callers
      afterEntering (Environment.enterHostCall callee args environment) callers

/-- A step of the topmost frame. When the frames of the innermost call are gone, its result is the
topmost value. -/
def stepScript (environment : Environment) (callers : Callers α) : Machine α :=
  if callers.frames < environment.frames.size then
    match Environment.executeNext environment with
    | (.ok none, environment) => ⟨environment, .script callers⟩
    | (.ok (some argCount), environment) =>
        afterEntering (Environment.enterCall argCount environment) callers
    | (.error fault, environment) => fail environment callers fault
  else
    match Environment.pop callers.depth environment with
    | (.ok value, environment) => ⟨environment, callers.resume (.ok value)⟩
    | (.error fault, environment) => fail environment callers fault

def step (machine : Machine α) : Machine α :=
  match machine with
  | ⟨environment, .host program⟩ => stepHost environment program
  | ⟨environment, .native program place callers⟩ => stepNative environment program place callers
  | ⟨environment, .script callers⟩ => stepScript environment callers

/-- What the host has come to, once it has finished. -/
def result? (machine : Machine α) : Option α :=
  match machine.control with
  | .host (.done result) => some result
  | _ => none

/-- Steps until the host has finished, at most so many times. -/
def forward : Nat → Machine α → Machine α
  | 0, machine => machine
  | steps + 1, machine =>
      match machine.result? with
      | some _ => machine
      | none => forward steps machine.step

/-- The result and the environment after at most so many steps. -/
def run (steps : Nat) (machine : Machine α) : Option (α × Environment) :=
  let machine := machine.forward steps
  machine.result?.map fun result => (result, machine.environment)

end Machine

/-- Runs a host program, at most so many steps. -/
def Environment.run {α : Type} (environment : Environment) (steps : Nat) (program : Host α) :
    Option (α × Environment) :=
  Machine.run steps ⟨environment, .host program⟩

end PocketScript
