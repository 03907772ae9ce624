import Mathlib.Logic.Function.Basic
import PocketScript.Proofs.Compile.Accesses
import PocketScript.Proofs.Machine.Calls

/-!
# A reference semantics of variables

Each activation of a function owns a variable for each of the function's names. What a name denotes is a
matter of the text: the variable of the nearest function around that has one of the name, and the global
when there is none (`Location.of?`). A chronicle of a run knows the activations that there have been, and
for each of them, and for each closure, those around it, but nothing of slots, cells or captures. It is
kept up while a machine runs (`Chronicle.next`): when a function is entered, its variables come into
being, the parameters with the arguments; a closure keeps the activations around where it was made; and a
variable keeps what was last stored in it, no matter from where.
-/

namespace PocketScript

/-- A variable of one activation of a function. -/
structure LocalVariable where
  activation : Nat
  name : String
  deriving DecidableEq, Repr

/-- What a name may denote. -/
inductive Location where
  | variable (owner : LocalVariable)
  | global (name : String)
  deriving DecidableEq, Repr

/-- What a name denotes in front of functions with some variables and activations of these, the
innermost one first. -/
def Location.of? (name : String) : List (List String) → List Nat → Option Location
  | [], _ => some (.global name)
  | own :: around, chain =>
      if name ∈ own then chain.head?.map fun activation => .variable ⟨activation, name⟩
      else of? name around chain.tail

/-- What is known of variables. -/
structure Chronicle where
  /-- The number of activations that there have been. -/
  begun : Nat := 0
  /-- For each frame its activation, followed by those around it. -/
  chains : List (List Nat) := []
  /-- For each closure the activations around it. -/
  around : Handle → List Nat := fun _ => []
  value : LocalVariable → Value := fun _ => .undefined

namespace Chronicle

/-- A function is entered. Its parameters start with the arguments, its other variables undefined. A
function that is no closure uses no variables of functions around. -/
def enter (chronicle : Chronicle) (closure : Option Handle) (params : List String)
    (args : List Value) : Chronicle :=
  { chronicle with
    begun := chronicle.begun + 1
    chains := chronicle.chains ++ [chronicle.begun :: closure.elim [] chronicle.around]
    value := fun owner =>
      if owner.activation = chronicle.begun then ((params.zip args).lookup owner.name).getD .undefined
      else chronicle.value owner }

/-- All frames but the lowest ones are left. Their variables live on. -/
def leave (chronicle : Chronicle) (count : Nat) : Chronicle :=
  { chronicle with chains := chronicle.chains.take count }

/-- The activations in front of the topmost frame. -/
def current (chronicle : Chronicle) : List Nat := chronicle.chains.getLastD []

/-- A closure is made by the topmost frame. -/
def create (chronicle : Chronicle) (closure : Handle) : Chronicle :=
  { chronicle with around := Function.update chronicle.around closure chronicle.current }

/-- A value is stored. Globals are not a matter of the chronicle. -/
def write (chronicle : Chronicle) (location : Option Location) (value : Value) : Chronicle :=
  match location with
  | some (.variable owner) => { chronicle with value := Function.update chronicle.value owner value }
  | _ => chronicle

end Chronicle

/-! ## What a machine does with variables -/

/-- What the text says about the function of a frame. For each unit the functions of its text are
given. -/
def Frame.outline (texts : Nat → List Outline) (frame : Frame) : Outline :=
  (texts frame.unit)[frame.index.toNat]?.getD {}

namespace Environment

/-- The topmost frame, with the instructions of its function. -/
def running? (env : Environment) : Option (Frame × Listing) := do
  let frame ← env.frames.back?
  let function ← env.function? frame.target
  let listing ← function.code.disassemble.toOption
  pure (frame, listing)

/-- The mention of a variable for which the next instruction stands. -/
def mention? (texts : Nat → List Outline) (env : Environment) : Option Mention := do
  let (frame, listing) ← env.running?
  listing.mention? (frame.outline texts).mentions frame.pc

/-- The next instruction makes a closure. -/
def makesClosure (env : Environment) : Bool :=
  (env.running?.bind fun (frame, listing) => listing.lookup frame.pc).any
    (·.op = .makeClosure)

end Environment

namespace Chronicle

variable {α : Type}

/-- What a name denotes for the topmost frame. -/
def locate? (texts : Nat → List Outline) (chronicle : Chronicle) (env : Environment)
    (name : String) : Option Location := do
  let frame ← env.frames.back?
  Location.of? name (frame.outline texts).scopes chronicle.current

/-- An instruction has been executed. What is stored is the topmost operand; a closure that is made lies
on top afterwards. -/
def execute (texts : Nat → List Outline) (chronicle : Chronicle) (before after : Environment) :
    Chronicle :=
  match before.mention? texts, before.makesClosure, after.stack.back? with
  | some (.write name), _, _ =>
      chronicle.write (chronicle.locate? texts before name) (before.stack.back?.getD .undefined)
  | _, true, some (.closure block) => chronicle.create block
  | _, _, _ => chronicle

end Chronicle

namespace Machine

variable {α : Type}

/-- What a call passes that is about to be entered. -/
def passed (machine : Machine α) : List Value :=
  match machine.control with
  | .host (.call _ args _) => args
  | .native (.call _ args _) _ _ => args
  | .script _ =>
      match Environment.executeNext machine.environment with
      | (.ok (some count), after) => (after.stack.extract (after.stack.size - count)).toList
      | _ => []
  | _ => []

/-- The instruction that is executed in the next step comes to an end in an environment. -/
def executed? (machine : Machine α) : Option Environment :=
  match machine.control with
  | .script callers =>
      if callers.frames < machine.environment.frames.size then
        match Environment.executeNext machine.environment with
        | (.ok none, after) => some after
        | _ => none
      else none
  | _ => none

end Machine

namespace Chronicle

variable {α : Type}

/-- What is known behind a step of a machine. -/
def next (texts : Nat → List Outline) (chronicle : Chronicle) (machine : Machine α) : Chronicle :=
  let env := machine.environment
  let after := machine.step.environment
  if env.frames.size < after.frames.size then
    match after.frames.back? with
    | some frame => chronicle.enter frame.closure (frame.outline texts).params machine.passed
    | none => chronicle
  else
    match machine.executed? with
    | some executed => (chronicle.execute texts env executed).leave after.frames.size
    | none => chronicle.leave after.frames.size

/-- What is known behind so many steps. -/
def after (texts : Nat → List Outline) (chronicle : Chronicle) (machine : Machine α) :
    Nat → Chronicle
  | 0 => chronicle
  | steps + 1 => (chronicle.after texts machine steps).next texts (machine.forward steps)

end Chronicle

end PocketScript
