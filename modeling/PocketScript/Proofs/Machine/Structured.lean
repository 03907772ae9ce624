import PocketScript.Machine
import PocketScript.Proofs.Compile.Flows
import PocketScript.Proofs.Environment.Position

/-!
# Structured control flow

How a flow runs, told without jumps: there is always a list of what there is to do, loops go on with
their next round and are left by dropping what is to be done in them (`Activity.step`). Only to
evaluate an expression the machine is started, at the code of the expression, and its value is taken
when the machine arrives behind that code.

Beside it stands what can be seen of the machine that runs the compiled function from its first
instruction on: when it boxes a slot, when it begins with an expression, and what a test has shown
(`Activity.history`).
-/

namespace PocketScript

/-- What there is to do in a function. -/
inductive Task where
  /-- A captured slot is boxed into a cell. -/
  | box (slot : UInt16)
  | run (flow : Flow)
  /-- A round of a loop has ended, and the next one begins. -/
  | again (test step : Option Stretch) (body : Flow)

/-- What becomes of the value of an expression. -/
inductive Use where
  | sink (sink : Sink)
  /-- It tells what there is to do next. -/
  | test (whenTrue whenFalse : List Task)
  | return_

/-- What can be seen of a run. -/
inductive Event where
  | boxes (slot : UInt16)
  | evaluates (value : Stretch)
  | tests (value : Stretch) (truthy : Bool)
  deriving DecidableEq, Repr

/-- The slot that is boxed. -/
def Event.boxed? : Event → Option UInt16
  | boxes slot => some slot
  | _ => none

/-- How far the run of a function has come. -/
inductive Progress (α : Type) where
  | doing (tasks : List Task) (env : Environment)
  /-- The machine evaluates an expression. -/
  | evaluating (value : Stretch) (use : Use) (tasks : List Task) (machine : Machine α)
  /-- The function has returned or failed, which has led to a state of the machine. -/
  | ended (machine : Machine α)

/-- A compiled function and the flow of its body. -/
structure Routine where
  code : CompleteCode
  captured : Array Bool
  flow : Flow
  function : FunctionDef

/-- A routine runs in a frame, up to which there is a number of frames. -/
structure Activity (α : Type) where
  routine : Routine
  frame : Frame
  program : Program
  callers : Callers α
  count : Nat

namespace Task

def isAgain : Task → Bool
  | again _ _ _ => true
  | _ => false

/-- What there is to do from the next round of the innermost loop on. -/
def toLoop (tasks : List Task) : List Task := tasks.dropWhile (!·.isAgain)

end Task

namespace Routine

/-- Where an instruction of the body stands in the code. -/
def place (routine : Routine) (index : Nat) : Nat :=
  routine.code.assembler.offset routine.captured index

/-- The slots that are boxed at first. -/
def boxed (routine : Routine) : List UInt16 :=
  (Assembler.boxing routine.captured.toList).map (·.a)

/-- The routine is what a body was compiled to. -/
structure Implements (routine : Routine) (body : List Stmt) : Prop where
  finished : ∃ varCount argCount isClosure,
    routine.code.assembler.finish varCount argCount routine.captured isClosure =
      .ok routine.function
  layout : ∃ stop, routine.code.StmtsAt [] body routine.flow 0 stop ∧
    routine.code.Holds stop .retUndefined ∧ routine.code.assembler.pending.size = stop + 1

end Routine

/-- The position of the topmost frame. -/
def Environment.position (env : Environment) : Nat := (env.frames.back?.getD default).pc

/-- An instruction has been executed. -/
def Machine.afterExecuting {α : Type} (callers : Callers α)
    (outcome : Except Fault Unit × Environment) : Machine α :=
  match outcome with
  | (.ok _, env) => ⟨env, .script callers⟩
  | (.error fault, env) => fail env callers fault

namespace Activity

open Environment

variable {α : Type} (activity : Activity α)

def activation : Activation :=
  activationOf activity.frame activity.routine.function activity.program

/-- The machine executes the instructions of the function, not those of one that it has called. -/
def IsOwn (machine : Machine α) : Prop :=
  match machine.control with
  | .script callers =>
      callers.frames < activity.count ∧ machine.environment.frames.size = activity.count
  | _ => False

/-- The function has returned or failed. -/
def HasLeft (machine : Machine α) : Prop := machine.environment.frames.size < activity.count

instance (machine : Machine α) : Decidable (activity.IsOwn machine) := by
  unfold IsOwn
  split <;> infer_instance

instance (machine : Machine α) : Decidable (activity.HasLeft machine) :=
  inferInstanceAs (Decidable (_ < _))

/-! ## The structured run -/

/-- A value is stored in a slot, or in the cell that the slot was boxed into. -/
def store (slot : UInt16) : Action Unit := do
  if activity.routine.captured.getD slot.toNat false then
    storeInCell activity.activation (← localCell activity.activation slot)
  else storeLocal activity.activation slot

/-- The topmost operand is dropped. -/
def drop : Action Unit := do
  release (← pop activity.activation.floor)

def sink : Sink → Action Unit
  | .drop => activity.drop
  | .slot index => do
      activity.store index
      activity.drop
  | .global name => defineNamed activity.activation name

def goOn (tasks : List Task) (outcome : Except Fault Unit × Environment) : Progress α :=
  match outcome with
  | (.ok _, env) => .doing tasks env
  | (.error fault, env) => .ended (Machine.fail env activity.callers fault)

/-- The function ends with undefined. -/
def finish (env : Environment) : Progress α :=
  .ended (Machine.afterExecuting activity.callers
    (leaveFunction activity.activation.base .undefined env))

/-- The machine goes on with an expression, unless that has made the function fail. -/
def watch (value : Stretch) (use : Use) (tasks : List Task) (machine : Machine α) : Progress α :=
  if activity.HasLeft machine then .ended machine else .evaluating value use tasks machine

/-- The machine is started at the code of an expression. -/
def begin (value : Stretch) (use : Use) (tasks : List Task) (env : Environment) :
    Option Event × Progress α :=
  (some (.evaluates value),
    activity.watch value use tasks
      (Machine.step ⟨env.at_ (activity.routine.place value.start), .script activity.callers⟩))

/-- The value of an expression lies on top of the stack. -/
def use (value : Stretch) (use : Use) (tasks : List Task) (env : Environment) :
    Option Event × Progress α :=
  match use with
  | .sink sink => (none, activity.goOn tasks (activity.sink sink env))
  | .test whenTrue whenFalse =>
      match truth activity.activation env with
      | (.ok truthy, after) =>
          (some (.tests value truthy), .doing ((if truthy then whenTrue else whenFalse) ++ tasks) after)
      | (.error fault, after) => (none, .ended (Machine.fail after activity.callers fault))
  | .return_ =>
      (none, .ended (Machine.afterExecuting activity.callers
        ((pop activity.activation.floor >>= leaveFunction activity.activation.base) env)))

/-- A flow begins. -/
def enter (flow : Flow) (tasks : List Task) (env : Environment) :
    Option Event × Progress α :=
  match flow with
  | .nothing => (none, .doing tasks env)
  | .evaluate value sink => activity.begin value (.sink sink) tasks env
  | .declare name =>
      (none, activity.goOn tasks (declareGlobal activity.activation name env))
  | .sequence first second => (none, .doing (.run first :: .run second :: tasks) env)
  | .branch test whenTrue whenFalse =>
      activity.begin test (.test [.run whenTrue] [.run whenFalse]) tasks env
  | .loop none step body => (none, .doing (.run body :: .again none step body :: tasks) env)
  | .loop (some test) step body =>
      activity.begin test (.test [.run body, .again (some test) step body] []) tasks env
  | .breakLoop => (none, .doing (Task.toLoop tasks).tail env)
  | .continueLoop => (none, .doing (Task.toLoop tasks) env)
  | .return_ none => (none, activity.finish env)
  | .return_ (some value) => activity.begin value .return_ tasks env

/-- A step of the structured run, with what can be seen of it. -/
def step : Progress α → Option Event × Progress α
  | .doing [] env => (none, activity.finish env)
  | .doing (.box slot :: tasks) env =>
      (some (.boxes slot), activity.goOn tasks (makeCell activity.activation slot env))
  | .doing (.run flow :: tasks) env => activity.enter flow tasks env
  | .doing (.again test step body :: tasks) env =>
      match step with
      | none => (none, .doing (.run (.loop test none body) :: tasks) env)
      | some value =>
          (none, .doing (.run (.evaluate value .drop) :: .run (.loop test (some value) body) :: tasks)
            env)
  | .evaluating value use tasks machine =>
      if activity.IsOwn machine ∧ machine.environment.position = activity.routine.place value.stop then
        activity.use value use tasks machine.environment
      else (none, activity.watch value use tasks machine.step)
  | .ended machine => (none, .ended machine)

/-- What can be seen of so many steps, and where they lead. -/
def run : Nat → Progress α → List Event × Progress α
  | 0, progress => ([], progress)
  | steps + 1, progress =>
      let (event, next) := activity.step progress
      let (events, last) := run steps next
      (event.toList ++ events, last)

/-- The function has been entered. -/
def start (env : Environment) : Progress α :=
  .doing (activity.routine.boxed.map .box ++ [.run activity.routine.flow]) env

/-! ## The run of the machine -/

/-- What can be seen of the instruction that the function executes next. -/
def eventAt (env : Environment) : Option Event :=
  let routine := activity.routine
  match routine.function.code.decode env.position with
  | .ok ⟨.makeCell, slot, _⟩ => some (.boxes slot)
  | _ =>
      match routine.flow.stretches.find? (routine.place ·.start = env.position) with
      | some value => some (.evaluates value)
      | none => do
          let test ← routine.flow.tests.find? (routine.place ·.stop = env.position)
          match (truth activity.activation env).1 with
          | .ok truthy => some (.tests test truthy)
          | .error _ => none

/-- What can be seen of the next step. -/
def event? (machine : Machine α) : Option Event :=
  if activity.IsOwn machine then activity.eventAt machine.environment else none

/-- What can be seen of so many steps. -/
def history : Nat → Machine α → List Event
  | 0, _ => []
  | steps + 1, machine => (activity.event? machine).toList ++ history steps machine.step

/-- In so many steps, and before them, the function has not ended. -/
def Remains (steps : Nat) (machine : Machine α) : Prop :=
  ∀ earlier < steps, ¬ activity.HasLeft (machine.forward earlier)

/-! ## The two runs -/

/-- The machine is about to run the function, which has just been entered. -/
structure Starts (env : Environment) : Prop where
  last : env.frames.back? = some activity.frame
  first : activity.frame.pc = 0
  count : env.frames.size = activity.count
  callers : activity.callers.frames < activity.count
  loaded : env.programs[activity.frame.unit]? = some activity.program
  known : activity.program.function? activity.frame.index = some activity.routine.function

/-- The machine and the structured run show the same, whether they go on for ever or not, and when they
come to an end, then to the same one. The slots are boxed only at first, each of them once. -/
structure Agrees (env : Environment) : Prop where
  events : ∀ events,
    (∃ steps, activity.Remains steps ⟨env, .script activity.callers⟩ ∧
      activity.history steps ⟨env, .script activity.callers⟩ = events) ↔
        ∃ steps, (activity.run steps (activity.start env)).1 = events
  ends : ∀ events last,
    (∃ steps, activity.Remains steps ⟨env, .script activity.callers⟩ ∧
      activity.history steps ⟨env, .script activity.callers⟩ = events ∧
        Machine.forward steps ⟨env, .script activity.callers⟩ = last ∧
          activity.HasLeft last) ↔
        ∃ steps, activity.run steps (activity.start env) = (events, .ended last)
  boxes : ∀ steps, activity.Remains steps ⟨env, .script activity.callers⟩ →
    (activity.history steps ⟨env, .script activity.callers⟩).filterMap Event.boxed? <+:
      activity.routine.boxed

/-! ## Boxing -/

section

variable {activity} {env : Environment} {machine : Machine α} {tasks : List Task}
  {progress : Progress α}

/-- Nothing is left to be boxed. -/
def Unboxing : Progress α → Prop
  | .doing tasks _ => ∀ slot, .box slot ∉ tasks
  | .evaluating _ use tasks _ => (∀ slot, .box slot ∉ tasks) ∧
      match use with
      | .test whenTrue whenFalse => ∀ slot, .box slot ∉ whenTrue ∧ .box slot ∉ whenFalse
      | _ => True
  | .ended _ => True

theorem run_succ (activity : Activity α) (steps : Nat) (progress : Progress α) :
    activity.run (steps + 1) progress =
      ((activity.step progress).1.toList ++ (activity.run steps (activity.step progress).2).1,
        (activity.run steps (activity.step progress).2).2) := rfl

theorem unboxing_goOn (free : ∀ slot, .box slot ∉ tasks) (outcome : Except Fault Unit × Environment) :
    Unboxing (activity.goOn tasks outcome) := by
  obtain ⟨fault | _, after⟩ := outcome
  · trivial
  · exact free

theorem unboxing_watch {value : Stretch} {use : Use}
    (free : Unboxing (.evaluating value use tasks machine)) :
    Unboxing (activity.watch value use tasks machine) := by
  unfold watch
  split
  · trivial
  · exact free

theorem unboxing_enter {flow : Flow} (free : ∀ slot, .box slot ∉ tasks) :
    (activity.enter flow tasks env).1.bind Event.boxed? = none ∧
      Unboxing (activity.enter flow tasks env).2 := by
  have fewer : ∀ slot, .box slot ∉ Task.toLoop tasks :=
    fun slot member => free slot ((List.dropWhile_sublist _).subset member)
  cases flow with
  | nothing => exact ⟨rfl, free⟩
  | evaluate value sink => exact ⟨rfl, unboxing_watch ⟨free, trivial⟩⟩
  | declare name => exact ⟨rfl, unboxing_goOn free _⟩
  | sequence first second => exact ⟨rfl, fun slot => by simp [free slot]⟩
  | branch test whenTrue whenFalse => exact ⟨rfl, unboxing_watch ⟨free, fun slot => by simp⟩⟩
  | loop test step body =>
      cases test with
      | none => exact ⟨rfl, fun slot => by simp [free slot]⟩
      | some test => exact ⟨rfl, unboxing_watch ⟨free, fun slot => by simp⟩⟩
  | breakLoop => exact ⟨rfl, fun slot member => fewer slot (List.mem_of_mem_tail member)⟩
  | continueLoop => exact ⟨rfl, fewer⟩
  | return_ value =>
      cases value with
      | none => exact ⟨rfl, trivial⟩
      | some value => exact ⟨rfl, unboxing_watch ⟨free, trivial⟩⟩

theorem unboxing_use {value : Stretch} {use : Use} (free : Unboxing (.evaluating value use tasks machine)) :
    (activity.use value use tasks env).1.bind Event.boxed? = none ∧
      Unboxing (activity.use value use tasks env).2 := by
  cases use with
  | sink sink => exact ⟨rfl, unboxing_goOn free.1 _⟩
  | return_ => exact ⟨rfl, trivial⟩
  | test whenTrue whenFalse =>
      obtain ⟨others, branches⟩ := free
      unfold Activity.use
      simp only
      split
      · refine ⟨rfl, fun slot member => ?_⟩
        rcases List.mem_append.mp member with chosen | other
        · split at chosen
          · exact (branches slot).1 chosen
          · exact (branches slot).2 chosen
        · exact others slot other
      · exact ⟨rfl, trivial⟩

/-- Once all slots are boxed, none is boxed again. -/
theorem unboxing_step (free : Unboxing progress) :
    (activity.step progress).1.bind Event.boxed? = none ∧ Unboxing (activity.step progress).2 := by
  cases progress with
  | ended machine => exact ⟨rfl, trivial⟩
  | evaluating value use tasks machine =>
      unfold Activity.step
      simp only
      split
      · exact unboxing_use free
      · exact ⟨rfl, unboxing_watch free⟩
  | doing tasks env =>
      cases tasks with
      | nil => exact ⟨rfl, trivial⟩
      | cons first rest =>
          have others : ∀ slot, .box slot ∉ rest :=
            fun slot member => free slot (List.mem_cons_of_mem _ member)
          cases first with
          | box slot => exact absurd List.mem_cons_self (free slot)
          | run flow => exact unboxing_enter others
          | again test step body =>
              cases step with
              | none => exact ⟨rfl, fun slot => by simp [others slot]⟩
              | some value => exact ⟨rfl, fun slot => by simp [others slot]⟩

theorem boxed_run_of_unboxing (steps : Nat) (free : Unboxing progress) :
    (activity.run steps progress).1.filterMap Event.boxed? = [] := by
  induction steps generalizing progress with
  | zero => rfl
  | succ steps ih =>
      obtain ⟨none, next⟩ := @unboxing_step _ activity _ free
      rw [run_succ, List.filterMap_append, ih next, List.append_nil]
      cases seen : (activity.step progress).1 with
      | none => rfl
      | some event =>
          rw [seen] at none
          exact List.filterMap_cons_none none

/-- The slots are boxed one after the other. -/
theorem boxed_run (activity : Activity α) (steps : Nat) (slots : List UInt16) (flow : Flow)
    (env : Environment) :
    (activity.run steps (.doing (slots.map .box ++ [.run flow]) env)).1.filterMap
      Event.boxed? <+: slots := by
  induction steps generalizing slots env with
  | zero => exact List.nil_prefix
  | succ steps ih =>
      cases slots with
      | nil =>
          have free : Unboxing (α := α) (.doing [.run flow] env) := fun slot => by simp
          exact List.prefix_nil.mpr (boxed_run_of_unboxing (steps + 1) free)
      | cons slot rest =>
          rw [run_succ, List.filterMap_append]
          change slot :: ((activity.run steps (activity.goOn _ _)).1.filterMap Event.boxed?) <+: _
          refine List.cons_prefix_cons.mpr ⟨rfl, ?_⟩
          generalize makeCell activity.activation slot env = outcome
          obtain ⟨fault | _, after⟩ := outcome
          · have free : Unboxing (Progress.ended (Machine.fail after activity.callers fault)) := trivial
            exact boxed_run_of_unboxing steps free ▸ List.nil_prefix
          · exact ih rest after

end

end Activity

end PocketScript
