import Mathlib
import PocketScript.Proofs.Compile.Shaped
import PocketScript.Proofs.Machine.Following
import PocketScript.Proofs.Machine.Routines
import PocketScript.Proofs.Statement.Reading

/-!
# Compiled control flow is structured

The machine that runs a compiled function does what the structured run of the function's body does: the
state of one matches that of the other (`Activity.Matches`), and each step of the structured run is
followed by steps of the machine, which show the same (`Activity.Matches.step`). A step that the machine
does not have to follow leaves less to do, so neither of the two goes on while the other stands still.
With what the parser makes of the tokens of statements this also tells what a function does that is
spelled as phrases (`Compiling.spelled_agrees`).
-/

namespace PocketScript

open Environment

variable {α : Type}

namespace Machine

theorem forward_step (steps : Nat) (machine : Machine α) :
    machine.forward (steps + 1) = machine.step.forward steps := by
  induction steps with
  | zero =>
      rw [forward_succ]
      rfl
  | succ steps ih => rw [forward_succ, ih, ← forward_succ]

theorem forward_add (first second : Nat) (machine : Machine α) :
    machine.forward (first + second) = (machine.forward first).forward second := by
  induction first generalizing machine with
  | zero => rw [Nat.zero_add]; rfl
  | succ first ih => rw [Nat.succ_add, forward_step, forward_step, ih]

end Machine

/-! ## How much there is to do -/

/-- How much a flow has to do, not counting what is done in further rounds of loops. -/
def Flow.weight : Flow → Nat
  | .sequence first second => first.weight + second.weight + 1
  | .loop _ _ body => body.weight + 1
  | _ => 1

namespace Task

def weight : List Task → Nat
  | [] => 0
  | .run flow :: rest => flow.weight + weight rest
  | _ :: rest => weight rest

theorem weight_toLoop (tasks : List Task) : weight (toLoop tasks) ≤ weight tasks := by
  induction tasks with
  | nil => exact Nat.le_refl _
  | cons first rest ih =>
      cases first with
      | box slot => exact ih
      | run flow => exact Nat.le_trans ih (Nat.le_add_left _ _)
      | again test step body => exact Nat.le_refl _

theorem weight_tail (tasks : List Task) : weight tasks.tail ≤ weight tasks := by
  cases tasks with
  | nil => exact Nat.le_refl _
  | cons first rest =>
      cases first with
      | run flow => exact Nat.le_add_left _ _
      | _ => exact Nat.le_refl _

end Task

/-- The measure of the steps that the machine does not follow. -/
def Progress.weight : Progress α → Nat
  | .doing tasks _ => Task.weight tasks
  | _ => 0

namespace Activity

variable {activity : Activity α} {env : Environment} {value : Stretch} {pc : Nat}
  {body : List Stmt} {index : Nat} {instr : PendingInstruction} {machine last : Machine α}
  {tasks : List Task} {use : Use}

/-! ## Runs of the machine -/

theorem history_add (activity : Activity α) (first second : Nat) (machine : Machine α) :
    activity.history (first + second) machine =
      activity.history first machine ++ activity.history second (machine.forward first) := by
  induction first generalizing machine with
  | zero => rw [Nat.zero_add]; rfl
  | succ first ih =>
      rw [Nat.succ_add, history, history, ih, Machine.forward_step, List.append_assoc]

/-- The machine comes in so many steps from one state to another, and shows events. The function has
not ended before. -/
structure Leads (activity : Activity α) (steps : Nat) (machine : Machine α) (events : List Event)
    (last : Machine α) : Prop where
  remains : activity.Remains steps machine
  history : activity.history steps machine = events
  forward : machine.forward steps = last

theorem Leads.none (activity : Activity α) (machine : Machine α) :
    activity.Leads 0 machine [] machine :=
  ⟨fun _ before => absurd before (Nat.not_lt_zero _), rfl, rfl⟩

theorem Leads.one (remains : ¬ activity.HasLeft machine) :
    activity.Leads 1 machine (activity.event? machine).toList machine.step := by
  refine ⟨fun earlier before => ?_, List.append_nil _, Machine.forward_step 0 machine⟩
  obtain rfl : earlier = 0 := by omega
  exact remains

theorem Leads.trans {first second : Nat} {events more : List Event} {middle : Machine α}
    (one : activity.Leads first machine events middle)
    (two : activity.Leads second middle more last) :
    activity.Leads (first + second) machine (events ++ more) last := by
  refine ⟨fun earlier before => ?_, ?_, ?_⟩
  · by_cases early : earlier < first
    · exact one.remains earlier early
    · obtain ⟨later, rfl⟩ := Nat.exists_eq_add_of_le (Nat.not_lt.mp early)
      rw [Machine.forward_add, one.forward]
      exact two.remains later (by omega)
  · rw [history_add, one.history, one.forward, two.history]
  · rw [Machine.forward_add, one.forward, two.forward]

/-! ## The two runs beside each other -/

/-- A state of the structured run and one of the machine belong together. -/
inductive Matches (activity : Activity α) : Progress α → Machine α → Prop
  | boxing {env : Environment} {index pc : Nat} :
      activity.Runs pc env → index < activity.routine.boxed.length →
        Matches activity
          (.doing ((activity.routine.boxed.drop index).map .box ++ [.run activity.routine.flow])
            env)
          ⟨env.at_ (3 * index), .script activity.callers⟩
  | doing {loops : List LoopLabels} {tasks : List Task} {env : Environment} {index pc : Nat} :
      activity.Runs pc env →
        activity.routine.code.Follows activity.routine.flow loops tasks index →
          Matches activity (.doing tasks env)
            ⟨env.at_ (activity.routine.place index), .script activity.callers⟩
  | evaluating {value : Stretch} {use : Use} {tasks : List Task} {machine : Machine α} {index : Nat} :
      value ∈ activity.routine.flow.stretches →
        activity.routine.code.UseAt activity.routine.flow value use tasks →
          value.start < index → index ≤ value.stop →
            activity.Within (activity.routine.place index) machine →
              Matches activity (.evaluating value use tasks machine) machine
  | ended {machine : Machine α} : activity.HasLeft machine → Matches activity (.ended machine) machine

/-- The machine follows a step of the structured run, and does something. -/
def Imitates (activity : Activity α) (machine : Machine α) (outcome : Option Event × Progress α) : Prop :=
  ∃ steps last, 0 < steps ∧ activity.Leads steps machine outcome.1.toList last ∧
    activity.Matches outcome.2 last

theorem Imitates.after {steps : Nat} {outcome : Option Event × Progress α}
    (leads : activity.Leads steps machine [] last) (follows : activity.Imitates last outcome) :
    activity.Imitates machine outcome := by
  obtain ⟨more, final, positive, leads', same⟩ := follows
  exact ⟨steps + more, final, by omega, leads.trans leads', same⟩

/-- A function that has failed has ended. -/
theorem left_fail (proper : activity.Proper) (env : Environment) (fault : Fault) :
    activity.HasLeft (Machine.fail env activity.callers fault) := by
  have callers := proper.callers
  change (env.frames.shrink activity.callers.frames).size < activity.count
  rw [Array.size_shrink]
  omega

/-- And so has one that returns. -/
theorem left_leaveFunction (proper : activity.Proper) (runs : activity.Runs pc env)
    (base : Nat) (result : Value) :
    activity.HasLeft
      (Machine.afterExecuting activity.callers (leaveFunction base result env)) := by
  have callers := proper.callers
  have frames := (programs_leaveFunction base result env).2
  generalize leaveFunction base result env = outcome at frames
  obtain ⟨fault | _, after⟩ := outcome
  · exact left_fail proper after fault
  · change after.frames.size < activity.count
    rw [show after.frames = env.frames.pop from frames, Array.size_pop, runs.count]
    omega

/-- The evaluation of an expression goes on, or the function fails in it. -/
theorem matches_watch (member : value ∈ activity.routine.flow.stretches)
    (used : activity.routine.code.UseAt activity.routine.flow value use tasks)
    (reached : (∃ next, value.start < next ∧ next ≤ value.stop ∧
      activity.Within (activity.routine.place next) machine) ∨ activity.HasLeft machine) :
    activity.Matches (activity.watch value use tasks machine) machine := by
  unfold watch
  split
  · rename_i left
    exact .ended left
  · rename_i remains
    obtain ⟨next, above, below, within⟩ := reached.resolve_right remains
    exact .evaluating member used above below within

/-- The slots are boxed one after the other, and then the body begins. -/
theorem matches_boxing (implements : activity.routine.Implements body)
    (runs : activity.Runs pc env)
    (inside : index ≤ activity.routine.boxed.length) :
    activity.Matches
      (.doing ((activity.routine.boxed.drop index).map .box ++ [.run activity.routine.flow]) env)
      ⟨env.at_ (3 * index), .script activity.callers⟩ := by
  obtain more | last := Nat.lt_or_eq_of_le inside
  · exact .boxing runs more
  · obtain ⟨stop, statements, holds, -⟩ := implements.layout
    rw [List.drop_eq_nil_of_le (Nat.le_of_eq last.symm), last, ← Routine.place_zero]
    exact .doing runs (.run (.here 0) statements.flowAt (.refl _) (.ends (.here stop) holds))

section

variable (proper : activity.Proper) (implements : activity.routine.Implements body)

include proper

/-- Where the function goes on, there is what is left to do. -/
theorem matches_goOn {loops : List LoopLabels} {outcome : Except Fault Unit × Environment}
    (runs : activity.Runs pc outcome.2)
    (rest : activity.routine.code.Follows activity.routine.flow loops tasks index) :
    activity.Matches (activity.goOn tasks outcome)
      (activity.arrive (activity.routine.place index) outcome) := by
  obtain ⟨fault | _, after⟩ := outcome
  · exact .ended (left_fail proper after fault)
  · exact .doing runs rest

include implements

/-- What can be seen of an instruction of a statement that decides nothing. -/
theorem event?_of_control (runs : activity.Runs (activity.routine.place index) env)
    (found : activity.routine.code.assembler.pending[index]? = some instr)
    (control : instr.op.isControl = true) (noTest : instr.op ≠ .jumpIfFalse) :
    activity.event? ⟨env, .script activity.callers⟩ = none := by
  unfold event?
  rw [if_pos (runs.isOwn proper)]
  exact eventAt_of_control implements runs.position found control noTest

/-- The machine follows a jump. -/
theorem leads_of_jump {target : Nat} (runs : activity.Runs pc env)
    (jumps : activity.routine.code.Jumps index .jump target) :
    activity.Leads 1 ⟨env.at_ (activity.routine.place index), .script activity.callers⟩ []
      ⟨env.at_ (activity.routine.place target), .script activity.callers⟩ := by
  obtain ⟨label, found, places⟩ := jumps
  have here := runs.at_ (activity.routine.place index)
  have op : (activity.routine.settled ⟨.jump, 0, 0, some label⟩).op = .jump :=
    Routine.op_settled_of_isControl rfl fun same => by cases same
  have stepped : Machine.step
      ⟨env.at_ (activity.routine.place index), .script activity.callers⟩ =
        ⟨env.at_ (activity.routine.place target), .script activity.callers⟩ := by
    have goal := implements.jumps_to found rfl places
    rw [here.step_eq proper (implements.decodes found) (by rw [op]; exact Opcode.noConfusion)]
    generalize activity.routine.settled ⟨.jump, 0, 0, some label⟩ = final at op goal
    obtain ⟨_, a, b⟩ := final
    obtain rfl := op
    change (⟨((env.at_ _).at_ _).at_ a.toNat, _⟩ : Machine α) = _
    rw [goal, at_at, at_at]
  have one := Leads.one (here.remains (.script activity.callers))
  rw [event?_of_control proper implements here found rfl (fun same => by cases same), stepped] at one
  exact one

theorem leads_of_reaches {stop : Nat} (runs : activity.Runs pc env)
    (reaches : activity.routine.code.Reaches index stop) :
    ∃ steps, activity.Leads steps
      ⟨env.at_ (activity.routine.place index), .script activity.callers⟩ []
      ⟨env.at_ (activity.routine.place stop), .script activity.callers⟩ := by
  induction reaches with
  | here => exact ⟨0, .none _ _⟩
  | jump jumps _ ih =>
      obtain ⟨steps, leads⟩ := ih
      exact ⟨1 + steps, (leads_of_jump proper implements runs jumps).trans leads⟩

/-- The machine executes an instruction of a statement that goes on with the next one. -/
theorem leads_of_plain (runs : activity.Runs pc env)
    (found : activity.routine.code.assembler.pending[index]? = some instr)
    (control : instr.op.isControl = true) (plain : instr.op.isPlain = true) :
    activity.Leads 1 ⟨env.at_ (activity.routine.place index), .script activity.callers⟩ []
        (activity.arrive (activity.routine.place (index + 1))
          (execute activity.activation (activity.routine.settled instr) env)) ∧
      activity.Runs pc
        (execute activity.activation (activity.routine.settled instr) env).2 := by
  have settledPlain : (activity.routine.settled instr).op.isPlain = true :=
    (Routine.isPlain_settled instr).trans plain
  have noCall : (activity.routine.settled instr).op ≠ .call := by
    intro call
    rw [call] at settledPlain
    cases settledPlain
  have noTest : instr.op ≠ .jumpIfFalse := by
    intro test
    rw [test] at plain
    cases plain
  have confined := @confined_execute 0 activity.activation _ (Nat.zero_le _) settledPlain
  obtain ⟨stepped, there⟩ := runs.step_confined proper (implements.decodes found) noCall confined
  have here := runs.at_ (activity.routine.place index)
  have one := Leads.one (here.remains (.script activity.callers))
  rw [event?_of_control proper implements here found control noTest, stepped,
    ← Routine.place_succ found] at one
  exact ⟨one, there⟩

theorem imitates_of_plain {loops : List LoopLabels} (runs : activity.Runs pc env)
    (found : activity.routine.code.assembler.pending[index]? = some instr)
    (control : instr.op.isControl = true) (plain : instr.op.isPlain = true)
    (rest : activity.routine.code.Follows activity.routine.flow loops tasks (index + 1)) :
    activity.Imitates ⟨env.at_ (activity.routine.place index), .script activity.callers⟩
      (none, activity.goOn tasks
        (execute activity.activation (activity.routine.settled instr) env)) := by
  obtain ⟨leads, there⟩ := leads_of_plain proper implements runs found control plain
  exact ⟨1, _, Nat.one_pos, leads, matches_goOn proper there rest⟩

/-- An expression begins. -/
theorem imitates_begin (runs : activity.Runs pc env)
    (member : value ∈ activity.routine.flow.stretches)
    (used : activity.routine.code.UseAt activity.routine.flow value use tasks) :
    activity.Imitates
      ⟨env.at_ (activity.routine.place value.start), .script activity.callers⟩
      (activity.begin value use tasks env) := by
  obtain ⟨stop, ordered, -⟩ := implements.ordered
  have has := (ordered.inside value member).1
  have there := runs.at_ (activity.routine.place value.start)
  have reached := there.computes proper implements
    (has.keeps value.start (Nat.le_refl _) has.nonempty) (Nat.le_refl _) has.nonempty
  have seen : activity.event?
      ⟨env.at_ (activity.routine.place value.start), .script activity.callers⟩ =
        some (.evaluates value) := by
    unfold event?
    rw [if_pos (there.isOwn proper)]
    exact eventAt_of_start implements there.position member rfl
  have one := Leads.one (there.remains (.script activity.callers))
  rw [seen] at one
  exact ⟨1, _, Nat.one_pos, one, matches_watch member used reached⟩

omit proper implements in
/-- The instruction that stores in a slot, or in its cell. -/
theorem execute_store (slot : UInt16) :
    execute activity.activation (activity.routine.settled ⟨.storeLocal, slot, 0, none⟩) =
      activity.store slot := by
  unfold store Routine.settled Assembler.settle
  simp only
  split <;> rfl

/-- The value of an expression goes somewhere. -/
theorem imitates_sink {loops : List LoopLabels} {stop : Nat} {sink : Sink}
    (runs : activity.Runs pc env) (sinks : activity.routine.code.SinkAt sink index stop)
    (rest : activity.routine.code.Follows activity.routine.flow loops tasks stop) :
    activity.Imitates ⟨env.at_ (activity.routine.place index), .script activity.callers⟩
      (none, activity.goOn tasks (activity.sink sink env)) := by
  cases sink with
  | drop =>
      obtain ⟨rfl, pops⟩ := sinks
      have followed := imitates_of_plain proper implements runs pops rfl rfl rest
      rw [Routine.settled_of_none rfl] at followed
      exact followed
  | global name =>
      obtain ⟨rfl, defines⟩ := sinks
      have followed := imitates_of_plain proper implements runs defines rfl rfl rest
      rw [Routine.settled_of_none rfl] at followed
      exact followed
  | slot slot =>
      obtain ⟨rfl, stores, pops⟩ := sinks
      obtain ⟨leads, there⟩ := leads_of_plain proper implements runs stores rfl rfl
      rw [execute_store] at leads there
      change activity.Imitates _ (none, activity.goOn tasks
        ((activity.store slot >>= fun _ => activity.drop) env))
      rw [action_bind]
      generalize activity.store slot env = outcome at leads there
      obtain ⟨fault | _, after⟩ := outcome
      · exact ⟨1, _, Nat.one_pos, leads, .ended (left_fail proper after fault)⟩
      · have followed := imitates_of_plain proper implements there pops rfl rfl rest
        rw [Routine.settled_of_none rfl] at followed
        exact followed.after leads

/-- At a test, it can be seen whether it holds. -/
theorem event?_of_test (runs : activity.Runs pc env)
    (member : value ∈ activity.routine.flow.tests) :
    activity.event?
        ⟨env.at_ (activity.routine.place value.stop), .script activity.callers⟩ =
      match (truth activity.activation env).1 with
      | .ok truthy => some (.tests value truthy)
      | .error _ => none := by
  have here := runs.at_ (activity.routine.place value.stop)
  have confined : Confined 0 (-1) (truth activity.activation) := confined_truth (Nat.zero_le _)
  have told : (truth activity.activation
      (env.at_ (activity.routine.place value.stop))).1 =
        (truth activity.activation env).1 := by
    simp only [confined.at_eq]
  have looks := eventAt_of_test implements here.position member rfl
  rw [told] at looks
  exact (if_pos (here.isOwn proper)).trans looks

/-- A jump for a test goes on behind it if it holds, and to its target if not. -/
theorem step_of_test {index target : Nat} (runs : activity.Runs pc env)
    (jumps : activity.routine.code.Jumps index .jumpIfFalse target) :
    Machine.step ⟨env.at_ (activity.routine.place index), .script activity.callers⟩ =
      match truth activity.activation env with
      | (.ok truthy, after) =>
          ⟨after.at_ (activity.routine.place (if truthy then index + 1 else target)),
            .script activity.callers⟩
      | (.error fault, after) => Machine.fail after activity.callers fault := by
  obtain ⟨label, found, places⟩ := jumps
  have here := runs.at_ (activity.routine.place index)
  have confined : Confined 0 (-1) (truth activity.activation) := confined_truth (Nat.zero_le _)
  have there := runs.mono (confined.frames_eq env) (confined.programs env)
  have op : (activity.routine.settled ⟨.jumpIfFalse, 0, 0, some label⟩).op = .jumpIfFalse :=
    Routine.op_settled_of_isControl rfl fun same => by cases same
  have goal := implements.jumps_to found rfl places
  rw [here.step_eq proper (implements.decodes found) (by rw [op]; exact Opcode.noConfusion),
    ← Routine.place_succ found, at_at]
  generalize activity.routine.settled ⟨.jumpIfFalse, 0, 0, some label⟩ = final at op goal
  obtain ⟨_, a, b⟩ := final
  obtain rfl := op
  change Machine.afterExecuting activity.callers (jumpIf activity.activation false a.toNat _) = _
  rw [jumpIf_eq, confined.at_eq, goal]
  generalize truth activity.activation env = outcome at there
  obtain ⟨fault | truthy, after⟩ := outcome
  · exact fail_at proper there _ fault
  · cases truthy with
    | false =>
        change (⟨(after.at_ _).at_ _, _⟩ : Machine α) = _
        rw [at_at]
        rfl
    | true => rfl

/-- A test decides what there is to do. -/
theorem imitates_test {target : Nat} {whenTrue whenFalse : List Task}
    (runs : activity.Runs pc env) (member : value ∈ activity.routine.flow.tests)
    (jumps : activity.routine.code.Jumps value.stop .jumpIfFalse target)
    (holds : ∃ loops, activity.routine.code.Follows activity.routine.flow loops (whenTrue ++ tasks)
      (value.stop + 1))
    (fails : ∃ loops, activity.routine.code.Follows activity.routine.flow loops (whenFalse ++ tasks)
      target) :
    activity.Imitates ⟨env.at_ (activity.routine.place value.stop), .script activity.callers⟩
      (activity.use value (.test whenTrue whenFalse) tasks env) := by
  obtain ⟨loops, holds⟩ := holds
  obtain ⟨loops', fails⟩ := fails
  have here := runs.at_ (activity.routine.place value.stop)
  have confined : Confined 0 (-1) (truth activity.activation) := confined_truth (Nat.zero_le _)
  have there := runs.mono (confined.frames_eq env) (confined.programs env)
  have one := Leads.one (here.remains (.script activity.callers))
  rw [event?_of_test proper implements runs member, step_of_test proper implements runs jumps] at one
  unfold Activity.use
  simp only
  generalize truth activity.activation env = outcome at there one
  obtain ⟨fault | truthy, after⟩ := outcome
  · exact ⟨1, _, Nat.one_pos, one, .ended (left_fail proper after fault)⟩
  · refine ⟨1, _, Nat.one_pos, one, ?_⟩
    cases truthy with
    | false => exact .doing there fails
    | true => exact .doing there holds

/-- The function returns the value of an expression. -/
theorem imitates_return (runs : activity.Runs pc env)
    (holds : activity.routine.code.Holds index .ret) :
    activity.Imitates ⟨env.at_ (activity.routine.place index), .script activity.callers⟩
      (activity.use value .return_ tasks env) := by
  have here := runs.at_ (activity.routine.place index)
  have confined : Confined 0 (-1) (pop activity.activation.floor) := confined_pop (Nat.zero_le _)
  have there := runs.mono (confined.frames_eq env) (confined.programs env)
  have one := Leads.one (here.remains (.script activity.callers))
  rw [event?_of_control proper implements here holds rfl (fun same => by cases same),
    here.step_eq proper (implements.decodes holds)
      (by rw [Routine.settled_of_none rfl]; exact Opcode.noConfusion),
    Routine.settled_of_none rfl, execute_ret, at_at, action_bind, confined.at_eq] at one
  unfold Activity.use
  simp only
  rw [action_bind]
  generalize pop activity.activation.floor env = outcome at there one
  obtain ⟨fault | result, after⟩ := outcome
  · refine ⟨1, _, Nat.one_pos, one, ?_⟩
    rw [show Machine.afterExecuting activity.callers (.error fault, after.at_ _) = _ from
      fail_at proper there _ fault]
    exact .ended (left_fail proper after fault)
  · simp only at one
    rw [leaveFunction_at] at one
    exact ⟨1, _, Nat.one_pos, one, .ended (left_leaveFunction proper there _ _)⟩

/-- The function ends without a value. -/
theorem imitates_finish (runs : activity.Runs pc env)
    (holds : activity.routine.code.Holds index .retUndefined) :
    activity.Imitates ⟨env.at_ (activity.routine.place index), .script activity.callers⟩
      (none, activity.finish env) := by
  have here := runs.at_ (activity.routine.place index)
  have one := Leads.one (here.remains (.script activity.callers))
  rw [event?_of_control proper implements here holds rfl (fun same => by cases same),
    here.step_eq proper (implements.decodes holds)
      (by rw [Routine.settled_of_none rfl]; exact Opcode.noConfusion),
    Routine.settled_of_none rfl, execute_retUndefined, at_at, leaveFunction_at] at one
  exact ⟨1, _, Nat.one_pos, one, .ended (left_leaveFunction proper runs _ _)⟩

/-- A flow begins: the machine does so too, or there is only less to do. -/
theorem imitates_enter {flow : Flow} {loops : List LoopLabels} {start stop : Nat}
    (runs : activity.Runs pc env) (layout : activity.routine.code.FlowAt loops flow start stop)
    (part : flow.PartOf activity.routine.flow)
    (rest : activity.routine.code.Follows activity.routine.flow loops tasks stop) :
    activity.Imitates ⟨env.at_ (activity.routine.place start), .script activity.callers⟩
        (activity.enter flow tasks env) ∨
      ∃ less loops', activity.enter flow tasks env = (none, .doing less env) ∧
        activity.routine.code.Follows activity.routine.flow loops' less start ∧
          Task.weight less < Task.weight (.run flow :: tasks) := by
  cases layout with
  | nothing => exact .inr ⟨tasks, loops, rfl, rest, by simp only [Task.weight, Flow.weight]; omega⟩
  | evaluate has sinks =>
      exact .inl (imitates_begin proper implements runs (part.stretches List.mem_cons_self)
        ⟨loops, stop, sinks, rest⟩)
  | declare holds =>
      have followed := imitates_of_plain proper implements runs holds rfl rfl rest
      rw [Routine.settled_of_none rfl] at followed
      exact .inl followed
  | @sequence _ first second _ middle _ one two =>
      refine .inr ⟨.run first :: .run second :: tasks, loops, rfl,
        .run (.here _) one part.first (.run (.here _) two part.second rest), ?_⟩
      simp only [Task.weight, Flow.weight]
      omega
  | branch has jumps whenTrue =>
      exact .inl (imitates_begin proper implements runs (part.stretches List.mem_cons_self)
        ⟨part.tests List.mem_cons_self, _, jumps, ⟨loops, .run (.here _) whenTrue part.whenTrue rest⟩,
          ⟨loops, .run (.here _) .nothing .nothing rest⟩⟩)
  | branchElse has tests whenTrue jumps whenFalse =>
      exact .inl (imitates_begin proper implements runs (part.stretches List.mem_cons_self)
        ⟨part.tests List.mem_cons_self, _, tests,
          ⟨loops, .run (.here _) whenTrue part.whenTrue (rest.reach jumps.reaches)⟩,
          ⟨loops, .run (.here _) whenFalse part.whenFalse rest⟩⟩)
  | @loop _ labels test step body _ tested next entry stop tests steps breaks continues inner
      repeats =>
      have loop : activity.routine.code.LoopAt activity.routine.flow loops labels test step body start
          next stop := ⟨⟨tested, entry, tests, steps, inner⟩, breaks, continues, repeats, part⟩
      obtain ⟨tested, tests, round⟩ := loop.round rest
      cases tests with
      | none =>
          refine .inr ⟨_, _, rfl, round, ?_⟩
          simp only [Task.weight, Flow.weight]
          omega
      | some has jumps =>
          exact .inl (imitates_begin proper implements runs
            (part.stretches (List.mem_append_left _ List.mem_cons_self))
            ⟨part.tests (List.mem_append_left _ List.mem_cons_self), _, jumps, ⟨_, round⟩,
              ⟨loops, rest⟩⟩)
  | @breakLoop outer labels _ jumps =>
      obtain ⟨test, step, body, others, _, next, stop, same, loop, rest⟩ := rest.toLoop
      refine .inr ⟨_, outer, rfl, ?_, ?_⟩
      · rw [same]
        exact rest.reach (.jump ⟨_, jumps, loop.breaks⟩ (.here _))
      · have fewer := Nat.le_trans (Task.weight_tail (Task.toLoop tasks)) (Task.weight_toLoop tasks)
        simp only [Task.weight, Flow.weight]
        omega
  | @continueLoop outer labels _ jumps =>
      obtain ⟨test, step, body, others, _, next, stop, same, loop, rest⟩ := rest.toLoop
      refine .inr ⟨_, labels :: outer, rfl, ?_, ?_⟩
      · rw [same]
        exact .again (.here _) ⟨_, jumps, loop.continues⟩ loop rest
      · have fewer := Task.weight_toLoop tasks
        simp only [Task.weight, Flow.weight]
        omega
  | returnNothing holds => exact .inl (imitates_finish proper implements runs holds)
  | return_ has holds =>
      exact .inl (imitates_begin proper implements runs (part.stretches List.mem_cons_self) holds)

/-- A slot is boxed. -/
theorem imitates_boxing (runs : activity.Runs pc env)
    (more : index < activity.routine.boxed.length) :
    activity.Imitates ⟨env.at_ (3 * index), .script activity.callers⟩
      (activity.step (.doing
        ((activity.routine.boxed.drop index).map .box ++ [.run activity.routine.flow])
          env)) := by
  have found := List.getElem?_eq_getElem more
  have here := runs.at_ (3 * index)
  have seen : activity.event? ⟨env.at_ (3 * index), .script activity.callers⟩ =
      some (.boxes activity.routine.boxed[index]) := by
    unfold event?
    rw [if_pos (here.isOwn proper)]
    exact eventAt_of_boxes implements found here.position
  have confined := @confined_execute 0 activity.activation
    ⟨.makeCell, activity.routine.boxed[index], 0⟩ (Nat.zero_le _) rfl
  obtain ⟨stepped, there⟩ := runs.step_confined proper (implements.boxes found) Opcode.noConfusion
    confined
  have one := Leads.one (here.remains (.script activity.callers))
  rw [seen, stepped] at one
  rw [List.drop_eq_getElem_cons more]
  refine ⟨1, _, Nat.one_pos, one, ?_⟩
  change activity.Matches (activity.goOn _
    (makeCell activity.activation activity.routine.boxed[index] env))
    (activity.arrive (3 * (index + 1))
      (makeCell activity.activation activity.routine.boxed[index] env))
  have there : activity.Runs pc
    (makeCell activity.activation activity.routine.boxed[index] env).2 := there
  generalize makeCell activity.activation activity.routine.boxed[index] env = outcome at there
  obtain ⟨fault | _, after⟩ := outcome
  · exact .ended (left_fail proper after fault)
  · exact matches_boxing implements there more

/-- An expression is evaluated further, or its value is used. -/
theorem imitates_evaluating (member : value ∈ activity.routine.flow.stretches)
    (used : activity.routine.code.UseAt activity.routine.flow value use tasks)
    (above : value.start < index) (below : index ≤ value.stop)
    (within : activity.Within (activity.routine.place index) machine) :
    activity.Imitates machine (activity.step (.evaluating value use tasks machine)) := by
  have bounds := implements.inside member
  unfold Activity.step
  simp only
  by_cases arrived : activity.IsOwn machine ∧
      machine.environment.position = activity.routine.place value.stop
  · rw [if_pos arrived]
    obtain ⟨same, runs⟩ := within.runs arrived.1
    have last : index = value.stop :=
      (Routine.place_inj (by omega) bounds.2).mp (runs.position.symm.trans arrived.2)
    subst last
    have here : machine = ⟨machine.environment.at_ (activity.routine.place value.stop),
        .script activity.callers⟩ := by
      rw [at_self runs.last]
      exact same
    generalize machine.environment = env at here runs
    subst here
    cases use with
    | sink sink =>
        obtain ⟨loops, stop, sinks, rest⟩ := used
        exact imitates_sink proper implements runs sinks rest
    | test whenTrue whenFalse =>
        obtain ⟨tested, target, jumps, holds, fails⟩ := used
        exact imitates_test proper implements runs tested jumps holds fails
    | return_ => exact imitates_return proper implements runs used
  · rw [if_neg arrived]
    have one := Leads.one (within.remains proper)
    by_cases own : activity.IsOwn machine
    · obtain ⟨same, runs⟩ := within.runs own
      have before : index < value.stop := by
        refine Nat.lt_of_le_of_ne below fun last => arrived ⟨own, ?_⟩
        rw [runs.position, last]
      have none : activity.event? machine = none := by
        unfold event?
        rw [if_pos own]
        exact eventAt_of_inside implements runs.position member above before
      obtain ⟨stop, ordered, -⟩ := implements.ordered
      have reached := runs.computes proper implements
        ((ordered.inside value member).1.keeps index (Nat.le_of_lt above) before)
        (Nat.le_of_lt above) before
      rw [none] at one
      rw [← same] at reached
      exact ⟨1, _, Nat.one_pos, one, matches_watch member used reached⟩
    · have none : activity.event? machine = none := by
        unfold event?
        rw [if_neg own]
      rw [none] at one
      exact ⟨1, _, Nat.one_pos, one, matches_watch member used
        ((within.step proper own).imp_left fun within => ⟨index, above, below, within⟩)⟩

/-- The machine follows each step of the structured run, unless the step only leaves less to do. -/
theorem Matches.step {progress : Progress α} (same : activity.Matches progress machine)
    (remains : ¬ activity.HasLeft machine) :
    activity.Imitates machine (activity.step progress) ∨
      (activity.step progress).1 = none ∧ activity.Matches (activity.step progress).2 machine ∧
        (activity.step progress).2.weight < progress.weight := by
  cases same with
  | boxing runs more => exact .inl (imitates_boxing proper implements runs more)
  | evaluating member used above below within =>
      exact .inl (imitates_evaluating proper implements member used above below within)
  | ended left => exact absurd left remains
  | doing runs rest =>
      cases rest with
      | ends reaches holds =>
          obtain ⟨steps, leads⟩ := leads_of_reaches proper implements runs reaches
          exact .inl ((imitates_finish proper implements runs holds).after leads)
      | run reaches layout part rest =>
          obtain ⟨steps, leads⟩ := leads_of_reaches proper implements runs reaches
          rcases imitates_enter proper implements runs layout part rest with
            followed | ⟨less, loops, same, others, fewer⟩
          · exact .inl (followed.after leads)
          · change _ ∨ (activity.enter _ _ _).1 = none ∧ activity.Matches (activity.enter _ _ _).2 _ ∧
              (activity.enter _ _ _).2.weight < _
            rw [same]
            exact .inr ⟨rfl, .doing runs (others.reach reaches), fewer⟩
      | @again _ _ _ clause _ _ _ _ _ _ _ reaches jumps loop rest =>
          obtain ⟨steps, leads⟩ := leads_of_reaches proper implements runs reaches
          have jumped := leads_of_jump proper implements runs jumps
          have next := loop.nextRound rest
          cases clause with
          | none =>
              exact .inl ⟨steps + 1, _, Nat.succ_pos _, leads.trans jumped, .doing runs next⟩
          | some value =>
              exact .inl ⟨steps + 1, _, Nat.succ_pos _, leads.trans jumped, .doing runs next⟩

end

/-! ## Whole runs -/

section

variable (proper : activity.Proper)

include proper

/-- The two runs come to their ends together. -/
theorem Matches.ended_of_left {progress : Progress α} (same : activity.Matches progress machine)
    (left : activity.HasLeft machine) : progress = .ended machine := by
  cases same with
  | boxing runs => exact absurd left ((runs.at_ _).remains _)
  | doing runs => exact absurd left ((runs.at_ _).remains _)
  | evaluating _ _ _ _ within => exact absurd left (within.remains proper)
  | ended => rfl

variable (implements : activity.routine.Implements body)

include implements

/-- The machine follows the structured run. -/
theorem Matches.run (steps : Nat) {progress : Progress α} (same : activity.Matches progress machine) :
    ∃ count last, activity.Leads count machine (activity.run steps progress).1 last ∧
      activity.Matches (activity.run steps progress).2 last := by
  induction steps generalizing progress machine with
  | zero => exact ⟨0, machine, .none _ _, same⟩
  | succ steps ih =>
      rw [run_succ]
      by_cases left : activity.HasLeft machine
      · obtain rfl := same.ended_of_left proper left
        exact ih same
      · rcases same.step proper implements left with
          ⟨count, middle, -, leads, next⟩ | ⟨silent, next, -⟩
        · obtain ⟨more, last, leads', final⟩ := ih next
          exact ⟨count + more, last, leads.trans leads', final⟩
        · obtain ⟨count, last, leads, final⟩ := ih next
          rw [silent]
          exact ⟨count, last, leads, final⟩

/-- And the structured run the machine. -/
theorem Matches.forward (steps : Nat) {progress : Progress α}
    (same : activity.Matches progress machine) (remains : activity.Remains steps machine) :
    ∃ count, (activity.run count progress).1 = activity.history steps machine ∧
      (activity.HasLeft (machine.forward steps) →
        (activity.run count progress).2 = .ended (machine.forward steps)) := by
  -- By induction on the steps of the machine, and for each of them on how much there is to do.
  induction steps using Nat.strongRecOn generalizing machine progress with
  | ind steps fewer =>
  induction weight : progress.weight using Nat.strongRecOn generalizing progress with
  | ind size lighter =>
      by_cases none : steps = 0
      · subst none
        exact ⟨0, rfl, same.ended_of_left proper⟩
      · have left : ¬ activity.HasLeft machine := remains 0 (Nat.pos_of_ne_zero none)
        rcases same.step proper implements left with
          ⟨done, middle, some, leads, next⟩ | ⟨silent, next, less⟩
        · by_cases within : done ≤ steps
          · obtain ⟨more, rfl⟩ := Nat.exists_eq_add_of_le within
            have remains' : activity.Remains more middle := by
              intro earlier before
              rw [← leads.forward, ← Machine.forward_add]
              exact remains _ (by omega)
            obtain ⟨count, events, ends⟩ := fewer more (by omega) next remains'
            refine ⟨count + 1, ?_, fun ended => ?_⟩
            · rw [run_succ, history_add, leads.history, leads.forward, events]
            · rw [Machine.forward_add, leads.forward] at ended ⊢
              exact ends ended
          · -- The machine is amid what it does for the step, of which it shows all or nothing.
            have split : activity.history steps machine ++
                activity.history (done - steps) (machine.forward steps) =
                  (activity.step progress).1.toList := by
              rw [← history_add, Nat.add_sub_cancel' (by omega), leads.history]
            have stays : ¬ activity.HasLeft (machine.forward steps) := leads.remains _ (by omega)
            generalize activity.history steps machine = shown at split
            cases shown with
            | nil => exact ⟨0, rfl, fun ended => absurd ended stays⟩
            | cons first rest =>
                refine ⟨1, ?_, fun ended => absurd ended stays⟩
                rw [run_succ]
                cases seen : (activity.step progress).1 with
                | none =>
                    rw [seen] at split
                    cases split
                | some event =>
                    rw [seen] at split
                    obtain ⟨rfl, nothing⟩ := List.cons.inj split
                    rw [(List.append_eq_nil_iff.mp nothing).1]
                    rfl
        · obtain ⟨count, events, ends⟩ := lighter _ (weight ▸ less) next rfl
          refine ⟨count + 1, ?_, ends⟩
          rw [run_succ, silent]
          exact events

end

/-- A compiled function runs like its body. -/
theorem Starts.agrees (starts : activity.Starts env)
    (implements : activity.routine.Implements body) : activity.Agrees env := by
  have proper : activity.Proper := ⟨starts.callers, starts.known⟩
  have runs : activity.Runs 0 env := by
    refine ⟨?_, starts.count, starts.loaded⟩
    rw [starts.last, ← starts.first]
  have same : activity.Matches (activity.start env)
      ⟨env, .script activity.callers⟩ := by
    have boxing := matches_boxing implements runs (Nat.zero_le _)
    rw [Nat.mul_zero, at_self runs.last] at boxing
    exact boxing
  constructor
  · intro events
    constructor
    · rintro ⟨steps, remains, rfl⟩
      obtain ⟨count, shown, -⟩ := same.forward proper implements steps remains
      exact ⟨count, shown⟩
    · rintro ⟨steps, rfl⟩
      obtain ⟨count, last, leads, -⟩ := same.run proper implements steps
      exact ⟨count, leads.remains, leads.history⟩
  · intro events last
    constructor
    · rintro ⟨steps, remains, rfl, rfl, left⟩
      obtain ⟨count, shown, ends⟩ := same.forward proper implements steps remains
      exact ⟨count, Prod.ext shown (ends left)⟩
    · rintro ⟨steps, ran⟩
      obtain ⟨count, final, leads, matched⟩ := same.run proper implements steps
      rw [ran] at leads matched
      cases matched with
      | ended left => exact ⟨count, leads.remains, leads.history, leads.forward, left⟩
  · intro steps remains
    obtain ⟨count, shown, -⟩ := same.forward proper implements steps remains
    rw [← shown]
    exact boxed_run activity count activity.routine.boxed activity.routine.flow env

end Activity

/-! ## Compiled functions -/

/-- The code of the innermost function, with the constants collected so far. -/
def Compilation.code (state : Compilation) : CompleteCode where
  assembler := state.assembler
  isNumber index value := state.numbers.places[value]? = some index
  isString index value := state.strings.places[value]? = some index
  resolves _ _ := True

/-- What constants stand for in some code is what they stand for in a compilation. -/
structure CompleteCode.Names (code : CompleteCode) (state : Compilation) : Prop where
  numbers : ∀ index value, code.isNumber index value → state.numbers.places[value]? = some index
  strings : ∀ index value, code.isString index value → state.strings.places[value]? = some index

namespace Compiling

open Compilation

variable {context : CompileContext} {before after : Compilation} {span : Span}
  {params declared : List (String × Span)} {body : List Stmt}

/-- A function that compiles is in the table, and implements its body. -/
theorem implements_definition
    (leads : Leads context (definition (.mk span params declared body)) before () after) :
    ∃ routine : Routine, routine.Implements body ∧ routine.code.Names after ∧
      after.functions[before.functions.size]? = some routine.function := by
  obtain ⟨-, named, params, ready, ahead, ended, inner, closes⟩ := leads_definition.mp leads
  have shape := shape_stmts body inner
  obtain ⟨function, finished, same⟩ := leads_closeFunction.mp closes
  have covered : Covered (ended.emit .retUndefined) (ended.emit .retUndefined).code :=
    ⟨⟨fun _ _ => id, fun _ _ => id, Int.le_refl _, fun _ _ => id, fun _ _ => id⟩, fun _ _ => trivial,
      Assembler.pending_size_le finished⟩
  obtain ⟨flow, layout⟩ := stmtsAt_of_parts params ahead shape covered
  -- What follows only adds to the code around the function.
  have adds : Adds ((ended.emit .retUndefined).closed before function) after := by
    rw [same]
    split
    · exact (Adds.refl _).emit _ _
    · exact (adds_pushCaptures _ _).1.emit _ _ _
  have known : before.functions.size < ended.functions.size := by
    have upTo := ((extends_declareParams params).1.trans (extends_declareAhead ahead).1).trans
      shape.extended
    have there := upTo.functions.1 before.functions.size default Array.getElem?_push_size
    exact (Array.getElem?_eq_some_iff.mp there).1
  refine ⟨⟨(ended.emit .retUndefined).code, (ended.emit .retUndefined).scope.captured, flow,
    function⟩, ⟨⟨_, _, _, finished⟩, ended.size, layout, covered.holds, size_emit _ _ _ _⟩,
      ⟨fun _ _ => adds.grows.numbers _ _, fun _ _ => adds.grows.strings _ _⟩, ?_⟩
  refine adds.functions.1 _ _ ?_
  change (ended.functions.setIfInBounds before.functions.size function)[_]? = _
  rw [Array.getElem?_setIfInBounds_self, if_pos known]

/-- Whatever the body of a function that compiles: from its entry on the machine does what the
structured run of the body does, with the same expressions evaluated and the same tests, until both
come to the same end or for ever. -/
theorem definition_agrees
    (leads : Leads context (definition (.mk span params declared body)) before () after) :
    ∃ routine : Routine, routine.Implements body ∧ routine.code.Names after ∧
      after.functions[before.functions.size]? = some routine.function ∧
        ∀ (α : Type) (activity : Activity α) (env : Environment),
          activity.routine = routine → activity.Starts env →
            activity.Agrees env := by
  obtain ⟨routine, implements, names, found⟩ := implements_definition leads
  refine ⟨routine, implements, names, found, fun α activity env same starts => ?_⟩
  exact starts.agrees (same ▸ implements)

namespace LoopSample

/-- The body of a function whose parameter is captured: a loop that stores a closure, and goes on. -/
def trees : List Stmt :=
  [.whileLoop (.name "a" default) (.block
    [.expression (.assignName "a" default none
        (.function (.mk default [] [] [.return_ (some (.name "a" default))]))),
      .continueLoop default])]

def limits : CompileContext := ⟨{}, fun _ => false⟩

theorem compiles : ∃ after,
    Leads limits (definition (.mk default [("a", default)] [] trees)) .start () after := by
  have done : (definition (.mk default [("a", default)] [] trees) limits .start).toOption.isSome =
      true := by cbv
  obtain ⟨⟨_, after⟩, ran⟩ := Option.isSome_iff_exists.mp done
  refine ⟨after, ?_⟩
  unfold Leads
  cases outcome : definition (.mk default [("a", default)] [] trees) limits .start with
  | error fault =>
      rw [outcome] at ran
      cases ran
  | ok pair =>
      rw [outcome] at ran
      exact congrArg Except.ok (Option.some.inj ran)

/-- The frame of a function that has been entered. -/
def frame : Frame := { unit := 0, index := 1, pc := 0, base := 1, closure := none }

def callers : Callers Unit := .host { frames := 0, depth := 0, resume := fun _ => .done () }

end LoopSample

/-- The sample compiles, and runs like its body once it has been entered. -/
theorem definition_agrees_loop : ∃ (activity : Activity Unit) (env : Environment),
    activity.routine.Implements LoopSample.trees ∧ activity.Starts env ∧
      activity.Agrees env := by
  obtain ⟨after, compiles⟩ := LoopSample.compiles
  obtain ⟨routine, implements, -, found, agrees⟩ := definition_agrees compiles
  let program : Program := { numbers := #[], strings := #[], functions := after.functions }
  let activity : Activity Unit := ⟨routine, LoopSample.frame, program, LoopSample.callers, 1⟩
  let env : Environment :=
    { Environment.new {} with
      stack := #[.function ⟨0, 1⟩, .undefined]
      frames := #[LoopSample.frame]
      units := #[{ program, slots := #[] }] }
  have loaded : env.programs = #[program] := by simp [env, programs]
  have starts : activity.Starts env := ⟨rfl, rfl, rfl, Nat.one_pos, by rw [loaded]; rfl, found⟩
  exact ⟨activity, env, implements, starts, agrees Unit activity env rfl starts⟩

theorem spelled_agrees {names : List String} {phrases : List Phrase} {tokens : List Token}
    {limit fuel depth : Nat} {rest : TokenStream}
    (spells : Phrase.SpellsFunction names phrases tokens)
    (leads : Leads context
      (definition (Parser.definition limit fuel depth span (rest.behind tokens)).1) before () after) :
    ∃ params declared trees, ∃ routine : Routine,
      Parser.definition limit fuel depth span (rest.behind tokens) =
          (.mk span params declared trees, rest) ∧
        params.map (·.1) = names ∧ Phrase.DenotesAll phrases trees ∧
        routine.Implements trees ∧ routine.code.Names after ∧
        after.functions[before.functions.size]? = some routine.function ∧
          ∀ (α : Type) (activity : Activity α) (env : Environment),
            activity.routine = routine → activity.Starts env →
              activity.Agrees env := by
  rcases Parser.reads_function spells limit fuel depth span rest with
    ⟨params, declared, trees, read, named, denotes⟩ | failing
  · rw [read] at leads
    obtain ⟨routine, implements, names, found⟩ := implements_definition leads
    refine ⟨params, declared, trees, routine, read, named, denotes, implements, names, found, ?_⟩
    intro α activity env same starts
    exact starts.agrees (same ▸ implements)
  · exact absurd leads (failing _ _ _ _)

end Compiling

end PocketScript
