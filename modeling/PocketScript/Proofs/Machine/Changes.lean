import PocketScript.Proofs.Environment.Answers

/-!
# What a step can change

A step of a machine executes an instruction or answers a request, and apart from that it changes
nothing but the heap and the stacks. So a relation between environments that bears with such changes,
and passes from one change to the next, holds from step to step when instructions and answers keep to
it (`Machine.changes_step`).
-/

namespace PocketScript

namespace Environment

/-- The environment behind the action is in a relation to the one in front of it. -/
def ChangesBy (related : Environment → Environment → Prop) {α : Type} (action : Action α) : Prop :=
  ∀ env, related env (action env).2

/-- A relation that holds when one change follows another, and of all changes to the heap and the
stacks. -/
structure Tolerant (related : Environment → Environment → Prop) : Prop where
  trans : ∀ {before middle after}, related before middle → related middle after →
    related before after
  aside : ∀ (env : Environment) heap stack frames,
    related env { env with heap, stack, frames }

namespace Tolerant

variable {α β : Type} {related : Environment → Environment → Prop} (tolerant : Tolerant related)

include tolerant

theorem refl (env : Environment) : related env env :=
  tolerant.aside env env.heap env.stack env.frames

theorem bind {first : Action α} {next : α → Action β} (one : ChangesBy related first)
    (two : ∀ value, ChangesBy related (next value)) : ChangesBy related (first >>= next) := by
  intro env
  have here := one env
  rw [action_bind]
  generalize first env = outcome at here
  obtain ⟨fault | value, middle⟩ := outcome
  · exact here
  · exact tolerant.trans here (two value middle)

theorem tryCatch {first : Action α} {handle : Fault → Action α} (one : ChangesBy related first)
    (two : ∀ fault, ChangesBy related (handle fault)) :
    ChangesBy related (tryCatch first handle) := by
  intro env
  have here := one env
  rw [action_tryCatch]
  generalize first env = outcome at here
  obtain ⟨fault | value, middle⟩ := outcome
  · exact tolerant.trans here (two fault middle)
  · exact here

theorem push (value : Value) : ChangesBy related (push value) := by
  intro env
  rw [push_eq]
  split <;> exact tolerant.aside env _ _ _

theorem pop (floor : Nat) : ChangesBy related (pop floor) := by
  intro env
  obtain ⟨-, same⟩ | ⟨value, -, -, same⟩ := pop_cases floor env
  · rw [same]
    exact tolerant.refl env
  · rw [same]
    exact tolerant.aside env _ _ _

/-- What instructions change, when it is known how they access globals. -/
theorem stepwise {activation : Activation}
    (namedSlot : ∀ name, ChangesBy related (namedSlot activation name))
    (setGlobal : ∀ slot value, ChangesBy related (setGlobal slot value : Action Unit))
    (defineGlobal : ∀ name value, ChangesBy related (defineGlobal name value : Action Unit)) :
    Stepwise activation (ChangesBy related) where
  bind := tolerant.bind
  tryCatch := tolerant.tryCatch
  blind {_ action} blind env := by
    have same : (action env).2 =
        { env with heap := (action env).2.heap } := blind.after env
    rw [same]
    exact tolerant.aside env _ _ _
  view _ := tolerant.refl
  push := tolerant.push
  requireOperands count env := by
    obtain ⟨-, same⟩ | ⟨-, same⟩ := requireOperands_cases activation.floor count env
    · rw [same]
      exact tolerant.refl env
    · rw [same]
      exact tolerant.refl env
  peek below env := by
    obtain ⟨-, same⟩ | ⟨value, -, -, same⟩ := peek_cases activation.floor below env
    · rw [same]
      exact tolerant.refl env
    · rw [same]
      exact tolerant.refl env
  pop := tolerant.pop _
  popMany count env := by
    obtain ⟨-, same⟩ | ⟨-, same⟩ := popMany_cases activation.floor count env
    · rw [same]
      exact tolerant.refl env
    · rw [same]
      exact tolerant.aside env _ _ _
  slot place _ _ env := by
    cases there : env.stack[place]? with
    | none =>
        rw [slot_eq_error there]
        exact tolerant.refl env
    | some value =>
        rw [slot_eq_ok there]
        exact tolerant.refl env
  replaceSlot place value _ _ env := by
    obtain ⟨-, same⟩ | ⟨old, -, same⟩ := replaceSlot_cases place value env
    · rw [same]
      exact tolerant.refl env
    · rw [same]
      exact tolerant.aside env _ _ _
  namedSlot := namedSlot
  setGlobal := setGlobal
  defineGlobal := defineGlobal
  setPosition pc env := tolerant.aside env _ _ _

/-- Leaving a function changes nothing but the stacks and the heap. -/
theorem leaveFunction (base : Nat) (result : Value) :
    ChangesBy related (leaveFunction base result) := by
  intro env
  rw [leaveFunction_eq, push_eq]
  split <;> exact tolerant.aside env _ _ _

theorem leaveNative (place : Nat) (result : Except Fault Value) :
    ChangesBy related (leaveNative place result) := by
  intro env
  rw [leaveNative_eq]
  cases result with
  | ok value =>
      simp only
      rw [push_eq]
      split <;> exact tolerant.aside env _ _ _
  | error fault => exact tolerant.aside env _ _ _

/-- And so does entering one. -/
theorem enterFunction (target : FunctionRef) (closure : Option Handle) (place : Nat) :
    ChangesBy related (enterFunction target closure place) := by
  intro env
  obtain ⟨fault, failed⟩ | ⟨function, -, entered⟩ :=
    enterFunction_cases target closure place env
  · rw [failed]
    exact tolerant.refl env
  · rw [entered]
    exact tolerant.aside env _ _ _

theorem enterCall (argCount : Nat) : ChangesBy related (enterCall argCount) := by
  intro env
  rw [enterCall_eq]
  split
  · exact tolerant.refl env
  · simp only
    split
    · exact tolerant.enterFunction _ none _ env
    · split
      · exact tolerant.refl env
      · exact tolerant.enterFunction _ (some _) _ env
    · split <;> exact tolerant.refl env
    · exact tolerant.refl env
    · exact tolerant.refl env

theorem enterHostCall (callee : Value) (args : List Value) :
    ChangesBy related (enterHostCall callee args) := by
  intro env
  rw [enterHostCall_eq]
  split
  · split
    · exact tolerant.refl env
    · exact tolerant.trans (tolerant.aside env _ _ env.frames)
        (tolerant.enterCall args.length _)
  · exact tolerant.refl env

/-- The next instruction, as soon as it is known of all instructions of the functions that may run. -/
theorem executeNext
    (execute : ∀ activation instr env,
      env.programs[activation.unit]? = some activation.program →
        related env (execute activation instr env).2) :
    ChangesBy related executeNext := by
  intro env
  obtain ⟨fault, failed⟩ | ⟨frame, function, program, instr, fetches, executed⟩ :=
    executeNext_cases env
  · rw [failed]
    exact tolerant.refl env
  · rw [executed]
    have moved : related env (env.at_ (frame.pc + instr.size)) :=
      tolerant.aside env _ _ _
    exact tolerant.trans moved (execute _ instr _ fetches.loaded)

/-- The next instruction, when changes of the globals and of what is noted about them do not matter
either. -/
theorem executeNext_of_globals
    (globals : ∀ (env : Environment) globals units,
      related env { env with globals, units }) :
    ChangesBy related Environment.executeNext := by
  apply tolerant.executeNext
  intro activation instr env _
  have bound : ∀ slot value, ChangesBy related (setGlobal slot value : Action Unit) :=
    fun slot value env => tolerant.trans (globals env _ env.units)
      (tolerant.aside _ _ _ _)
  have steps : Stepwise activation (ChangesBy related) := by
    refine tolerant.stepwise (fun name env => ?_) bound fun name value env => ?_
    · obtain ⟨units, same⟩ := namedSlot_changes activation name env
      rw [same]
      exact globals env env.globals units
    · rw [action_lift]
      cases known : env.globalSlot? name with
      | some slot =>
          rw [defineGlobal_known value known]
          exact bound slot value env
      | none =>
          rw [defineGlobal_new value known]
          exact globals env _ env.units
  exact steps.execute (tolerant.leaveFunction activation.base) instr env

end Tolerant

end Environment

namespace Machine

open Environment

variable {α : Type} {related : Environment → Environment → Prop} (tolerant : Tolerant related)

include tolerant

theorem changes_fail (env : Environment) (callers : Callers α) (fault : Fault) :
    related env (fail env callers fault).environment :=
  tolerant.aside env _ _ _

theorem changes_afterEntering {env : Environment}
    {outcome : Except Fault EnteredCall × Environment} (entered : related env outcome.2)
    (callers : Callers α) : related env (afterEntering outcome callers).environment := by
  obtain ⟨fault | entered', after⟩ := outcome
  · exact tolerant.trans entered (changes_fail tolerant after callers fault)
  · cases entered' <;> exact entered

/-- A step changes the environment as the instruction or the answer does. -/
theorem changes_step
    (answers : ∀ request env, related env (answer request env).2)
    (executes : ChangesBy related executeNext) (machine : Machine α) :
    related machine.environment machine.step.environment := by
  obtain ⟨env, control⟩ := machine
  cases control with
  | host program =>
      cases program with
      | done result => exact tolerant.refl env
      | ask request next => exact answers request env
      | call callee args next =>
          exact changes_afterEntering tolerant (tolerant.enterHostCall callee args env) _
  | native program place callers =>
      cases program with
      | done result =>
          have left := tolerant.leaveNative place result env
          change related env
            (stepNative env (.done result) place callers).environment
          unfold stepNative
          simp only
          generalize Environment.leaveNative place result env = outcome at left
          obtain ⟨fault | _, after⟩ := outcome
          · exact tolerant.trans left (changes_fail tolerant after callers fault)
          · exact left
      | ask request next => exact answers request env
      | call callee args next =>
          exact changes_afterEntering tolerant (tolerant.enterHostCall callee args env) _
  | script callers =>
      change related env (stepScript env callers).environment
      unfold stepScript
      split
      · have next := executes env
        generalize Environment.executeNext env = outcome at next
        obtain ⟨fault | _ | argCount, after⟩ := outcome
        · exact tolerant.trans next (changes_fail tolerant after callers fault)
        · exact next
        · exact tolerant.trans next
            (changes_afterEntering tolerant (tolerant.enterCall argCount after) callers)
      · have ended := tolerant.pop callers.depth env
        generalize Environment.pop callers.depth env = outcome at ended
        obtain ⟨fault | value, after⟩ := outcome
        · exact tolerant.trans ended (changes_fail tolerant after callers fault)
        · exact ended

omit tolerant in
/-- The configuration never changes. -/
theorem config_step (machine : Machine α) :
    machine.step.environment.config = machine.environment.config := by
  have tolerant : Tolerant fun before after => after.config = before.config :=
    { trans := fun one two => two.trans one, aside := fun _ _ _ _ => rfl }
  exact changes_step tolerant (fun request env => (backstage_answer request env).config)
    (tolerant.executeNext_of_globals fun _ _ _ => rfl) machine

end Machine

end PocketScript
