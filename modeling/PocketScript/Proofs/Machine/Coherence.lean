import Mathlib.Logic.Relation
import PocketScript.Proofs.Environment.Bindings
import PocketScript.Proofs.Environment.Spending
import PocketScript.Proofs.Machine.Changes

/-!
# Units share their globals

Whatever happens to an environment, in whatever order runs go on, programs are loaded, globals are
bound and native functions are registered: every name keeps its slot, and what units have noted is
what the map of all globals tells. So the instructions of all units access one and the same map by name
(`Environment.globals_shared`).
-/

namespace PocketScript

open Environment

namespace Environment

/-- Something happens to an environment. A host, or a native function, may bind globals, load programs
and register functions between any two steps of a run, and it may do whatever leaves the globals and
the units alone. -/
inductive Turn : Environment → Environment → Prop
  | step {α : Type} (machine : Machine α) : Turn machine.environment machine.step.environment
  | load (env : Environment) (program : Program) :
      Turn env (load program env).2
  | define (env : Environment) (name : String) (value : Value) :
      Turn env (defineGlobal name value env).2
  | register (env : Environment) (name : String) (run : NativeFunction) :
      Turn env (register name run env).2
  | aside (before after : Environment) (units : after.units = before.units)
      (globals : after.globals = before.globals) : Turn before after

/-- All this may happen any number of times. -/
def Becomes : Environment → Environment → Prop := Relation.ReflTransGen Turn

variable {before after env : Environment}

/-- A run is made of steps. -/
theorem Becomes.forward {α : Type} (steps : Nat) (machine : Machine α) :
    Becomes machine.environment (machine.forward steps).environment := by
  induction steps generalizing machine with
  | zero => exact .refl
  | succ steps ih =>
      rw [Machine.forward]
      split
      · exact .refl
      · exact .head (.step machine) (ih machine.step)

/-! ## Every turn is faithful -/

theorem tolerant_faithful : Tolerant Faithful where
  trans := Faithful.trans
  aside _ _ _ _ := .of_same rfl rfl

theorem faithful_execute (activation : Activation) (instr : Instruction)
    (env : Environment)
    (program : env.programs[activation.unit]? = some activation.program) :
    Faithful env (execute activation instr env).2 := by
  -- Notes are right as long as the function's program is that of its unit, which it stays.
  have tolerant : Tolerant fun before after =>
      before.programs[activation.unit]? = some activation.program → Faithful before after :=
    { trans := fun one two program =>
        (one program).trans (two ((one program).programs _ _ program))
      aside := fun _ _ _ _ _ => .of_same rfl rfl }
  have steps := tolerant.stepwise (fun _ env => faithful_namedSlot env)
    (fun slot value env _ => faithful_setGlobal slot value env)
    (fun name value env _ => faithful_defineGlobal name value env)
  exact steps.execute (tolerant.leaveFunction _) instr env program

theorem faithful_load (program : Program) (env : Environment) :
    Faithful env (load program env).2 := by
  obtain ⟨fault, log, failed⟩ | ⟨-, done⟩ := load_cases program env
  · rw [failed]
    exact .of_same rfl rfl
  · rw [done]
    have backstage := backstage_loaded env (env.codeUsed + program.footprint) program
    refine ⟨.of_eq rfl, backstage.programs, fun coherent => ⟨⟨rfl, ?_⟩, ?_, coherent.distinct⟩⟩
    · intro unit loaded index slot there noted
      rw [Array.getElem?_push] at there
      split at there
      · cases there
        rw [Array.getElem?_replicate] at noted
        split at noted <;> cases noted
      · exact coherent.noted.slots unit loaded index slot there noted
    · intro unit loaded there
      rw [Array.getElem?_push] at there
      split at there
      · cases there
        exact Array.size_replicate
      · exact coherent.fits unit loaded there

theorem faithful_answer (request : Request) (env : Environment) :
    Faithful env (answer request env).2 := by
  by_cases loads : ∃ program, request = .load program
  · obtain ⟨program, rfl⟩ := loads
    exact faithful_load program env
  · have contained : Contained env (answer request env).2 :=
      contained_answer request fun program same => loads ⟨program, same⟩
    exact .of_same contained.units (backstage_answer request env).globals

/-- A registered function is bound to its name. -/
theorem register_changes (name : String) (run : NativeFunction) (env : Environment) :
    ∃ id natives log, (register name run env).2 =
      (defineGlobal name (.native id) { env with natives, log }).2 := by
  unfold register
  rw [update_bind, update_view]
  cases env.nativeId? name with
  | some id => exact ⟨_, _, _, rfl⟩
  | none => exact ⟨_, _, _, rfl⟩

theorem Turn.faithful (turn : Turn before after) : Faithful before after := by
  cases turn with
  | step machine =>
      exact Machine.changes_step tolerant_faithful faithful_answer
        (tolerant_faithful.executeNext faithful_execute) machine
  | load _ program => exact faithful_load program before
  | define _ name value => exact faithful_defineGlobal name value before
  | register _ name run =>
      obtain ⟨id, natives, log, same⟩ := register_changes name run before
      rw [same]
      have changed : Faithful before { before with natives, log } := .of_same rfl rfl
      exact changed.trans (faithful_defineGlobal name _ _)
  | aside _ _ units globals => exact .of_same units globals

theorem Becomes.faithful (becomes : Becomes before after) : Faithful before after := by
  induction becomes with
  | refl => exact .of_same rfl rfl
  | tail _ turn ih => exact ih.trans turn.faithful

/-! ## Whatever happens -/

/-- In whatever order runs go on, programs are loaded, globals are bound and functions are registered,
a slot that a unit has noted for a string constant is that of the global of this name; the names of
globals and the slots below their number belong to each other one by one; and whatever happens later,
they do as they did. So an instruction that accesses a global by the notes of its unit does what
looking up the name in the map of all globals does, but for further notes: it gives or replaces the
binding of this name, and leaves all others alone. A declaration changes no binding that there is. -/
theorem globals_shared {config : Config} (reached : Becomes (new config) env) :
    (∀ (unit : Nat) loaded (index : Nat) text, env.units[unit]? = some loaded →
      loaded.program.strings[index]? = some text → ∃ noted, loaded.slots[index]? = some noted ∧
        ∀ slot, noted = some slot → env.globalSlot? text = some slot) ∧
    ((∀ name slot, env.globalSlot? name = some slot → slot < env.globals.size) ∧
      (∀ slot < env.globals.size, ∃ name, env.globalSlot? name = some slot) ∧
      ∀ one two slot, env.globalSlot? one = some slot →
        env.globalSlot? two = some slot → one = two) ∧
    (∀ after, Becomes env after → ∀ name slot,
      env.globalSlot? name = some slot → after.globalSlot? name = some slot) ∧
    ∀ (activation : Activation) (name b : UInt16) (text : String),
      env.programs[activation.unit]? = some activation.program →
      activation.program.string? name = some text →
      (∀ access : GlobalAccess,
        SameButNotes (execute activation ⟨access.op, name, b⟩ env)
          (access.byName activation.floor text env) ∧
        ∀ other, (execute activation ⟨access.op, name, b⟩ env).2.global? other =
          if other = text then access.binding activation.floor text env
          else env.global? other) ∧
      ∀ other value, env.global? other = some value →
        (execute activation ⟨.declareGlobal, name, b⟩ env).2.global? other = some value := by
  have coherent : env.Coherent := reached.faithful.coherent (coherent_new config)
  refine ⟨?_, ⟨?_, ?_, ?_⟩, ?_, ?_⟩
  · intro unit loaded index text there named
    obtain ⟨inside, -⟩ := Array.getElem?_eq_some_iff.mp named
    rw [← coherent.fits unit loaded there] at inside
    refine ⟨loaded.slots[index], Array.getElem?_eq_getElem inside, fun slot noted => ?_⟩
    obtain ⟨text', named', known⟩ := coherent.noted.slots unit loaded index slot there
      ((Array.getElem?_eq_getElem inside).trans (congrArg some noted))
    rw [named] at named'
    cases named'
    exact known
  · intro name slot known
    exact globalSlot?_lt known
  · intro slot inside
    exact ⟨_, coherent.globalSlot? (Array.getElem?_eq_getElem inside)⟩
  · intro one two slot first second
    exact globalSlot?_inj first second
  · intro after becomes
    exact becomes.faithful.globals
  · intro activation name b text program named
    have accessed := fun access => global?_access coherent.noted program named access b
    refine ⟨fun access => ⟨execute_access coherent.noted program named access b, accessed access⟩, ?_⟩
    intro other value bound
    rw [show (Opcode.declareGlobal) = GlobalAccess.declare.op from rfl, accessed]
    split
    · rename_i here
      change some ((env.global? text).getD .undefined) = _
      rw [← here, bound]
      rfl
    · exact bound

/-- A program that declares a global and gives its value. -/
def declaring : Program where
  numbers := #[]
  strings := #["x"]
  functions := #[
    { varCount := 0, argCount := 0, stackHigh := 1, isClosure := false
      code := #[Opcode.declareGlobal.toByte, 0, 0, Opcode.loadGlobal.toByte, 0, 0,
        Opcode.ret.toByte] }]

/-- The program is loaded and run, loaded once more, and its global is bound to another value. -/
def twice : Environment :=
  (defineGlobal "x" (.boolean true) (load declaring (Machine.forward 8
    ⟨(load declaring (new {})).2, .host (.call (.function ⟨0, 0⟩) [] .done)⟩).environment).2).2

theorem becomes_twice : Becomes (new {}) twice :=
  .tail (.tail (.trans (.single (.load _ declaring)) (Becomes.forward 8 ⟨_, _⟩))
    (.load _ declaring)) (.define _ "x" (.boolean true))

/-- One of the two units has noted the slot, the other has not; both find the new value. -/
theorem globals_shared_twice :
    (Becomes (new {}) twice ∧ twice.notedSlot? 0 0 = some 0 ∧ twice.notedSlot? 1 0 = none) ∧
      ∀ unit < 2, (execute ⟨unit, declaring, 0, 0, none⟩ ⟨.loadGlobal, 0, 0⟩ twice).1 = .ok () ∧
        (execute ⟨unit, declaring, 0, 0, none⟩ ⟨.loadGlobal, 0, 0⟩ twice).2.stack =
          #[.boolean true] := by
  refine ⟨⟨becomes_twice, by cbv, by cbv⟩, fun unit member => ?_⟩
  obtain ⟨-, -, -, accesses⟩ := globals_shared becomes_twice
  have loaded : twice.programs[unit]? = some declaring := by
    obtain rfl | rfl : unit = 0 ∨ unit = 1 := by omega
    · cbv
    · cbv
  obtain ⟨⟨outcome, units, -, after⟩, -⟩ :=
    (accesses ⟨unit, declaring, 0, 0, none⟩ 0 0 "x" loaded rfl).1 .load
  have found : (loadByName "x" twice).1 = .ok () := by cbv
  have pushed : (loadByName "x" twice).2.stack = #[.boolean true] := by cbv
  exact ⟨outcome.trans found, (congrArg Environment.stack after).trans pushed⟩

end Environment

end PocketScript
