import PocketScript.Proofs.Machine.Sound

/-!
# Where faults arise

A step of a machine may raise a fault, which ends the innermost call (`Machine.raised?`). In a sound
machine whose functions are trusted, the fault never means that code is malformed, and the stack is
only ever too small for a call that is about to be entered (`Machine.Sound.raised`): a function that
has been entered has room for all that it does.
-/

namespace PocketScript

open Environment Environment.Ground

variable {α : Type} {terms : Terms} {post : α → List Reference → Prop} {env : Environment}
  {fault : Fault}

namespace Environment

/-- The function of a program that a call with so many arguments comes to. -/
def called? (env : Environment) (argCount : Nat) : Option FunctionRef :=
  match env.stack[env.stack.size - (argCount + 1)]? with
  | some (.function target) => some target
  | some (.closure block) => env.heap.closureTarget? block
  | _ => none

/-- Behind the callee there is no room for the variables of the function that is called, and for all
operands that it may ever have. -/
def LacksRoom (env : Environment) (argCount : Nat) : Prop :=
  ∃ target function, env.called? argCount = some target ∧
    env.function? target = some function ∧
      env.config.stackSize < env.stack.size - (argCount + 1) + 1 +
        function.varCount.toNat + function.stackHigh.toNat

theorem lacksRoom_of_enterFunction {target : FunctionRef} {closure : Option Handle} {place : Nat}
    (overflows : (enterFunction target closure place env).1 = .error .stackOverflow) :
    ∃ function, env.function? target = some function ∧
      env.config.stackSize < place + 1 + function.varCount.toNat +
        function.stackHigh.toNat := by
  rw [enterFunction_eq] at overflows
  split at overflows
  · cases known : env.function? target with
    | none =>
        rw [known] at overflows
        cases overflows
    | some function =>
        rw [known] at overflows
        simp only at overflows
        split at overflows
        · cases overflows
        · split at overflows
          · exact ⟨function, rfl, ‹_›⟩
          · cases overflows
  · cases overflows

/-- The stack is too small for a call only when it is too small for all that the function needs. -/
theorem lacksRoom_of_enterCall {argCount : Nat}
    (overflows : (enterCall argCount env).1 = .error .stackOverflow) :
    env.LacksRoom argCount := by
  have entering : ∀ {target : FunctionRef} {closure : Option Handle},
      env.called? argCount = some target →
      (enterFunction target closure (env.stack.size - (argCount + 1)) env).1.map
        (fun _ => EnteredCall.script) = .error .stackOverflow → env.LacksRoom argCount := by
    intro target closure called failed
    have overflows : (enterFunction target closure (env.stack.size - (argCount + 1))
        env).1 = .error .stackOverflow := by
      generalize (enterFunction target closure _ env).1 = outcome at failed
      cases outcome with
      | ok _ => cases failed
      | error fault =>
          injection failed with failed
          rw [failed]
    obtain ⟨function, known, few⟩ := lacksRoom_of_enterFunction overflows
    exact ⟨target, function, called, known, few⟩
  rw [enterCall_eq] at overflows
  split at overflows
  · cases overflows
  · unfold called? at entering
    simp only at overflows
    split at overflows
    · rename_i there
      rw [there] at entering
      exact entering rfl overflows
    · rename_i there
      rw [there] at entering
      split at overflows
      · cases overflows
      · rename_i known
        exact entering known overflows
    · split at overflows <;> cases overflows
    · cases overflows
    · cases overflows

/-- A call from outside finds no room for its arguments, or its function finds none. -/
def HostLacksRoom (env : Environment) (callee : Value) (args : List Value) : Prop :=
  env.config.stackSize < env.stack.size + (args.length + 1) ∨
    (env.sharing (callee :: args)).LacksRoom args.length

theorem lacksRoom_of_enterHostCall {callee : Value} {args : List Value}
    (overflows : (enterHostCall callee args env).1 = .error .stackOverflow) :
    env.HostLacksRoom callee args := by
  rw [enterHostCall_eq] at overflows
  split at overflows
  · split at overflows
    · exact .inl ‹_›
    · exact .inr (lacksRoom_of_enterCall overflows)
  · cases overflows

end Environment

/-- The fault of an outcome. -/
def faultOf {β : Type} : Except Fault β → Option Fault
  | .ok _ => none
  | .error fault => some fault

theorem faultOf_eq_some {β : Type} {outcome : Except Fault β} (failed : faultOf outcome = some fault) :
    outcome = .error fault := by
  cases outcome with
  | ok _ => cases failed
  | error other =>
      injection failed with failed
      rw [failed]

namespace Machine

/-- The fault that the next step raises: a call is not entered, an instruction fails, or a native
function has failed. -/
def raised? (machine : Machine α) : Option Fault :=
  match machine with
  | ⟨env, .host (.call callee args _)⟩ =>
      faultOf (enterHostCall callee args env).1
  | ⟨env, .native (.call callee args _) _ _⟩ =>
      faultOf (enterHostCall callee args env).1
  | ⟨env, .native (.done result) place _⟩ => faultOf (leaveNative place result env).1
  | ⟨env, .script callers⟩ =>
      if callers.frames < env.frames.size then
        match executeNext env with
        | (.ok none, _) => none
        | (.ok (some argCount), env) => faultOf (enterCall argCount env).1
        | (.error fault, _) => some fault
      else faultOf (pop callers.depth env).1
  | _ => none

/-- The next step is about to enter a call for which the stack is too small. -/
def LacksRoom (machine : Machine α) : Prop :=
  match machine with
  | ⟨env, .host (.call callee args _)⟩ => env.HostLacksRoom callee args
  | ⟨env, .native (.call callee args _) _ _⟩ => env.HostLacksRoom callee args
  | ⟨env, .script _⟩ => ∃ argCount after,
      executeNext env = (.ok (some argCount), after) ∧ after.LacksRoom argCount
  | _ => False

/-- Among trusted functions, and when native ones report only ordinary faults, every fault that is
raised is fit to be. -/
theorem Sound.raised {machine : Machine α} (sound : machine.Sound terms post)
    (trusted : terms.trusted)
    (ordinary : ∀ fault, terms.reports fault → fault.isOrdinary = true)
    (raised : machine.raised? = some fault) :
    fault.isInternal = false ∧ (fault = .stackOverflow → machine.LacksRoom) := by
  have never : ∀ {fault : Fault}, fault.isOrdinary = true → fault.isInternal = false ∧
      (fault = .stackOverflow → machine.LacksRoom) := by
    intro fault proper
    refine ⟨Fault.isInternal_of_isOrdinary proper, fun same => ?_⟩
    rw [same] at proper
    cases proper
  cases sound with
  | host env program owned holds careful =>
      cases program with
      | call callee args next =>
          have failed := faultOf_eq_some raised
          refine ⟨(enters_fromHost holds careful).admits fault failed trusted, ?_⟩
          rintro rfl
          exact lacksRoom_of_enterHostCall failed
      | _ => cases raised
  | native env program callers frames lower args callee owned references layers room holds
      careful =>
      cases program with
      | done result =>
          have failed := faultOf_eq_some raised
          exact never (ordinary _ ((sound_leaveNative layers room holds careful).1 fault failed))
      | ask request next => cases raised
      | call callee args next =>
          have failed := faultOf_eq_some raised
          refine ⟨(enters_fromNative layers room holds careful).admits fault failed trusted, ?_⟩
          rintro rfl
          exact lacksRoom_of_enterHostCall failed
  | running env callers frames frame lower locals operands callee keeps references function
      listing level cells layers stands occupies placed holds =>
      have more : callers.frames < env.frames.size := by
        have few := layers.frames_le
        rw [holds.count, List.length_append, List.length_singleton]
        omega
      have executes := executes_next layers stands occupies placed holds
      unfold raised? at raised
      simp only at raised
      rw [if_pos more] at raised
      cases next : executeNext env with
      | mk outcome after =>
          rw [next] at executes raised
          cases outcome with
          | error other =>
              obtain rfl : other = fault := Option.some.inj raised
              exact never (executes.1 trusted)
          | ok count =>
              cases count with
              | none => cases raised
              | some argCount =>
                  have failed := faultOf_eq_some raised
                  refine ⟨executes.admits fault failed trusted, ?_⟩
                  rintro rfl
                  exact ⟨argCount, after, next, lacksRoom_of_enterCall failed⟩
  | ended env callers frames lower value references layers count holds =>
      have no : ¬ callers.frames < env.frames.size := by
        rw [holds.count, count]
        exact Nat.lt_irrefl _
      obtain ⟨after, popped, -⟩ := sound_ended layers count holds
      unfold raised? at raised
      simp only at raised
      rw [if_neg no, popped] at raised
      cases raised

end Machine

end PocketScript
