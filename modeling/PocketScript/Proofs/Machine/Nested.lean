import PocketScript.Proofs.Machine.Calls
import PocketScript.Proofs.Machine.Structured

/-!
# A function while others run

While a function has called another one, its frame stays as it is, however natives and scripts call
each other in there. What runs then either comes back to the function, or makes it fail
(`Activity.Within.step`).
-/

namespace PocketScript

open Environment

variable {α : Type} {env before after : Environment} {count : Nat} {target callers : Callers α}

namespace Environment

theorem preserves_enterCall {argCount : Nat} (below : count ≤ env.frames.size) :
    Preserves count env (enterCall argCount env).2 := by
  by_cases few : env.stack.size < argCount + 1
  · rw [enterCall_eq, if_pos few]
    exact preserves_refl env
  · have enters := @enters_enterCall env argCount (Nat.not_lt.mp few)
    generalize enterCall argCount env = outcome at enters
    cases enters with
    | script frame function after frames base known height units globals =>
        refine ⟨fun index inside => ?_, fun unit program loaded => ?_⟩
        · rw [frames, Array.getElem?_push, if_neg (by omega)]
        · unfold programs at loaded ⊢
          rw [units]
          exact loaded
    | native program => exact preserves_refl env
    | failed fault => exact preserves_refl env

theorem preserves_enterHostCall {callee : Value} {args : List Value}
    (below : count ≤ env.frames.size) :
    Preserves count env (enterHostCall callee args env).2 := by
  rw [enterHostCall_eq]
  split
  · split
    · exact preserves_refl env
    · have shared : Preserves count env (env.sharing (callee :: args)) :=
        preserves_of_eq rfl rfl
      exact shared.trans (preserves_enterCall below)
  · exact preserves_refl env

end Environment

/-- Of those who wait for a call, some are `target`; the others wait for calls that were begun when
there were so many frames at least. -/
inductive Callers.Above (count : Nat) (target : Callers α) : Callers α → Prop
  | here : Above count target target
  | native (caller : Caller (Except Fault Value)) (place : Nat) (outer : Callers α)
      (high : count ≤ caller.frames) (above : Above count target outer) :
      Above count target (.native caller place outer)

namespace Activity

variable {activity : Activity α} {machine : Machine α} {pc : Nat}

/-- The function runs for the callers in a loaded program. -/
structure Proper (activity : Activity α) : Prop where
  callers : activity.callers.frames < activity.count
  known : activity.program.function? activity.frame.index = some activity.routine.function

/-- The frame of the function is at a position. -/
structure InPlace (activity : Activity α) (pc : Nat) (env : Environment) : Prop where
  there : env.frames[activity.count - 1]? = some { activity.frame with pc }
  loaded : env.programs[activity.frame.unit]? = some activity.program

/-- The function has not ended, and its frame is at a position. -/
structure Within (activity : Activity α) (pc : Nat) (machine : Machine α) : Prop where
  callers : ∃ callers, Machine.callers? machine.control = some callers ∧
    Callers.Above activity.count activity.callers callers
  inPlace : activity.InPlace pc machine.environment

theorem InPlace.mono (proper : activity.Proper) (inPlace : activity.InPlace pc before)
    (preserves : Preserves activity.count before after) : activity.InPlace pc after := by
  have callers := proper.callers
  exact ⟨(preserves.frames _ (by omega)).trans inPlace.there, preserves.programs _ _ inPlace.loaded⟩

theorem InPlace.le (proper : activity.Proper) (inPlace : activity.InPlace pc env) :
    activity.count ≤ env.frames.size := by
  have callers := proper.callers
  have inside := (Array.getElem?_eq_some_iff.mp inPlace.there).1
  omega

theorem Within.remains (proper : activity.Proper) (within : activity.Within pc machine) :
    ¬ activity.HasLeft machine :=
  Nat.not_lt.mpr (within.inPlace.le proper)

section

variable (proper : activity.Proper)
  (above : Callers.Above activity.count activity.callers callers)

include proper above

/-- A call inside the function fails, or the function does. -/
theorem within_fail (inPlace : activity.InPlace pc env) (fault : Fault) :
    activity.Within pc (Machine.fail env callers fault) ∨
      activity.HasLeft (Machine.fail env callers fault) := by
  cases above with
  | here =>
      refine .inr ?_
      have callers := proper.callers
      change (env.frames.shrink activity.callers.frames).size < activity.count
      rw [Array.size_shrink]
      omega
  | native caller place outer high above =>
      exact .inl ⟨⟨outer, rfl, above⟩, inPlace.mono proper (preserves_unwind high _ _)⟩

theorem within_afterEntering {outcome : Except Fault EnteredCall × Environment}
    (inPlace : activity.InPlace pc outcome.2) :
    activity.Within pc (Machine.afterEntering outcome callers) ∨
      activity.HasLeft (Machine.afterEntering outcome callers) := by
  obtain ⟨fault | entered, after⟩ := outcome
  · exact within_fail proper above inPlace fault
  · cases entered with
    | script => exact .inl ⟨⟨callers, rfl, above⟩, inPlace⟩
    | native program place => exact .inl ⟨⟨callers, rfl, above⟩, inPlace⟩

theorem within_stepNative (inPlace : activity.InPlace pc env)
    (program : Host (Except Fault Value)) (place : Nat) :
    activity.Within pc (Machine.stepNative env program place callers) ∨
      activity.HasLeft (Machine.stepNative env program place callers) := by
  cases program with
  | done result =>
      have left := inPlace.mono proper (preserves_leaveNative place result env)
      unfold Machine.stepNative
      simp only
      generalize leaveNative place result env = outcome at left
      obtain ⟨fault | _, after⟩ := outcome
      · exact within_fail proper above left fault
      · exact .inl ⟨⟨callers, rfl, above⟩, left⟩
  | ask request next =>
      exact .inl ⟨⟨callers, rfl, above⟩,
        inPlace.mono proper ((backstage_answer request env).preserves _)⟩
  | call callee args next =>
      have inside := inPlace.le proper
      exact within_afterEntering proper (.native (Machine.waiting env next) place callers
        inside above) (inPlace.mono proper (preserves_enterHostCall inside))

/-- The topmost frame is that of another function. -/
theorem within_stepScript (inPlace : activity.InPlace pc env)
    (other : ¬ activity.IsOwn ⟨env, .script callers⟩) :
    activity.Within pc (Machine.stepScript env callers) ∨
      activity.HasLeft (Machine.stepScript env callers) := by
  have inside := inPlace.le proper
  have more := proper.callers
  unfold Machine.stepScript
  split
  · rename_i running
    have below : activity.count < env.frames.size := by
      cases above with
      | here =>
          have differs : env.frames.size ≠ activity.count := fun same =>
            other ⟨more, same⟩
          omega
      | native caller place outer high above => exact Nat.lt_of_le_of_lt high running
    have executed := inPlace.mono proper (preserves_executeNext below)
    generalize executeNext env = outcome at executed
    obtain ⟨fault | argCount, after⟩ := outcome
    · exact within_fail proper above executed fault
    · cases argCount with
      | none => exact .inl ⟨⟨callers, rfl, above⟩, executed⟩
      | some argCount =>
          exact within_afterEntering proper above
            (executed.mono proper (preserves_enterCall (executed.le proper)))
  · rename_i ended
    have popped := inPlace.mono proper (preserves_pop callers.depth env)
    generalize pop callers.depth env = outcome at popped
    obtain ⟨fault | value, after⟩ := outcome
    · exact within_fail proper above popped fault
    · cases above with
      | here => omega
      | native caller place outer high above => exact .inl ⟨⟨outer, rfl, above⟩, popped⟩

end

/-- A step of whatever the function has called. -/
theorem Within.step (proper : activity.Proper) (within : activity.Within pc machine)
    (other : ¬ activity.IsOwn machine) :
    activity.Within pc machine.step ∨ activity.HasLeft machine.step := by
  obtain ⟨env, control⟩ := machine
  obtain ⟨⟨callers, waiting, above⟩, inPlace⟩ := within
  cases control with
  | host program => cases waiting
  | native program place callers =>
      obtain rfl := Option.some.inj waiting
      exact within_stepNative proper above inPlace program place
  | script callers =>
      obtain rfl := Option.some.inj waiting
      exact within_stepScript proper above inPlace other

end Activity

end PocketScript
