import PocketScript.Proofs.Environment.Convention
import PocketScript.Proofs.Machine.Changes
import PocketScript.Proofs.Machine.Nested

/-!
# A function from its call to its return

While a function runs, and whatever it calls, its frame and its callee stay where they are, and so does
what was below them when it was entered (`Invocation.Lives`). When it returns, the callee and all that
lies above it is given up, but for the result, which is found in the callee's place
(`Invocation.Returns`). Together with what entering a function does, this is the calling convention
(`Environment.calling_convention`).
-/

namespace PocketScript

open Environment

variable {α : Type} {env before middle after : Environment} {pc : Nat}

/-! ## What happens above a frame -/

section Upward

variable {base count : Nat}

/-- Something happens above a callee and its frame: everything below the variables is as it was, so
are the frames up to this one and the loaded programs, and other frames have their callees above. -/
structure Environment.Upward (base count : Nat) (before after : Environment) : Prop where
  stack : ∀ index, index < base → after.stack[index]? = before.stack[index]?
  preserves : Preserves count before after
  bases : ∀ (index : Nat) (frame : Frame), after.frames[index]? = some frame →
    (∃ earlier : Frame, before.frames[index]? = some earlier ∧ earlier.base = frame.base) ∨
      base < frame.base

namespace Environment.Upward

/-- What lies below may stay step by step. -/
theorem trans (one : Upward base count before middle) (two : Upward base count middle after) :
    Upward base count before after where
  stack index below := (two.stack index below).trans (one.stack index below)
  preserves := one.preserves.trans two.preserves
  bases index frame there := by
    rcases two.bases index frame there with ⟨earlier, found, same⟩ | above
    · rcases one.bases index earlier found with ⟨first, found, same'⟩ | above
      · exact .inl ⟨first, found, same'.trans same⟩
      · exact .inr (same ▸ above)
    · exact .inr above

/-- An action does not reach what lies below the variables, and the frames stay. -/
theorem of_aloof {action : Action α} (aloof : AloofAt base env action)
    (enough : base ≤ env.stack.size)
    (frames : (action env).2.frames = env.frames)
    (programs : Preserves count env (action env).2) :
    Upward base count env (action env).2 where
  stack _ below := aloof.below enough below
  preserves := programs
  bases _ frame there := .inl ⟨frame, frames ▸ there, rfl⟩

theorem of_backstage (backstage : Backstage before after) : Upward base count before after where
  stack _ _ := by rw [backstage.stack]
  preserves := backstage.preserves count
  bases _ frame there := .inl ⟨frame, backstage.frames ▸ there, rfl⟩

/-- Only what lies above is taken away by a fault. -/
theorem of_unwind {frames depth : Nat} (above : count ≤ frames) (high : base ≤ depth)
    (env : Environment) :
    Upward base count env (unwind frames depth env).2 where
  stack _ below := getElem?_shrink (Nat.lt_of_lt_of_le below high)
  preserves := preserves_unwind above depth env
  bases index frame there := by
    have inside : index < frames := by
      have less := (Array.getElem?_eq_some_iff.mp there).1
      change index < (env.frames.shrink frames).size at less
      rw [Array.size_shrink] at less
      omega
    exact .inl ⟨frame, (getElem?_shrink inside).symm.trans there, rfl⟩

/-- The position of a frame above may change. -/
theorem of_at (below : count < env.frames.size) (pc : Nat) :
    Upward base count env (env.at_ pc) where
  stack _ _ := rfl
  preserves := preserves_at below pc
  bases index frame there := by
    rw [frames_at, Array.getElem?_modify] at there
    split at there
    · obtain ⟨earlier, found, rfl⟩ := Option.map_eq_some_iff.mp there
      exact .inl ⟨earlier, found, rfl⟩
    · exact .inl ⟨frame, there, rfl⟩

/-- An instruction of a function whose callee lies above the variables. -/
theorem of_execute {activation : Activation} (above : base < activation.base)
    (instr : Instruction) (enough : base ≤ env.stack.size)
    (below : count < env.frames.size) :
    Upward base count env (execute activation instr env).2 where
  stack index low := by
    have steps : Stepwise activation (Aloof base) := stepwise_aloof (Nat.le_of_lt above)
    have aloof := steps.execute
      (fun result => aloof_leaveFunction (Nat.le_sub_one_of_lt above) result) instr
    exact (aloof env enough).below enough low
  preserves := preserves_execute activation instr below
  bases index frame there := by
    obtain ⟨-, reframes⟩ := reframes_execute activation instr env
    cases reframes with
    | stays same => exact .inl ⟨frame, same ▸ there, rfl⟩
    | jumps _ same =>
        rw [same] at there
        exact (of_at below _).bases index frame there
    | leaves _ same =>
        rw [same, Array.getElem?_pop] at there
        split at there
        · exact .inl ⟨frame, there, rfl⟩
        · cases there

theorem of_executeNext {frame : Frame} (last : env.frames.back? = some frame)
    (above : base < frame.base) (enough : base ≤ env.stack.size)
    (below : count < env.frames.size) :
    Upward base count env (executeNext env).2 := by
  obtain ⟨fault, failed⟩ | ⟨running, function, program, instr, fetches, executed⟩ :=
    executeNext_cases env
  · rw [failed]
    exact of_backstage (.refl env)
  · obtain rfl : frame = running := Option.some.inj (last.symm.trans fetches.last)
    have moved := Nat.lt_of_lt_of_eq below (size_at env (frame.pc + instr.size)).symm
    have above : base < (activationOf frame function program).base := above
    have ran : Upward base count (env.at_ (frame.pc + instr.size)) _ :=
      of_execute above instr enough moved
    rw [executed]
    exact (of_at below _).trans ran

/-- A call takes its callee and its arguments from above. -/
theorem of_enterCall {argCount : Nat} (enough : base + (argCount + 1) ≤ env.stack.size)
    (below : count ≤ env.frames.size) :
    Upward base count env (enterCall argCount env).2 where
  stack index low := (aloofAt_enterCall enough).below (by omega) low
  preserves := preserves_enterCall below
  bases := by
    have enters := @enters_enterCall env argCount (by omega)
    generalize enterCall argCount env = outcome at enters
    intro index frame there
    cases enters with
    | script entered function after frames place =>
        rw [frames, Array.getElem?_push] at there
        split at there
        · obtain rfl := Option.some.inj there
          exact .inr (by omega)
        · exact .inl ⟨frame, there, rfl⟩
    | native program => exact .inl ⟨frame, there, rfl⟩
    | failed fault => exact .inl ⟨frame, there, rfl⟩

/-- And puts its result there. -/
theorem of_leaveNative {place : Nat} (above : base ≤ place) (result : Except Fault Value)
    (enough : base ≤ env.stack.size) :
    Upward base count env (leaveNative place result env).2 := by
  have aloof : Aloof base (leaveNative place result) := by
    refine aloof_bind (aloof_releaseFrom above) fun _ => ?_
    cases result with
    | ok value => exact aloof_push value
    | error fault => exact aloof_throw fault
  refine of_aloof (aloof env enough) enough ?_ (preserves_leaveNative place result env)
  rw [leaveNative_eq]
  cases result with
  | error fault => rfl
  | ok value =>
      simp only
      rw [push_eq]
      split <;> rfl

/-- A value is taken from above. -/
theorem of_pop {depth : Nat} (above : base ≤ depth) (enough : base ≤ env.stack.size) :
    Upward base count env (pop depth env).2 := by
  have confined : Confined 0 (-1) (pop depth) := confined_pop (Nat.zero_le _)
  exact of_aloof (aloof_pop above env enough) enough (confined.frames_eq env)
    (preserves_pop depth env)

end Environment.Upward

end Upward

/-! ## A function in its frame -/

/-- A call of a function: the environment in front of it, where the callee lies on the stack between
other values and the arguments, and those who wait. -/
structure Invocation (α : Type) where
  origin : Environment
  below : List Value
  callee : Value
  function : FunctionDef
  target : FunctionRef
  closure : Option Handle
  callers : Callers α

namespace Invocation

/-- The frame of the function. -/
def frame (call : Invocation α) : Frame := entered call.target call.closure call.below.length

/-- The function has not ended, and is at a position: its frame lies on the frames from before the
call, and its callee on the values from before it. -/
structure Lives (call : Invocation α) (pc : Nat) (env : Environment) : Prop where
  frames : call.origin.frames.toList ++ [{ call.frame with pc }] <+: env.frames.toList
  stack : call.below ++ [call.callee] <+: env.stack.toList

/-- In a step the function returns. Its result is the operand on top of the stack, or undefined. The
callee and what lies between it and the result are given up, and the result lies in the place of the
callee. -/
inductive Returns (call : Invocation α) (before after : Machine α) : Prop
  | intro (pc : Nat) (instr : Instruction) (above given : List Value) (result : Value)
      (last : before.environment.frames.toList =
        call.origin.frames.toList ++ [{ call.frame with pc }])
      (decodes : call.function.code.decode pc = .ok instr)
      (gives : instr.op = .ret ∧ given = [result] ∨
        instr.op = .retUndefined ∧ given = [] ∧ result = .undefined)
      (stack : before.environment.stack.toList =
        call.below ++ call.callee :: (above ++ given))
      (env : after.environment = { before.environment with
        stack := (call.below ++ [result]).toArray
        heap := before.environment.heap.releaseAll (call.callee :: above)
        frames := call.origin.frames })
      (control : after.control = .script call.callers)

/-- The function is given up with a fault, of which those who wait learn. -/
def Fails (call : Invocation α) (machine : Machine α) : Prop :=
  ∃ fault, machine.control = call.callers.resume (.error fault)

/-- For so many steps the function lives; or it ends with one of them, and then it returns, and the
accounts are kept, or it fails. -/
def Runs (call : Invocation α) (steps : Nat) (machine : Machine α) : Prop :=
  (∀ taken, taken ≤ steps → ∃ pc, call.Lives pc (machine.forward taken).environment) ∨
    ∃ taken, taken < steps ∧
      (∀ earlier, earlier ≤ taken → ∃ pc, call.Lives pc (machine.forward earlier).environment) ∧
        (call.Returns (machine.forward taken) (machine.forward (taken + 1)) ∧
            KeepsAccounts (machine.forward taken).environment
              (machine.forward (taken + 1)).environment ∨
          call.Fails (machine.forward (taken + 1)))

/-- What is given up no longer counts, and the result does. -/
theorem Returns.keepsAccounts {call : Invocation α} {before after : Machine α}
    (returns : call.Returns before after) :
    KeepsAccounts before.environment after.environment := by
  obtain ⟨pc, instr, above, given, result, -, -, gives, stack, env, -⟩ := returns
  rw [env]
  exact @keepsAccounts_left _ call.below (call.callee :: above) given result call.origin.frames stack
    (gives.imp And.right And.right)

/-- The function runs for the callers. -/
structure Proper (call : Invocation α) : Prop where
  callers : call.callers.frames ≤ call.origin.frames.size
  /-- There is room for the result. -/
  room : call.below.length < call.origin.config.stackSize

/-- The function is a known one, and all other frames above its own have their callees above its
callee. -/
structure Carries (call : Invocation α) (pc : Nat) (env : Environment) : Prop
    extends call.Lives pc env where
  upper : ∀ (index : Nat) (frame : Frame), call.origin.frames.size < index →
    env.frames[index]? = some frame → call.frame.base < frame.base
  known : env.function? call.target = some call.function

/-- Of those who wait for a call, some wait for the function; the others wait for calls that were begun
inside it. -/
inductive Atop (call : Invocation α) : Callers α → Prop
  | here : Atop call call.callers
  | native (caller : Caller (Except Fault Value)) (place : Nat) (outer : Callers α)
      (frames : call.origin.frames.size < caller.frames) (depth : call.frame.base ≤ caller.depth)
      (above : call.frame.base ≤ place) (atop : Atop call outer) :
      Atop call (.native caller place outer)

/-- The function, or something that it has called, is at work. -/
inductive Inside (call : Invocation α) : Machine α → Prop
  | script (env : Environment) (callers : Callers α) (pc : Nat) (atop : call.Atop callers)
      (carries : call.Carries pc env) : Inside call ⟨env, .script callers⟩
  | native (env : Environment) (program : Host (Except Fault Value)) (place : Nat)
      (callers : Callers α) (pc : Nat) (above : call.frame.base ≤ place)
      (atop : call.Atop callers) (carries : call.Carries pc env) :
      Inside call ⟨env, .native program place callers⟩

variable {call : Invocation α} {callers : Callers α} {machine : Machine α}

/-- What an array starts with depends on its lowest elements only. -/
theorem starts_of_agree {β : Type} {lower : List β} {values values' : Array β}
    (starts : lower <+: values.toList)
    (agree : ∀ index, index < lower.length → values'[index]? = values[index]?) :
    lower <+: values'.toList := by
  rw [List.prefix_iff_getElem?] at starts ⊢
  intro index below
  rw [Array.getElem?_toList, agree index below, ← Array.getElem?_toList]
  exact starts index below

namespace Carries

theorem enough (carries : call.Carries pc env) :
    call.frame.base ≤ env.stack.size := by
  have length := carries.stack.length_le
  rw [List.length_append] at length
  exact length

theorem count (carries : call.Carries pc env) :
    call.origin.frames.size < env.frames.size := by
  have length := carries.frames.length_le
  rw [List.length_append] at length
  exact length

/-- What leaves all that lies below carries the call on. -/
theorem upward (carries : call.Carries pc before)
    (upward : Upward call.frame.base (call.origin.frames.size + 1) before after) :
    call.Carries pc after where
  frames := by
    refine starts_of_agree carries.frames fun index below => upward.preserves.frames index ?_
    rw [List.length_append] at below
    exact below
  stack := by
    refine starts_of_agree carries.stack fun index below => upward.stack index ?_
    rw [List.length_append] at below
    exact below
  upper index frame beyond there := by
    rcases upward.bases index frame there with ⟨earlier, found, same⟩ | above
    · exact same ▸ carries.upper index earlier beyond found
    · exact above
  known := by
    have known := carries.known
    rw [function?_eq] at known ⊢
    obtain ⟨program, loaded, code⟩ := Option.bind_eq_some_iff.mp known
    rw [upward.preserves.programs _ _ loaded]
    exact code

/-- The frame is the topmost one. -/
theorem own (carries : call.Carries pc env)
    (top : env.frames.size = call.origin.frames.size + 1) :
    env.frames.toList = call.origin.frames.toList ++ [{ call.frame with pc }] := by
  refine (carries.frames.eq_of_length ?_).symm
  rw [List.length_append, List.length_singleton, Array.length_toList]
  exact top.symm

/-- The function goes on in its frame. -/
theorem moved (carries : call.Carries pc before) {position : Nat}
    (frames : after.frames.toList = call.origin.frames.toList ++ [{ call.frame with pc := position }])
    (stack : call.below ++ [call.callee] <+: after.stack.toList)
    (programs : after.programs = before.programs) : call.Carries position after where
  frames := ⟨[], (List.append_nil _).trans frames.symm⟩
  stack := stack
  upper index frame beyond there := by
    have inside := (Array.getElem?_eq_some_iff.mp there).1
    rw [← Array.length_toList, frames, List.length_append, Array.length_toList] at inside
    exact absurd inside (Nat.not_lt.mpr beyond)
  known := (function?_of_programs programs _).trans carries.known

end Carries

/-! ## Steps -/

theorem Atop.outermost (atop : call.Atop callers)
    (few : callers.frames ≤ call.origin.frames.size) : callers = call.callers := by
  cases atop with
  | here => rfl
  | native caller place outer frames => exact absurd few (Nat.not_le.mpr frames)

/-- What a step of the function, or inside it, comes to. -/
def Goes (call : Invocation α) (before after : Machine α) : Prop :=
  call.Inside after ∨ call.Returns before after ∨ call.Fails after

section

variable (atop : call.Atop callers)

include atop

theorem inside_fail (carries : call.Carries pc env) (fault : Fault) :
    call.Goes machine (Machine.fail env callers fault) := by
  cases atop with
  | here => exact .inr (.inr ⟨fault, rfl⟩)
  | native caller place outer frames depth above atop =>
      exact .inl (.native _ _ place outer pc above atop
        (carries.upward (.of_unwind frames depth env)))

/-- A call is entered from the function, or from inside it. -/
theorem inside_enterCall {argCount : Nat} (carries : call.Carries pc env)
    (enough : call.frame.base + (argCount + 1) ≤ env.stack.size) :
    call.Goes machine (Machine.afterEntering (enterCall argCount env) callers) := by
  have entered := carries.upward (.of_enterCall enough carries.count)
  have enters := @enters_enterCall env argCount (by omega)
  generalize enterCall argCount env = outcome at entered enters
  cases enters with
  | script frame function after => exact .inl (.script after callers pc atop entered)
  | native program => exact .inl (.native env program _ callers pc (by omega) atop entered)
  | failed fault => exact inside_fail atop entered fault

/-- A native function is at work in a call. -/
theorem inside_stepNative (carries : call.Carries pc env) {place : Nat}
    (above : call.frame.base ≤ place) (program : Host (Except Fault Value)) :
    call.Goes machine (Machine.stepNative env program place callers) := by
  cases program with
  | done result =>
      have left := carries.upward (.of_leaveNative above result carries.enough)
      unfold Machine.stepNative
      simp only
      generalize leaveNative place result env = outcome at left
      obtain ⟨fault | _, after⟩ := outcome
      · exact inside_fail atop left fault
      · exact .inl (.script after callers pc atop left)
  | ask request next =>
      have answered := carries.upward (.of_backstage (backstage_answer request env))
      exact .inl (.native _ _ place callers pc above atop answered)
  | call callee args next =>
      have waits : call.Atop (.native (Machine.waiting env next) place callers) :=
        .native _ place callers carries.count carries.enough above atop
      unfold Machine.stepNative
      simp only
      rw [enterHostCall_eq]
      split
      · split
        · exact inside_fail waits carries _
        · have shared : call.Carries pc (env.sharing (callee :: args)) := by
            refine { carries with stack := ?_ }
            change _ <+: (env.stack ++ (callee :: args).toArray).toList
            rw [Array.toList_append]
            exact carries.stack.trans (List.prefix_append _ _)
          refine inside_enterCall waits shared ?_
          have enough := carries.enough
          rw [size_sharing, List.length_cons]
          omega
      · exact inside_fail waits carries _

/-- The next instruction is executed, and the function's frame is still there. -/
theorem inside_executed {frame : Frame} (last : env.frames.back? = some frame)
    (above : call.frame.base ≤ frame.base) (more : callers.frames < env.frames.size)
    (carries : call.Carries pc (executeNext env).2) :
    call.Goes machine (Machine.stepScript env callers) := by
  have calls : ∀ argCount after, executeNext env = (.ok (some argCount), after) →
      call.frame.base + (argCount + 1) ≤ after.stack.size := fun argCount after ran =>
    Nat.le_trans (Nat.add_le_add_right above _) (executeNext_call last ran)
  unfold Machine.stepScript
  rw [if_pos more]
  generalize executeNext env = outcome at carries calls
  obtain ⟨fault | argCount, after⟩ := outcome
  · exact inside_fail atop carries fault
  · cases argCount with
    | none => exact .inl (.script after callers pc atop carries)
    | some argCount => exact inside_enterCall atop carries (calls argCount after rfl)

/-- Another frame is the topmost one. -/
theorem inside_other (carries : call.Carries pc env)
    (other : env.frames.size ≠ call.origin.frames.size + 1)
    (more : callers.frames < env.frames.size) :
    call.Goes machine (Machine.stepScript env callers) := by
  have count := carries.count
  obtain ⟨frame, last⟩ : ∃ frame, env.frames.back? = some frame :=
    ⟨_, Array.back?_eq_getElem?.trans (Array.getElem?_eq_getElem (by omega))⟩
  have above : call.frame.base < frame.base :=
    carries.upper _ frame (by omega) (Array.back?_eq_getElem?.symm.trans last)
  have executed := carries.upward (.of_executeNext last above carries.enough (by omega))
  exact inside_executed atop last (Nat.le_of_lt above) more executed

/-- A call inside the function has ended. -/
theorem inside_ended (proper : call.Proper) (carries : call.Carries pc env)
    (ended : ¬ callers.frames < env.frames.size) :
    call.Goes machine (Machine.stepScript env callers) := by
  unfold Machine.stepScript
  rw [if_neg ended]
  cases atop with
  | here =>
      have few := proper.callers
      have count := carries.count
      omega
  | native caller place outer frames depth above atop =>
      have popped : call.Carries pc (pop (Callers.native caller place outer).depth env).2 :=
        carries.upward (.of_pop depth carries.enough)
      generalize pop (Callers.native caller place outer).depth env = outcome at popped ⊢
      obtain ⟨fault | value, after⟩ := outcome
      · exact inside_fail (.native caller place outer frames depth above atop) popped fault
      · exact .inl (.native after _ place outer pc above atop popped)

end

/-! ## The function's own instructions -/

section Own

variable (carries : call.Carries pc env)
  (top : env.frames.size = call.origin.frames.size + 1)

include carries top

theorem Carries.back?_own : env.frames.back? = some { call.frame with pc } := by
  rw [← Array.getLast?_toList, carries.own top, List.getLast?_concat]

/-- The result takes the place of the callee. -/
theorem Carries.leaveFunction_own (above : List Value)
    (room : call.below.length < env.config.stackSize) (position : Nat) (result : Value) :
    leaveFunction call.frame.base result
        { env.at_ position with
          stack := (call.below ++ call.callee :: above).toArray } =
      (.ok (), { env with
        stack := (call.below ++ [result]).toArray
        heap := env.heap.releaseAll (call.callee :: above)
        frames := call.origin.frames }) := by
  have frames : (env.at_ position).frames.pop = call.origin.frames := by
    apply Array.toList_inj.mp
    rw [Array.toList_pop, frames_at, toList_modify_last (carries.own top), List.dropLast_concat]
  have left := @leaveFunction_of { env.at_ position with
    stack := (call.below ++ call.callee :: above).toArray } call.below (call.callee :: above) rfl result
    room
  refine left.trans ?_
  rw [← frames]
  rfl

/-- The function is left with the result that its last instruction finds. -/
theorem Carries.execute_leaving_own {instr : Instruction} (program : Program) (position : Nat)
    (room : call.below.length < env.config.stackSize)
    (leaves : instr.op.leaves = true) :
    (∃ fault after, execute (activationOf { call.frame with pc } call.function program) instr
        (env.at_ position) = (.error fault, after)) ∨
      ∃ above given result,
        (instr.op = .ret ∧ given = [result] ∨
          instr.op = .retUndefined ∧ given = [] ∧ result = .undefined) ∧
        env.stack.toList = call.below ++ call.callee :: (above ++ given) ∧
        execute (activationOf { call.frame with pc } call.function program) instr
            (env.at_ position) =
          (.ok (), { env with
            stack := (call.below ++ [result]).toArray
            heap := env.heap.releaseAll (call.callee :: above)
            frames := call.origin.frames }) := by
  have left := carries.leaveFunction_own top
  obtain ⟨op, a, b⟩ := instr
  cases op with
  | ret =>
      rw [execute_ret, action_bind]
      obtain ⟨-, failed⟩ | ⟨result, high, there, popped⟩ :=
        pop_cases (activationOf { call.frame with pc } call.function program).floor
          (env.at_ position)
      · rw [failed]
        exact .inl ⟨_, _, rfl⟩
      · obtain ⟨rest, same⟩ := Array.back?_eq_some_iff.mp there
        have parted : env.stack.toList = rest.toList ++ [result] :=
          (congrArg Array.toList same).trans Array.toList_push
        obtain ⟨above, lower⟩ : call.below ++ [call.callee] <+: rest.toList := by
          have whole := carries.stack
          rw [parted] at whole
          refine List.prefix_of_prefix_length_le whole (List.prefix_append _ _) ?_
          rw [same, Array.size_push] at high
          rw [List.length_append, Array.length_toList]
          exact Nat.le_trans (Nat.le_add_right _ _) (Nat.le_of_lt_succ high)
        rw [List.append_assoc, List.singleton_append] at lower
        have bottom : (env.at_ position).stack.pop =
            (call.below ++ call.callee :: above).toArray := by
          rw [same, Array.pop_push]
          exact Array.toList_inj.mp lower.symm
        refine .inr ⟨above, [result], result, .inl ⟨rfl, rfl⟩, ?_, ?_⟩
        · rw [parted, ← lower, List.append_assoc, List.cons_append]
        · rw [popped, bottom]
          exact left above room position result
  | retUndefined =>
      obtain ⟨above, whole⟩ := carries.stack
      rw [List.append_assoc, List.singleton_append] at whole
      have same : env.stack = (call.below ++ call.callee :: above).toArray :=
        Array.toList_inj.mp whole.symm
      have unmoved : env.at_ position = { env.at_ position with
          stack := (call.below ++ call.callee :: above).toArray } := by
        rw [← same]
        rfl
      refine .inr ⟨above, [], .undefined, .inr ⟨rfl, rfl, rfl⟩, ?_, ?_⟩
      · rw [List.append_nil]
        exact whole.symm
      · rw [execute_retUndefined, unmoved]
        exact left above room position .undefined
  | _ => cases leaves

/-- A step of the function in its own frame. -/
theorem Carries.goes_own (proper : call.Proper) (config : env.config = call.origin.config) :
    call.Goes ⟨env, .script call.callers⟩
      (Machine.stepScript env call.callers) := by
  have more : call.callers.frames < env.frames.size :=
    Nat.lt_of_le_of_lt proper.callers carries.count
  have last := carries.back?_own top
  obtain ⟨fault, failed⟩ | ⟨frame, function, program, instr, fetches, executed⟩ :=
    executeNext_cases env
  · unfold Machine.stepScript
    rw [if_pos more, failed]
    exact inside_fail .here carries fault
  obtain rfl : { call.frame with pc } = frame := Option.some.inj (last.symm.trans fetches.last)
  obtain rfl : call.function = function := by
    have known : env.function? call.target = some function := by
      rw [function?_eq]
      exact Option.bind_eq_some_iff.mpr ⟨program, fetches.loaded, fetches.code⟩
    exact Option.some.inj (carries.known.symm.trans known)
  cases leaves : instr.op.leaves with
  | false =>
      have steps : Stepwise (activationOf { call.frame with pc } call.function program)
          (Aloof call.frame.base) := stepwise_aloof (Nat.le_refl _)
      have aloof := steps.execute_staying leaves (env.at_ (pc + instr.size))
        carries.enough
      obtain ⟨position, -, frames⟩ := frames_executed (carries.own top)
        (activationOf { call.frame with pc } call.function program) leaves
      have kept : call.Carries position (executeNext env).2 := by
        rw [executed]
        refine carries.moved frames ?_ (reframes_execute _ _ _).1
        refine starts_of_agree carries.stack fun index below => ?_
        rw [List.length_append] at below
        exact aloof.below carries.enough below
      exact inside_executed .here last (Nat.le_refl _) more kept
  | true =>
      have room : call.below.length < env.config.stackSize := config ▸ proper.room
      unfold Machine.stepScript
      rw [if_pos more, executed]
      obtain ⟨fault, after, failed⟩ | ⟨above, given, result, gives, stack, left⟩ :=
        carries.execute_leaving_own top program (pc + instr.size) room leaves
      · rw [failed]
        exact .inr (.inr ⟨fault, rfl⟩)
      · have noCall : instr.op ≠ .call := by
          intro call
          rw [call] at leaves
          cases leaves
        rw [left]
        simp only [Except.map, if_neg noCall]
        exact .inr (.inl (.intro pc instr above given result (carries.own top)
          fetches.decodes gives stack rfl rfl))

end Own

/-! ## Runs -/

/-- Inside the call its frame is there. -/
theorem Inside.lives (inside : call.Inside machine) : ∃ pc, call.Lives pc machine.environment := by
  cases inside with
  | script env callers pc atop carries => exact ⟨pc, carries.toLives⟩
  | native env program place callers pc above atop carries => exact ⟨pc, carries.toLives⟩

/-- Each step goes on inside, or ends the call. -/
theorem Inside.step (proper : call.Proper) (inside : call.Inside machine)
    (config : machine.environment.config = call.origin.config) :
    call.Goes machine machine.step := by
  cases inside with
  | native env program place callers pc above atop carries =>
      exact inside_stepNative atop carries above program
  | script env callers pc atop carries =>
      by_cases more : callers.frames < env.frames.size
      · by_cases top : env.frames.size = call.origin.frames.size + 1
        · obtain rfl := atop.outermost (Nat.le_of_lt_succ (Nat.lt_of_lt_of_eq more top))
          exact carries.goes_own top proper config
        · exact inside_other atop carries top more
      · exact inside_ended atop proper carries more

/-- And so do as many steps as one likes. -/
theorem Inside.runs (proper : call.Proper) (inside : call.Inside machine)
    (config : machine.environment.config = call.origin.config) (steps : Nat) :
    call.Runs steps machine := by
  have same : ∀ taken, (machine.forward taken).environment.config = call.origin.config := by
    intro taken
    induction taken with
    | zero => exact config
    | succ taken ih =>
        rw [Machine.forward_succ]
        exact (Machine.config_step _).trans ih
  -- The induction carries that the function is still at work, or has ended before.
  have runs : (∀ taken, taken ≤ steps → call.Inside (machine.forward taken)) ∨
      ∃ taken, taken < steps ∧ (∀ earlier, earlier ≤ taken → call.Inside (machine.forward earlier)) ∧
        (call.Returns (machine.forward taken) (machine.forward (taken + 1)) ∨
          call.Fails (machine.forward (taken + 1))) := by
    induction steps with
    | zero =>
        refine .inl fun taken none => ?_
        rw [Nat.le_zero.mp none]
        exact inside
    | succ steps ih =>
        rcases ih with running | ⟨taken, before, running, ends⟩
        · have goes := (running steps (Nat.le_refl _)).step proper (same steps)
          rw [← Machine.forward_succ] at goes
          rcases goes with next | ends
          · refine .inl fun taken inTime => ?_
            rcases Nat.lt_or_eq_of_le inTime with earlier | rfl
            · exact running taken (Nat.le_of_lt_succ earlier)
            · exact next
          · exact .inr ⟨steps, Nat.lt_succ_self steps, running, ends⟩
        · exact .inr ⟨taken, Nat.lt_succ_of_lt before, running, ends⟩
  rcases runs with running | ⟨taken, before, running, ends⟩
  · exact .inl fun taken inTime => (running taken inTime).lives
  · refine .inr ⟨taken, before, fun earlier inTime => (running earlier inTime).lives, ?_⟩
    exact ends.imp (fun returns => ⟨returns, returns.keepsAccounts⟩) id

end Invocation

namespace Environment

variable {below args : List Value} {callee : Value} {target : FunctionRef}
  {closure : Option Handle} {function : FunctionDef}

/-- A function that has just been entered is at work. -/
theorem inside_entered {call : Invocation α} {rest : List Value}
    (known : call.origin.function? call.target = some call.function)
    (units : env.units = call.origin.units)
    (frames : env.frames = call.origin.frames.push call.frame)
    (stack : env.stack.toList = call.below ++ call.callee :: rest) :
    call.Inside ⟨env, .script call.callers⟩ := by
  have alone : env.frames.toList =
      call.origin.frames.toList ++ [{ call.frame with pc := 0 }] := by
    rw [frames, Array.toList_push]
    rfl
  refine .script env call.callers 0 .here ⟨⟨?_, ?_⟩, fun index frame beyond there => ?_, ?_⟩
  · exact ⟨[], (List.append_nil _).trans alone.symm⟩
  · rw [stack]
    exact ⟨rest, List.append_assoc _ _ _⟩
  · have inside := (Array.getElem?_eq_some_iff.mp there).1
    rw [frames, Array.size_push] at inside
    exact absurd inside (Nat.not_lt.mpr beyond)
  · unfold function?
    rw [units]
    exact known

/-- **The calling convention.** A function whose callee lies on the stack below the arguments is
entered, or everything stays as it is. It is entered when there is room for another frame, and on the
stack for all that the function may need. Then its variables lie above the callee, the first ones with
the arguments that it expects; other arguments are given up. Whatever it does then, it leaves the
callee and what is below alone, and if it returns, the result takes their place. -/
theorem calling_convention (stack : env.stack.toList = below ++ callee :: args)
    (known : env.function? target = some function)
    (few : function.argCount.toNat ≤ function.varCount.toNat) :
    match enterFunction target closure below.length env with
    | (.error _, after) =>
        after = env ∧
          (env.config.maxCallDepth ≤ env.frames.size ∨
            env.config.stackSize <
              below.length + 1 + function.varCount.toNat + function.stackHigh.toNat)
    | (.ok (), after) =>
        after = { env with
          stack := (below ++ callee ::
            initialVariables args function.argCount.toNat function.varCount.toNat).toArray
          heap := env.heap.releaseAll (args.drop function.argCount.toNat).reverse
          frames := env.frames.push (entered target closure below.length) } ∧
        KeepsAccounts env after ∧
        (∀ values : List Value, values.length ≤ function.stackHigh.toNat →
          (values.forM push : Action Unit) after =
            (.ok (), { after with stack := after.stack ++ values.toArray })) ∧
        ∀ (α : Type) (callers : Callers α), callers.frames ≤ env.frames.size →
          ∀ steps, (Invocation.mk env below callee function target closure callers).Runs
            steps ⟨after, .script callers⟩ := by
  rw [enterFunction_eq, known]
  by_cases shallow : env.frames.size < env.config.maxCallDepth
  case neg =>
    rw [if_neg shallow]
    exact ⟨rfl, .inl (Nat.le_of_not_lt shallow)⟩
  rw [if_pos shallow]
  simp only
  rw [if_neg (Nat.not_lt.mpr few)]
  by_cases full : env.config.stackSize <
      below.length + 1 + function.varCount.toNat + function.stackHigh.toNat
  case pos =>
    rw [if_pos full]
    exact ⟨rfl, .inr full⟩
  rw [if_neg full]
  have accounts := @keepsAccounts_entered env below args callee target closure stack
    function.argCount.toNat function.varCount.toNat
  have height := @length_initialVariables args _ _ few
  simp only
  rw [laidOut_of_args stack] at accounts ⊢
  refine ⟨rfl, accounts, fun values fits => ?_, fun α callers outside steps => ?_⟩
  · apply pushEach_of_room
    change (below ++ callee :: initialVariables args _ _).length + values.length ≤
      env.config.stackSize
    rw [List.length_append, List.length_cons, height]
    omega
  · have room : below.length < env.config.stackSize := by omega
    have proper : (Invocation.mk env below callee function target closure callers).Proper :=
      ⟨outside, room⟩
    refine Invocation.Inside.runs proper ?_ rfl steps
    exact inside_entered known rfl rfl rfl

/-- A function that expects one argument, has one more variable, and gives back its argument. -/
def identity : FunctionDef where
  varCount := 2
  argCount := 1
  stackHigh := 1
  isClosure := false
  code := ((⟨.loadLocal, 0, 0⟩ : Instruction).encode ++ (⟨.ret, 0, 0⟩ : Instruction).encode).toArray

/-- The function lies on the stack below two arguments. -/
def callingIdentity : Environment :=
  { Environment.new {} with
    stack := #[.boolean true, .function ⟨0, 0⟩, .nan, .boolean false]
    units := #[⟨{ numbers := #[], strings := #[], functions := #[identity] }, #[]⟩] }

theorem calling_convention_identity :
    ∃ after, enterFunction ⟨0, 0⟩ none 1 callingIdentity = (.ok (), after) ∧
      after.stack = #[.boolean true, .function ⟨0, 0⟩, .nan, .undefined] ∧
      (Invocation.mk callingIdentity [.boolean true] (.function ⟨0, 0⟩) identity ⟨0, 0⟩ none
        (.host ⟨0, 1, .done⟩)).Runs 2 ⟨after, .script (.host ⟨0, 1, .done⟩)⟩ ∧
      ((⟨after, .script (.host ⟨0, 1, .done⟩)⟩ : Machine _).forward 2).environment.stack =
        #[.boolean true, .nan] := by
  have convention := @calling_convention callingIdentity [.boolean true] [.nan, .boolean false]
    (.function ⟨0, 0⟩) ⟨0, 0⟩ none identity rfl rfl (by decide)
  obtain ⟨-, -, -, runs⟩ := convention
  exact ⟨_, rfl, rfl, runs _ (.host ⟨0, 1, .done⟩) (Nat.le_refl 0) 2, rfl⟩

end Environment

end PocketScript
