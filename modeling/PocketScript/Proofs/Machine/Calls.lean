import PocketScript.Proofs.Code.Layout
import PocketScript.Proofs.Machine.Frames

/-!
# Calls leave the stacks as they were

Whatever a call does before it ends, however natives and scripts call each other in it, the stacks
below it stay as they were, and every instruction keeps to its own frame (`Machine.Shielded`). When
the call ends, with a result or with a fault, both stacks are what they were before it
(`Machine.forward_call`).
-/

namespace PocketScript

namespace Environment

variable {env before middle after : Environment} {place : Nat}

/-! ## Entering a call -/

/-- What entering a call comes to when its callee lies in a place of the stack. -/
inductive Enters (place : Nat) (before : Environment) :
    Except Fault EnteredCall × Environment → Prop
  | script (frame : Frame) (function : FunctionDef) (after : Environment)
      (frames : after.frames = before.frames.push frame) (base : frame.base = place + 1)
      (known : before.function? frame.target = some function)
      (height : after.stack.size = frame.base + function.varCount.toNat)
      (units : after.units = before.units) (globals : after.globals = before.globals) :
      Enters place before (.ok .script, after)
  | native (program : Host (Except Fault Value)) :
      Enters place before (.ok (.native program place), before)
  | failed (fault : Fault) : Enters place before (.error fault, before)

theorem enters_enterFunction (target : FunctionRef) (closure : Option Handle) :
    Enters place env
      ((enterFunction target closure place env).1.map fun _ => .script,
        (enterFunction target closure place env).2) := by
  rw [enterFunction_eq]
  split
  · cases known : env.function? target with
    | none => exact .failed _
    | some function =>
        simp only
        split
        · exact .failed _
        · rename_i enough
          split
          · exact .failed _
          · exact .script (entered target closure place) function _ rfl rfl known
              (size_laidOut (Nat.le_of_not_lt enough)) rfl rfl
  · exact .failed _

/-- The value below the arguments is called. -/
theorem enters_enterCall {argCount : Nat} (enough : argCount + 1 ≤ env.stack.size) :
    Enters (env.stack.size - (argCount + 1)) env (enterCall argCount env) := by
  have inside : env.stack.size - (argCount + 1) < env.stack.size := by omega
  rw [enterCall_eq, if_neg (Nat.not_lt.mpr enough)]
  simp only
  rw [Array.getElem?_eq_getElem inside]
  cases env.stack[env.stack.size - (argCount + 1)] with
  | function target => exact enters_enterFunction target none
  | closure block =>
      simp only
      cases env.heap.closureTarget? block with
      | none => exact .failed _
      | some target => exact enters_enterFunction target (some block)
  | native id =>
      simp only
      cases env.natives[id]? with
      | none => exact .failed _
      | some native => exact .native _
  | _ => exact .failed _

/-- The next instruction together with the call it makes: the frame goes on, or it is left, or a
call is entered above the frame's variables. -/
theorem Stands.runNext_cases {frame : Frame} {function : FunctionDef}
    (stands : env.Stands frame function) :
    match runNext env with
    | (.ok none, after) =>
        KeepsBelow env after ∧
          (Continues (frame.base + function.varCount.toNat) env after ∨
            Leaves frame.base env after)
    | (.ok (some entered), after) =>
        ∃ middle place, Continues (frame.base + function.varCount.toNat) env middle ∧
          frame.base + function.varCount.toNat ≤ place ∧ place < middle.stack.size ∧
            Enters place middle (.ok entered, after)
    | (.error _, after) => KeepsBelow env after := by
  obtain ⟨below, ran⟩ := stands.executeNext_cases
  unfold runNext
  rw [action_bind]
  generalize executeNext env = outcome at below ran
  obtain ⟨fault | argCount, middle⟩ := outcome
  · exact below
  · cases argCount with
    | none => exact ⟨below, ran⟩
    | some argCount =>
        obtain ⟨continues, enough⟩ := ran
        have operands : argCount + 1 ≤ middle.stack.size := by omega
        have entering := enters_enterCall operands
        simp only
        rw [action_bind]
        generalize enterCall argCount middle = outcome at entering
        obtain ⟨fault | entered, after⟩ := outcome
        · cases entering
          exact below
        · exact ⟨middle, _, continues, by omega, by omega, entering⟩

/-- What lies below is as it was: the stack up to a depth, the frames up to a number, and the notes
on globals. -/
structure Guarded (depth frames : Nat) (before after : Environment) : Prop where
  stack : ∀ index, index < depth → after.stack[index]? = before.stack[index]?
  keeps : Keeps frames before after
  notes : before.NotesInBounds → after.NotesInBounds

/-- What does nothing is guarded. -/
theorem Guarded.refl (depth frames : Nat) (env : Environment) :
    Guarded depth frames env env :=
  ⟨fun _ _ => rfl, .refl _ _, id⟩

/-- And so it is step by step. -/
theorem Guarded.trans {depth frames : Nat} (one : Guarded depth frames before middle)
    (two : Guarded depth frames middle after) : Guarded depth frames before after :=
  ⟨fun index below => (two.stack index below).trans (one.stack index below),
    one.keeps.trans two.keeps, two.notes ∘ one.notes⟩

/-- Less of the stacks may be guarded. -/
theorem Guarded.weaken {depth depth' frames frames' : Nat} (guarded : Guarded depth frames before after)
    (low : depth' ≤ depth) (few : frames' ≤ frames) : Guarded depth' frames' before after :=
  ⟨fun index below => guarded.stack index (Nat.lt_of_lt_of_le below low), guarded.keeps.weaken few,
    guarded.notes⟩

theorem Backstage.guarded (backstage : Backstage before after) (depth frames : Nat) :
    Guarded depth frames before after :=
  ⟨fun index _ => by rw [backstage.stack], backstage.keeps frames, backstage.notes⟩

/-- What is dropped lies above. -/
theorem guarded_unwind (frames depth : Nat) (env : Environment) :
    Guarded depth frames env (unwind frames depth env).2 :=
  ⟨fun _ below => getElem?_shrink below, ⟨fun _ below => getElem?_shrink below, fun _ _ => id⟩,
    fun notes => notes.mono rfl (Nat.le_refl _)⟩

theorem size_sharing (env : Environment) (values : List Value) :
    (env.sharing values).stack.size = env.stack.size + values.length :=
  Array.size_append

theorem guarded_sharing (env : Environment) (values : List Value) (frames : Nat) :
    Guarded env.stack.size frames env (env.sharing values) :=
  ⟨fun _ below => Array.getElem?_append_left below, ⟨fun _ _ => rfl, fun _ _ => id⟩,
    fun notes => notes.mono rfl (Nat.le_refl _)⟩

/-- A call that is entered leaves what lies below its callee. -/
theorem guarded_enterCall {argCount : Nat} (enough : argCount + 1 ≤ env.stack.size) :
    Guarded (env.stack.size - (argCount + 1)) env.frames.size env
      (enterCall argCount env).2 := by
  have aloof : AloofAt (env.stack.size - (argCount + 1)) env (enterCall argCount) :=
    aloofAt_enterCall (by omega)
  have stack : ∀ index, index < env.stack.size - (argCount + 1) →
      (enterCall argCount env).2.stack[index]? = env.stack[index]? :=
    fun index below => aloof.below (Nat.sub_le _ _) below
  have enters := enters_enterCall enough
  generalize enterCall argCount env = outcome at stack enters
  cases enters with
  | script frame function after frames base known height units globals =>
      refine ⟨stack, ⟨fun index below => ?_, fun target function known => ?_⟩,
        fun notes => notes.mono units (Nat.le_of_eq (by rw [globals]))⟩
      · rw [frames, Array.getElem?_push, if_neg (by omega)]
      · unfold function?
        rw [units]
        exact known
  | native program => exact .refl _ _ _
  | failed fault => exact .refl _ _ _

/-- Operands are dropped from a place on. -/
theorem guarded_dropped (env : Environment) (place frames : Nat) :
    Guarded place frames env (env.dropped place) :=
  ⟨fun _ below => getElem?_shrink below, ⟨fun _ _ => rfl, fun _ _ => id⟩,
    fun notes => notes.mono rfl (Nat.le_refl _)⟩

/-- A push leaves what lies below. -/
theorem guarded_push (value : Value) (env : Environment) (frames : Nat) :
    Guarded env.stack.size frames env (push value env).2 := by
  rw [push_eq]
  split
  · exact ⟨fun _ below => Array.getElem?_push_lt below ▸ (Array.getElem?_eq_getElem below).symm,
      ⟨fun _ _ => rfl, fun _ _ => id⟩, fun notes => notes.mono rfl (Nat.le_refl _)⟩
  · exact ⟨fun _ _ => rfl, ⟨fun _ _ => rfl, fun _ _ => id⟩,
      fun notes => notes.mono rfl (Nat.le_refl _)⟩

/-- A native function is left for its result, in the place of its callee. -/
theorem leaveNative_cases (inside : place ≤ env.stack.size)
    (result : Except Fault Value) :
    Guarded place env.frames.size env (leaveNative place result env).2 ∧
      (leaveNative place result env).2.frames = env.frames ∧
      match leaveNative place result env with
      | (.ok (), after) => after.stack.size = place + 1
      | (.error _, after) => after.stack.size = place := by
  have height : (env.dropped place).stack.size = place := by
    change (env.stack.shrink place).size = place
    rw [Array.size_shrink]
    omega
  have dropped := guarded_dropped env place env.frames.size
  rw [leaveNative_eq]
  cases result with
  | error fault => exact ⟨dropped, rfl, height⟩
  | ok value =>
      have pushed := guarded_push value (env.dropped place) env.frames.size
      rw [height] at pushed
      refine ⟨dropped.trans pushed, ?_⟩
      simp only
      rw [push_eq]
      split
      · exact ⟨rfl, by simp only [Array.size_push, height]⟩
      · exact ⟨rfl, height⟩

/-- The stack and the frames are the same altogether. -/
theorem Guarded.eq {depth frames : Nat} (guarded : Guarded depth frames before after)
    (height : after.stack.size = depth) (count : after.frames.size = frames)
    (height' : before.stack.size = depth) (count' : before.frames.size = frames) :
    after.stack = before.stack ∧ after.frames = before.frames := by
  constructor
  · apply Array.ext_getElem?
    intro index
    by_cases below : index < depth
    · exact guarded.stack index below
    · rw [Array.getElem?_eq_none (by omega), Array.getElem?_eq_none (by omega)]
  · apply Array.ext_getElem?
    intro index
    by_cases below : index < frames
    · exact guarded.keeps.frames index below
    · rw [Array.getElem?_eq_none (by omega), Array.getElem?_eq_none (by omega)]

end Environment

open Environment

variable {α : Type} {env origin before after : Environment} {target callers : Callers α}

/-! ## Those who wait -/

namespace Callers

/-- Of those who wait for a call, some wait for the call of `target`; the others for calls inside
it. -/
inductive Suspended (env : Environment) (target : Callers α) : Callers α → Prop
  | here : Suspended env target target
  | native (caller : Caller (Except Fault Value)) (place : Nat) (outer : Callers α)
      (stacked : env.Stacked outer.frames caller.frames outer.depth)
      (clear : env.Clear outer.frames caller.frames outer.depth place)
      (inside : place < caller.depth) (suspended : Suspended env target outer) :
      Suspended env target (.native caller place outer)

theorem Suspended.mono (suspended : Suspended before target callers)
    (keeps : Keeps callers.frames before after) : Suspended after target callers := by
  induction suspended with
  | here => exact .here
  | native caller place outer stacked clear inside _ ih =>
      exact .native caller place outer (stacked.mono keeps) (clear.mono keeps) inside
        (ih (keeps.weaken stacked.order))

/-- The calls inside a call begin above it. -/
theorem Suspended.le (suspended : Suspended env target callers) :
    target.frames ≤ callers.frames ∧ target.depth ≤ callers.depth := by
  induction suspended with
  | here => exact ⟨Nat.le_refl _, Nat.le_refl _⟩
  | native caller place outer stacked clear inside _ ih =>
      have above : outer.depth ≤ place := stacked.depth_le (Nat.le_refl _) clear
      change target.frames ≤ caller.frames ∧ target.depth ≤ caller.depth
      have order := stacked.order
      omega

end Callers

namespace Machine

variable {machine : Machine α}

/-! ## While a call runs -/

/-- The call that `target` waits for, begun in the environment `origin`, has not ended: a script or a
native runs in it. -/
inductive Underway (origin : Environment) (target : Callers α) : Machine α → Prop
  | script (env : Environment) (callers : Callers α)
      (suspended : Callers.Suspended env target callers)
      (stacked : env.Stacked callers.frames env.frames.size callers.depth)
      (clear : env.Clear callers.frames env.frames.size (callers.depth + 1)
        env.stack.size)
      (guarded : Guarded target.depth target.frames origin env) :
      Underway origin target ⟨env, .script callers⟩
  | native (env : Environment) (program : Host (Except Fault Value)) (place : Nat)
      (callers : Callers α) (suspended : Callers.Suspended env target callers)
      (stacked : env.Stacked callers.frames env.frames.size callers.depth)
      (clear : env.Clear callers.frames env.frames.size callers.depth place)
      (inside : place < env.stack.size)
      (guarded : Guarded target.depth target.frames origin env) :
      Underway origin target ⟨env, .native program place callers⟩

/-- The call has ended, and the stacks are as high as they were before it. -/
structure Returned (origin : Environment) (target : Callers α) (machine : Machine α) : Prop where
  resumes : ∃ outcome, machine.control = target.resume outcome
  height : machine.environment.stack.size = target.depth
  frames : machine.environment.frames.size = target.frames
  guarded : Guarded target.depth target.frames origin machine.environment

/-- A call inside another one ends: either that was the call itself, or the native that made it goes
on. -/
theorem underway_resume (suspended : Callers.Suspended env target callers)
    (height : env.stack.size = callers.depth)
    (frames : env.frames.size = callers.frames)
    (guarded : Guarded target.depth target.frames origin env) (outcome : Except Fault Value) :
    Underway origin target ⟨env, callers.resume outcome⟩ ∨
      Returned origin target ⟨env, callers.resume outcome⟩ := by
  cases suspended with
  | here => exact .inr ⟨⟨outcome, rfl⟩, height, frames, guarded⟩
  | native caller place outer stacked clear inside suspended =>
      have count : env.frames.size = caller.frames := frames
      have high : env.stack.size = caller.depth := height
      exact .inl (.native _ _ place outer suspended (count ▸ stacked) (count ▸ clear)
        (high ▸ inside) guarded)

theorem underway_fail (suspended : Callers.Suspended env target callers)
    (height : callers.depth ≤ env.stack.size)
    (frames : callers.frames ≤ env.frames.size)
    (guarded : Guarded target.depth target.frames origin env) (fault : Fault) :
    Underway origin target (fail env callers fault) ∨
      Returned origin target (fail env callers fault) := by
  have unwound := guarded_unwind callers.frames callers.depth env
  obtain ⟨few, low⟩ := suspended.le
  refine underway_resume (suspended.mono unwound.keeps) ?_ ?_
    (guarded.trans (unwound.weaken low few)) _
  · change (env.stack.shrink callers.depth).size = _
    rw [Array.size_shrink]
    omega
  · change (env.frames.shrink callers.frames).size = _
    rw [Array.size_shrink]
    omega

/-- A call is entered whose callee lies above the variables of all frames. -/
theorem underway_afterEntering {place : Nat} {outcome : Except Fault EnteredCall × Environment}
    (enters : Enters place before outcome) (suspended : Callers.Suspended before target callers)
    (stacked : before.Stacked callers.frames before.frames.size callers.depth)
    (clear : before.Clear callers.frames before.frames.size callers.depth place)
    (inside : place < before.stack.size)
    (guarded : Guarded target.depth target.frames origin outcome.2) :
    Underway origin target (afterEntering outcome callers) ∨
      Returned origin target (afterEntering outcome callers) := by
  have high : callers.depth ≤ place := stacked.depth_le (Nat.le_refl _) clear
  cases enters with
  | script frame function after frames base known height units globals =>
      have functions : ∀ target function, before.function? target = some function →
          after.function? target = some function := fun target function known => by
        unfold function?
        rw [units]
        exact known
      obtain ⟨stacked', clear'⟩ :=
        stacked.push clear functions frames base (functions _ _ known)
      refine .inl (.script after callers (suspended.mono ⟨fun index below => ?_, functions⟩)
        stacked' (height ▸ clear') guarded)
      have order := stacked.order
      rw [frames, Array.getElem?_push, if_neg (by omega)]
  | native program => exact .inl (.native _ _ _ _ suspended stacked clear inside guarded)
  | failed fault => exact underway_fail suspended (by omega) stacked.order guarded fault

/-! ## A step of a call -/

/-- A step of a frame is its next instruction together with the call it makes. -/
theorem stepScript_eq (more : callers.frames < env.frames.size) :
    stepScript env callers =
      match runNext env with
      | (.ok none, after) => ⟨after, .script callers⟩
      | (.ok (some entered), after) => afterEntering (.ok entered, after) callers
      | (.error fault, after) => fail after callers fault := by
  unfold stepScript runNext
  rw [if_pos more, action_bind]
  generalize executeNext env = outcome
  obtain ⟨fault | argCount, middle⟩ := outcome
  · rfl
  · cases argCount with
    | none => rfl
    | some argCount =>
        simp only
        rw [action_bind]
        generalize enterCall argCount middle = outcome
        obtain ⟨fault | entered, after⟩ := outcome <;> rfl

/-- While a call is underway, the topmost frame of a script runs a known function above what was
there before the call. -/
theorem stands_of_stacked
    (stacked : env.Stacked callers.frames env.frames.size callers.depth)
    (clear : env.Clear callers.frames env.frames.size (callers.depth + 1)
      env.stack.size) (more : callers.frames < env.frames.size) :
    ∃ frame function, env.Stands frame function ∧ callers.depth < frame.base := by
  obtain ⟨none, -⟩ | ⟨-, frame, function, lies, above⟩ := clear
  · omega
  · obtain ⟨same, function', lies', deep, -⟩ :=
      stacked.frame (env.frames.size - 1) (by omega) (by omega)
    obtain rfl : frame = same := Option.some.inj (lies.there.symm.trans lies'.there)
    exact ⟨frame, function, ⟨Array.back?_eq_getElem?.trans lies.there, lies.known, by omega, above⟩,
      deep⟩

/-- What lies below a frame is as it was behind the frame's next instruction. -/
theorem guarded_runNext {frame : Frame} {function : FunctionDef}
    (stands : env.Stands frame function) :
    Guarded (frame.base - 1) (env.frames.size - 1) env
      (runNext env).2 := by
  have locals := stands.locals
  have stack : ∀ index, index < frame.base - 1 →
      (runNext env).2.stack[index]? = env.stack[index]? :=
    fun index below => stands.aloof_runNext.below (by omega) below
  have ran := stands.runNext_cases
  generalize runNext env = outcome at stack ran
  obtain ⟨fault | entered, after⟩ := outcome
  · exact ⟨stack, ran.keeps, ran.notes⟩
  · cases entered with
    | none => exact ⟨stack, ran.1.keeps, ran.1.notes⟩
    | some entered =>
        obtain ⟨middle, place, continues, -, -, enters⟩ := ran
        have size := continues.frames.size
        have keeps := continues.keepsBelow.keeps
        cases enters with
        | script frame function after frames base known height units globals =>
            refine ⟨stack, keeps.trans ⟨fun index below => ?_, fun target function known => ?_⟩,
              fun notes => (continues.notes notes).mono units (Nat.le_of_eq (by rw [globals]))⟩
            · rw [frames, Array.getElem?_push, if_neg (by omega)]
            · unfold function?
              rw [units]
              exact known
        | native program => exact ⟨stack, keeps, continues.notes⟩

/-- The next instruction of a script. -/
theorem underway_stepScript (suspended : Callers.Suspended env target callers)
    (stacked : env.Stacked callers.frames env.frames.size callers.depth)
    (clear : env.Clear callers.frames env.frames.size (callers.depth + 1)
      env.stack.size)
    (guarded : Guarded target.depth target.frames origin env)
    (more : callers.frames < env.frames.size) :
    Underway origin target (stepScript env callers) ∨
      Returned origin target (stepScript env callers) := by
  obtain ⟨frame, function, stands, deep⟩ := stands_of_stacked stacked clear more
  obtain ⟨few, low⟩ := suspended.le
  have locals := stands.locals
  have high : callers.depth ≤ frame.base - 1 := by omega
  have kept : Guarded callers.depth callers.frames env (runNext env).2 :=
    (guarded_runNext stands).weaken high (by omega)
  have lasts := guarded.trans (kept.weaken low few)
  have suspended' := suspended.mono kept.keeps
  have last : env.frames[env.frames.size - 1]? = some frame :=
    Array.back?_eq_getElem?.symm.trans stands.last
  have aloof := (stands.aloof_runNext (env.stack.extract 0 (frame.base - 1))
    (by rw [Array.size_extract]; omega)).2
  have ran := stands.runNext_cases
  rw [stepScript_eq more]
  generalize runNext env = outcome at ran kept lasts suspended' aloof
  obtain ⟨fault | entered, after⟩ := outcome
  · have below : KeepsBelow env after := ran
    have count := below.count
    have height : frame.base - 1 ≤ after.stack.size := aloof
    have size : callers.frames ≤ after.frames.size := by omega
    exact underway_fail suspended' (by omega) size lasts fault
  · cases entered with
    | none =>
        obtain ⟨below, continues | left⟩ := ran
        · have same := continues.frames
          exact .inl (.script _ _ suspended' (same.size ▸ stacked.goesOn same continues.programs)
            (same.size ▸ clear_goesOn same continues.programs more ⟨last, stands.known⟩
              continues.height) lasts)
        · obtain ⟨stacked', clear'⟩ := stacked.pop more last below.keeps
            (by rw [left.frames, Array.size_pop])
          exact .inl (.script _ _ suspended' stacked' (left.height ▸ clear') lasts)
    | some entered =>
        obtain ⟨middle, place, continues, above, inside, enters⟩ := ran
        have same := continues.frames
        have below : Keeps callers.frames env middle :=
          continues.keepsBelow.keeps.weaken (by omega)
        exact underway_afterEntering enters (suspended.mono below)
          (same.size ▸ stacked.goesOn same continues.programs)
          (same.size ▸ clear_goesOn same continues.programs more ⟨last, stands.known⟩ above)
          inside lasts

/-- A call from outside is entered. -/
theorem underway_enterHostCall (callee : Value) (args : List Value)
    (suspended : Callers.Suspended env target callers)
    (height : env.stack.size = callers.depth)
    (frames : env.frames.size = callers.frames)
    (guarded : Guarded target.depth target.frames origin env) :
    Underway origin target (afterEntering (enterHostCall callee args env) callers) ∨
      Returned origin target (afterEntering (enterHostCall callee args env) callers) := by
  have refused : ∀ fault, Underway origin target (afterEntering (.error fault, env) callers) ∨
      Returned origin target (afterEntering (.error fault, env) callers) := fun fault =>
    underway_fail suspended (Nat.le_of_eq height.symm) (Nat.le_of_eq frames.symm) guarded fault
  rw [enterHostCall_eq]
  split
  · split
    · exact refused _
    · have pushed : (env.sharing (callee :: args)).stack.size =
          callers.depth + (args.length + 1) := by
        rw [size_sharing, List.length_cons, height]
      have enough : args.length + 1 ≤ (env.sharing (callee :: args)).stack.size := by omega
      have shared := guarded_sharing env (callee :: args) callers.frames
      have entered := guarded_enterCall enough
      have enters := enters_enterCall enough
      rw [pushed, Nat.add_sub_cancel] at enters entered
      obtain ⟨few, low⟩ := suspended.le
      refine underway_afterEntering enters (suspended.mono shared.keeps) ?_ ?_ (by omega)
        ((guarded.trans (shared.weaken (height ▸ low) few)).trans
          (entered.weaken low (frames ▸ few)))
      · change (env.sharing (callee :: args)).Stacked _ env.frames.size _
        rw [← frames]
        exact stacked_none _ _
      · exact .inl ⟨frames, rfl⟩
  · exact refused _

/-- A step of a call that is underway. -/
theorem underway_step (underway : Underway origin target machine) :
    Underway origin target machine.step ∨ Returned origin target machine.step := by
  cases underway with
  | script env callers suspended stacked clear guarded =>
      by_cases more : callers.frames < env.frames.size
      · exact underway_stepScript suspended stacked clear guarded more
      · obtain ⟨none, height⟩ | ⟨more', -⟩ := clear
        · obtain ⟨low, -⟩ | ⟨value, -, -, popped⟩ := pop_cases callers.depth env
          · omega
          · have same : stepScript env callers =
                ⟨{ env with stack := env.stack.pop }, callers.resume (.ok value)⟩ := by
              unfold stepScript
              rw [if_neg more, popped]
            have kept : Guarded callers.depth callers.frames env
                { env with stack := env.stack.pop } := by
              refine ⟨fun index below => ?_, ⟨fun _ _ => rfl, fun _ _ => id⟩,
                fun notes => notes.mono rfl (Nat.le_refl _)⟩
              rw [Array.getElem?_pop, if_pos (by omega)]
            obtain ⟨few, low⟩ := suspended.le
            change Underway origin target (stepScript env callers) ∨
              Returned origin target (stepScript env callers)
            rw [same]
            refine underway_resume (suspended.mono kept.keeps) ?_ none
              (guarded.trans (kept.weaken low few)) _
            rw [Array.size_pop]
            omega
        · exact absurd more' more
  | native env program place callers suspended stacked clear inside guarded =>
      obtain ⟨few, low⟩ := suspended.le
      have above : callers.depth ≤ place := stacked.depth_le (Nat.le_refl _) clear
      have order := stacked.order
      cases program with
      | done result =>
          obtain ⟨kept, frames, height⟩ := leaveNative_cases (Nat.le_of_lt inside) result
          have lasts := guarded.trans (kept.weaken (Nat.le_trans low above) (Nat.le_trans few order))
          have suspended' := suspended.mono (kept.keeps.weaken order)
          change Underway origin target (stepNative env (.done result) place callers) ∨
            Returned origin target (stepNative env (.done result) place callers)
          unfold stepNative
          simp only
          generalize leaveNative place result env = outcome at *
          obtain ⟨fault | _, after⟩ := outcome
          · simp only at height frames
            have high : callers.depth ≤ after.stack.size := height ▸ above
            exact underway_fail suspended' high (frames ▸ order) lasts fault
          · simp only at height frames
            exact .inl (.script after callers suspended' (frames ▸ stacked.mono kept.keeps)
              (frames ▸ height ▸ (clear.mono kept.keeps).succ) lasts)
      | ask request next =>
          have backstage := backstage_answer request env
          have keeps := backstage.keeps env.frames.size
          have stacked' := backstage.frames ▸ stacked.mono keeps
          have clear' := backstage.frames ▸ clear.mono keeps
          exact .inl (.native _ _ place callers (suspended.mono (keeps.weaken order)) stacked' clear'
            (backstage.stack ▸ inside) (guarded.trans (backstage.guarded _ _)))
      | call callee args next =>
          exact underway_enterHostCall callee args
            (.native (waiting env next) place callers stacked clear inside suspended)
            rfl rfl guarded

/-! ## Whole calls -/

/-- Those who wait from the next step on, when it begins a call. -/
def begins? (machine : Machine α) : Option (Callers α) :=
  match machine.control with
  | .host (.call _ _ next) => some (.host (waiting machine.environment next))
  | .native (.call _ _ next) place outer =>
      some (.native (waiting machine.environment next) place outer)
  | _ => none

/-- A call that begins is underway, or has returned at once. -/
theorem underway_begins (begins : machine.begins? = some target) :
    Underway machine.environment target machine.step ∨
      Returned machine.environment target machine.step := by
  obtain ⟨env, control⟩ := machine
  cases control with
  | host program =>
      cases program with
      | call callee args next =>
          obtain rfl := Option.some.inj begins
          exact underway_enterHostCall callee args .here rfl rfl (.refl _ _ _)
      | done result => cases begins
      | ask request next => cases begins
  | native program place outer =>
      cases program with
      | call callee args next =>
          obtain rfl := Option.some.inj begins
          exact underway_enterHostCall callee args .here rfl rfl (.refl _ _ _)
      | done result => cases begins
      | ask request next => cases begins
  | script callers => cases begins

/-- It goes back to the height at which it began. -/
theorem height_of_begins (begins : machine.begins? = some target) :
    target.depth = machine.environment.stack.size ∧
      target.frames = machine.environment.frames.size := by
  obtain ⟨env, control⟩ := machine
  unfold begins? at begins
  split at begins
  · obtain rfl := Option.some.inj begins
    exact ⟨rfl, rfl⟩
  · obtain rfl := Option.some.inj begins
    exact ⟨rfl, rfl⟩
  · cases begins

/-- A host that has finished stays so. -/
theorem step_of_result? {result : α} (finished : machine.result? = some result) :
    machine.step = machine := by
  obtain ⟨env, control⟩ := machine
  unfold result? at finished
  split at finished
  · rename_i same
    change control = _ at same
    subst same
    rfl
  · cases finished

/-- One step more is made last. -/
theorem forward_succ (steps : Nat) (machine : Machine α) :
    machine.forward (steps + 1) = (machine.forward steps).step := by
  induction steps generalizing machine with
  | zero =>
      cases finished : machine.result? with
      | none => simp only [forward, finished]
      | some result => simp only [forward, finished, step_of_result? finished]
  | succ steps ih =>
      cases finished : machine.result? with
      | none =>
          rw [forward, finished]
          simp only
          rw [ih machine.step, forward, finished]
      | some result => simp only [forward, finished, step_of_result? finished]

/-- Whoever waits for a call waits as well while another one runs inside it. -/
inductive Waits (target : Callers α) : Callers α → Prop
  | here : Waits target target
  | inside (caller : Caller (Except Fault Value)) (place : Nat) {outer : Callers α}
      (waits : Waits target outer) : Waits target (.native caller place outer)

/-- The host program that has made the call waits among the callers. -/
theorem waits_of_suspended (suspended : Callers.Suspended env target callers) :
    Waits target callers := by
  induction suspended with
  | here => exact .here
  | native caller place outer _ _ _ _ ih => exact ih.inside caller place

/-- Those who wait while a script or a native runs. -/
def callers? : Control α → Option (Callers α)
  | .host _ => none
  | .native _ _ callers => some callers
  | .script callers => some callers

end Machine

namespace Environment

/-- Every place that the next instruction of the topmost frame may look up is there: in the frame
stack, the loaded programs, the code, the stack and the globals. -/
structure InBounds (env : Environment) (current : Frame) (function : FunctionDef) :
    Prop where
  frame : env.frames[env.frames.size - 1]? = some current
  unit : ∃ loaded, env.units[current.unit]? = some loaded ∧
    loaded.program.function? current.index = some function
  code : ∀ instr, function.code.decode current.pc = .ok instr →
    current.pc + instr.size ≤ function.code.size
  callee : 0 < current.base ∧ ∃ value, env.stack[current.base - 1]? = some value
  locals : ∀ index, index < function.varCount.toNat →
    ∃ value, env.stack[current.base + index]? = some value
  /-- What passes for an operand lies above the variables. -/
  operands : ∀ below,
    (requireOperands (current.base + function.varCount.toNat) (below + 1) env).1 = .ok () →
      current.base + function.varCount.toNat ≤ env.stack.size - 1 - below ∧
        ∃ value, env.stack[env.stack.size - 1 - below]? = some value
  /-- The slot of a name is that of a global, as long as the noted ones are. -/
  globals : env.NotesInBounds → ∀ program name slot,
    (namedSlot (activationOf current function program) name env).1 = .ok (some slot) →
      ∃ binding, env.globals[slot]? = some binding

/-- A frame that stands is in bounds. -/
theorem Stands.inBounds {frame : Frame} {function : FunctionDef}
    (stands : env.Stands frame function) : env.InBounds frame function where
  frame := Array.back?_eq_getElem?.symm.trans stands.last
  unit := function?_eq_some.mp stands.known
  code _ decodes := Code.decode_inside decodes
  callee := ⟨stands.callee, _, Array.getElem?_eq_getElem
    (Nat.lt_of_lt_of_le (Nat.sub_lt stands.callee Nat.one_pos)
      (Nat.le_trans (Nat.le_add_right _ _) stands.locals))⟩
  locals index below := by
    have locals := stands.locals
    exact ⟨_, Array.getElem?_eq_getElem (by omega)⟩
  operands below passes := by
    obtain ⟨-, failed⟩ | ⟨enough, -⟩ :=
      requireOperands_cases (frame.base + function.varCount.toNat) (below + 1) env
    · rw [failed] at passes
      cases passes
    · exact ⟨by omega, _, Array.getElem?_eq_getElem (by omega)⟩
  globals notes _ _ _ named := ⟨_, Array.getElem?_eq_getElem (namedSlot_inBounds notes named)⟩

end Environment

namespace Machine

variable {machine : Machine α}

/-- A state of the call that `target` wait for, which was begun in the environment `origin` and has
not ended: whatever lay on the stacks is there, and the next instruction, with the call it makes,
finds all it looks up and does the same whatever lies below the callee of its frame. -/
structure Shielded (origin : Environment) (target : Callers α) (machine : Machine α) : Prop where
  waits : ∃ callers, callers? machine.control = some callers ∧ Waits target callers
  stack : ∀ index, index < origin.stack.size →
    machine.environment.stack[index]? = origin.stack[index]?
  frames : ∀ index, index < origin.frames.size →
    machine.environment.frames[index]? = origin.frames[index]?
  notes : origin.NotesInBounds → machine.environment.NotesInBounds
  instruction : ∀ callers, machine.control = .script callers →
    callers.frames < machine.environment.frames.size →
      ∃ frame function, machine.environment.InBounds frame function ∧
        origin.stack.size < frame.base ∧ AloofAt (frame.base - 1) machine.environment runNext
  /-- When no frame is left, there is one value, the result. -/
  result : ∀ callers, machine.control = .script callers →
    machine.environment.frames.size ≤ callers.frames →
      machine.environment.stack.size = callers.depth + 1
  /-- A native's callee lies above all that was there before the call. -/
  native : ∀ program place callers, machine.control = .native program place callers →
    origin.stack.size ≤ place ∧ place < machine.environment.stack.size

/-- A call that is underway leaves what lay on both stacks. -/
theorem Underway.shielded (underway : Underway origin target machine)
    (height : target.depth = origin.stack.size) (count : target.frames = origin.frames.size) :
    Shielded origin target machine := by
  cases underway with
  | script env callers suspended stacked clear guarded =>
      refine ⟨⟨callers, rfl, waits_of_suspended suspended⟩, height ▸ guarded.stack,
        count ▸ guarded.keeps.frames, guarded.notes, ?_, ?_, ?_⟩
      · rintro _ ⟨⟩ more
        obtain ⟨frame, function, stands, deep⟩ := stands_of_stacked stacked clear more
        have low := suspended.le.2
        exact ⟨frame, function, stands.inBounds, by omega, stands.aloof_runNext⟩
      · rintro _ ⟨⟩ none
        obtain ⟨-, same⟩ | ⟨more, -⟩ := clear
        · exact same
        · exact absurd more (Nat.not_lt.mpr none)
      · rintro _ _ _ ⟨⟩
  | native env program place callers suspended stacked clear inside guarded =>
      refine ⟨⟨callers, rfl, waits_of_suspended suspended⟩, height ▸ guarded.stack,
        count ▸ guarded.keeps.frames, guarded.notes, ?_, ?_, ?_⟩
      · rintro _ ⟨⟩
      · rintro _ ⟨⟩
      rintro _ _ _ ⟨⟩
      have above : callers.depth ≤ place := stacked.depth_le (Nat.le_refl _) clear
      have low := suspended.le.2
      exact ⟨by omega, inside⟩

/-- **A call cannot disturb its caller.** From the step that begins a call on, the call is shielded
from what lies below it for as long as it runs; if it ever ends, with a result or with a fault, then
both stacks are what they were when it began. -/
theorem forward_call (begins : machine.begins? = some target) (steps : Nat) :
    (∀ taken, 0 < taken → taken ≤ steps →
        Shielded machine.environment target (machine.forward taken)) ∨
      ∃ taken outcome, 0 < taken ∧ taken ≤ steps ∧
        (∀ earlier, 0 < earlier → earlier < taken →
          Shielded machine.environment target (machine.forward earlier)) ∧
        (machine.forward taken).control = target.resume outcome ∧
        (machine.forward taken).environment.stack = machine.environment.stack ∧
        (machine.forward taken).environment.frames = machine.environment.frames ∧
        (machine.environment.NotesInBounds → (machine.forward taken).environment.NotesInBounds) := by
  obtain ⟨height, count⟩ := height_of_begins begins
  -- The induction carries that the last state is still underway.
  have runs : (∀ taken, 0 < taken → taken ≤ steps →
        Underway machine.environment target (machine.forward taken)) ∨
      ∃ taken, 0 < taken ∧ taken ≤ steps ∧
        (∀ earlier, 0 < earlier → earlier < taken →
          Underway machine.environment target (machine.forward earlier)) ∧
        Returned machine.environment target (machine.forward taken) := by
    induction steps with
    | zero => exact .inl fun taken positive none => by omega
    | succ steps ih =>
        obtain underway | ⟨taken, positive, inTime, before, returned⟩ := ih
        · have next : Underway machine.environment target (machine.forward (steps + 1)) ∨
              Returned machine.environment target (machine.forward (steps + 1)) := by
            rw [forward_succ]
            by_cases first : steps = 0
            · subst first
              exact underway_begins begins
            · exact underway_step (underway steps (Nat.pos_of_ne_zero first) (Nat.le_refl _))
          obtain next | returned := next
          · refine .inl fun taken positive inTime => ?_
            by_cases last : taken = steps + 1
            · subst last
              exact next
            · exact underway taken positive (by omega)
          · exact .inr ⟨steps + 1, Nat.succ_pos _, Nat.le_refl _,
              fun earlier positive before => underway earlier positive (by omega), returned⟩
        · exact .inr ⟨taken, positive, Nat.le_succ_of_le inTime, before, returned⟩
  obtain underway | ⟨taken, positive, inTime, before, returned⟩ := runs
  · exact .inl fun taken positive inTime => (underway taken positive inTime).shielded height count
  · obtain ⟨outcome, resumes⟩ := returned.resumes
    obtain ⟨stack, frames⟩ := returned.guarded.eq returned.height returned.frames height.symm
      count.symm
    exact .inr ⟨taken, outcome, positive, inTime,
      fun earlier positive early => (before earlier positive early).shielded height count, resumes,
      stack, frames, returned.guarded.notes⟩

/-- A program whose only function consists of a byte that is no operation. -/
def malformed : Program where
  numbers := #[]
  strings := #[]
  functions := #[⟨1, 0, 0, false, #[255]⟩]

/-- The host is about to call the function of a malformed program. -/
def callingMalformed : Machine (Except Fault Value) where
  environment :=
    { Environment.new {} with stack := #[.boolean true], units := #[⟨malformed, #[]⟩] }
  control := .host (.call (.function ⟨0, 0⟩) [.nan] .done)

theorem forward_call_malformed :
    callingMalformed.begins? = some (.host (waiting callingMalformed.environment .done)) ∧
      ∃ taken outcome, taken ≤ 2 ∧
        (callingMalformed.forward taken).control = .host (.done outcome) ∧
        (callingMalformed.forward taken).environment.stack = #[.boolean true] ∧
        (callingMalformed.forward taken).environment.frames = #[] := by
  refine ⟨rfl, ?_⟩
  obtain shielded | ⟨taken, outcome, -, inTime, -, resumes, stack, frames, -⟩ :=
    @forward_call _ _ callingMalformed rfl 2
  · obtain ⟨callers, waits, -⟩ := (shielded 2 (by decide) (by decide)).waits
    cases waits
  · exact ⟨taken, outcome, inTime, resumes, stack, frames⟩

end Machine

end PocketScript
