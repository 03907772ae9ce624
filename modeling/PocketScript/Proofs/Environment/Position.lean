import PocketScript.Proofs.Environment.Answers

/-!
# Instructions and frames

What an instruction does with the frames does not depend on what lies on the value stack. It leaves
the frames alone, or puts the topmost one in another position, or takes it away
(`Environment.frames_execute`). So whatever the topmost frame runs, the frames below it stay, and every
loaded program does (`Environment.Preserves`).
-/

namespace PocketScript

namespace Environment

variable {α : Type} {env before middle after : Environment} {frame : Frame} {floor count : Nat}
  {net : Int}

/-! ## The position of the topmost frame -/

theorem frames_at (env : Environment) (pc : Nat) :
    (env.at_ pc).frames =
      env.frames.modify (env.frames.size - 1) ({ · with pc }) := rfl

theorem toList_modify_last {frames : Array Frame} {lower : List Frame}
    (same : frames.toList = lower ++ [frame]) (change : Frame → Frame) :
    (frames.modify (frames.size - 1) change).toList = lower ++ [change frame] := by
  have size : frames.size = lower.length + 1 := by
    rw [← Array.length_toList, same, List.length_append, List.length_singleton]
  apply List.ext_getElem?
  intro index
  rw [Array.getElem?_toList, Array.getElem?_modify, ← Array.getElem?_toList, same, size,
    Nat.add_sub_cancel]
  by_cases last : lower.length = index
  · subst last
    rw [if_pos rfl, List.getElem?_concat_length, List.getElem?_concat_length]
    rfl
  · rw [if_neg last]
    rcases Nat.lt_or_gt_of_ne last with beyond | inside
    · rw [List.getElem?_eq_none, List.getElem?_eq_none] <;>
        rw [List.length_append, List.length_singleton] <;> omega
    · rw [List.getElem?_append_left inside, List.getElem?_append_left inside]

/-- The last position counts. -/
theorem at_at (env : Environment) (first second : Nat) :
    (env.at_ first).at_ second = env.at_ second := by
  have frames : ((env.at_ first).at_ second).frames = (env.at_ second).frames := by
    rw [frames_at, frames_at, frames_at, Array.size_modify]
    apply Array.ext_getElem?
    intro index
    rw [Array.getElem?_modify, Array.getElem?_modify, Array.getElem?_modify]
    split
    · cases env.frames[index]? <;> rfl
    · rfl
  change { env with frames := ((env.at_ first).at_ second).frames } = _
  rw [frames]
  rfl

/-- There are as many frames. -/
theorem size_at (env : Environment) (pc : Nat) :
    (env.at_ pc).frames.size = env.frames.size :=
  Array.size_modify

/-- The topmost one has the position. -/
theorem back?_at (last : env.frames.back? = some frame) (pc : Nat) :
    (env.at_ pc).frames.back? = some { frame with pc } := by
  rw [Array.back?_eq_getElem?] at last ⊢
  rw [frames_at, Array.size_modify, Array.getElem?_modify, if_pos rfl, last]
  rfl

/-- The frame is where it is. -/
theorem at_self (last : env.frames.back? = some frame) :
    env.at_ frame.pc = env := by
  have frames : (env.at_ frame.pc).frames = env.frames := by
    apply Array.ext_getElem?
    intro index
    rw [frames_at, Array.getElem?_modify]
    split
    · rename_i top
      subst top
      rw [← Array.back?_eq_getElem?, last]
      rfl
    · rfl
  change { env with frames := (env.at_ frame.pc).frames } = _
  rw [frames]

/-- What does not see the frames keeps them. -/
theorem Confined.frames_eq {action : Action α} (confined : Confined floor net action)
    (env : Environment) : (action env).2.frames = env.frames := by
  have same := confined.frames env env.frames
  exact congrArg (fun outcome : Except Fault α × Environment => outcome.2.frames) same

/-- Nor does it matter to it where the function goes on. -/
theorem Confined.at_eq {action : Action α} (confined : Confined floor net action)
    (env : Environment) (pc : Nat) :
    action (env.at_ pc) = ((action env).1, (action env).2.at_ pc) := by
  have same := confined.frames env (env.at_ pc).frames
  have kept := confined.frames_eq env
  have there : (action env).2.at_ pc =
      { (action env).2 with frames := (env.at_ pc).frames } := by
    have frames : ((action env).2.at_ pc).frames = (env.at_ pc).frames := by
      rw [frames_at, frames_at, kept]
    rw [← frames]
    rfl
  rw [there]
  exact same

/-- A function that is left takes its position along. -/
theorem leaveFunction_at (base : Nat) (result : Value) (env : Environment) (pc : Nat) :
    leaveFunction base result (env.at_ pc) = leaveFunction base result env := by
  have frames : (env.at_ pc).frames.pop = env.frames.pop := by
    apply Array.ext_getElem?
    intro index
    rw [frames_at, Array.getElem?_pop, Array.getElem?_pop, Array.size_modify, Array.getElem?_modify]
    split
    · rw [if_neg (by omega)]
    · rfl
  rw [leaveFunction_eq, leaveFunction_eq, frames]
  rfl

/-- So does one that is given up. -/
theorem unwind_at {frames : Nat} (above : frames < env.frames.size) (depth pc : Nat) :
    unwind frames depth (env.at_ pc) = unwind frames depth env := by
  have same : (env.at_ pc).frames.shrink frames = env.frames.shrink frames := by
    apply Array.ext_getElem?
    intro index
    by_cases below : index < frames
    · rw [getElem?_shrink below, getElem?_shrink below, frames_at, Array.getElem?_modify,
        if_neg (by omega)]
    · rw [Array.getElem?_eq_none (by rw [Array.size_shrink]; omega),
        Array.getElem?_eq_none (by rw [Array.size_shrink]; omega)]
  rw [unwind_eq, unwind_eq, same]
  rfl

/-! ## Instructions -/

/-- Whether the topmost operand, which is dropped, is true. -/
def truth (activation : Activation) : Action Bool := do
  let value ← pop activation.floor
  let truthy ← view (·.isTruthy value)
  release value
  return truthy

theorem confined_truth {activation : Activation} (below : floor ≤ activation.floor) :
    Confined floor (-1) (truth activation) :=
  (confined_bind (confined_pop below) fun value => confined_after (confined_view fun _ _ => rfl)
    fun truthy => confined_after (confined_release value) fun _ => confined_pure truthy).of_eq rfl

/-- A jump first tells whether a value is true. -/
theorem jumpIf_eq (activation : Activation) (wanted : Bool) (target : Nat)
    (env : Environment) :
    jumpIf activation wanted target env =
      match truth activation env with
      | (.ok truthy, after) => (.ok (), if truthy = wanted then after.at_ target else after)
      | (.error fault, after) => (.error fault, after) := by
  unfold jumpIf truth
  rw [action_bind, action_bind]
  generalize pop activation.floor env = outcome
  obtain ⟨fault | value, after⟩ := outcome
  · rfl
  · simp only
    rw [action_bind_ok (action_view _ _), action_bind_ok (action_view _ _),
      action_bind_ok (action_monadLift _ _), action_bind_ok (action_monadLift _ _), action_pure]
    simp only
    split <;> rfl

/-- What an instruction may do with the frames. -/
inductive Reframes (instr : Instruction) (before after : Environment) : Prop
  | stays (frames : after.frames = before.frames)
  | jumps (jump : instr.op.isJump = true)
      (frames : after.frames = (before.at_ instr.a.toNat).frames)
  | leaves (leaves : instr.op.leaves = true) (frames : after.frames = before.frames.pop)

theorem programs_leaveFunction (base : Nat) (result : Value) (env : Environment) :
    (leaveFunction base result env).2.programs = env.programs ∧
      (leaveFunction base result env).2.frames = env.frames.pop := by
  rw [leaveFunction_eq, push_eq]
  split <;> exact ⟨rfl, rfl⟩

/-- A jump changes the position at most. -/
theorem reframes_jumpIf (activation : Activation) (wanted : Bool) {instr : Instruction}
    (jump : instr.op.isJump = true) (env : Environment) :
    (jumpIf activation wanted instr.a.toNat env).2.programs = env.programs ∧
      Reframes instr env
        (jumpIf activation wanted instr.a.toNat env).2 := by
  have confined : Confined 0 (-1) (truth activation) := confined_truth (Nat.zero_le _)
  have programs := confined.programs env
  have frames := confined.frames_eq env
  rw [jumpIf_eq]
  generalize truth activation env = outcome at programs frames
  obtain ⟨fault | truthy, after⟩ := outcome
  · exact ⟨programs, .stays frames⟩
  · simp only
    split
    · refine ⟨programs, .jumps jump ?_⟩
      rw [frames_at, frames_at, frames]
    · exact ⟨programs, .stays frames⟩

/-- And so it does where the value stays. -/
theorem reframes_jumpOrPop (activation : Activation) (wanted : Bool) {instr : Instruction}
    (jump : instr.op.isJump = true) (env : Environment) :
    (jumpOrPop activation wanted instr.a.toNat env).2.programs =
        env.programs ∧
      Reframes instr env
        (jumpOrPop activation wanted instr.a.toNat env).2 := by
  unfold jumpOrPop
  obtain ⟨-, failed⟩ | ⟨value, -, -, found⟩ := peek_cases activation.floor 0 env
  · rw [action_bind_error failed]
    exact ⟨rfl, .stays rfl⟩
  · rw [action_bind_ok found, action_bind_ok (action_view _ _)]
    split
    · exact ⟨rfl, .jumps jump rfl⟩
    · have confined : Confined 0 (-1) (pop activation.floor >>= fun value => liftM (release value)) :=
        (confined_bind (confined_pop (Nat.zero_le _)) fun value => confined_release value).of_eq rfl
      exact ⟨confined.programs env, .stays (confined.frames_eq env)⟩

/-- What an instruction does with the frames; the programs stay. -/
theorem reframes_execute (activation : Activation) (instr : Instruction)
    (env : Environment) :
    (execute activation instr env).2.programs = env.programs ∧
      Reframes instr env (execute activation instr env).2 := by
  by_cases plain : instr.op.isPlain = true
  · have confined := @confined_execute 0 activation instr (Nat.zero_le _) plain
    exact ⟨confined.programs env, .stays (confined.frames_eq env)⟩
  · obtain ⟨op, a, b⟩ := instr
    cases op with
    | jump => exact ⟨rfl, .jumps rfl rfl⟩
    | jumpIfFalse => exact reframes_jumpIf activation false rfl env
    | jumpIfTrue => exact reframes_jumpIf activation true rfl env
    | jumpIfFalseOrPop => exact reframes_jumpOrPop activation false rfl env
    | jumpIfTrueOrPop => exact reframes_jumpOrPop activation true rfl env
    | call =>
        have confined : Confined 0 0 (requireOperands activation.floor (a.toNat + 1)) :=
          confined_requireOperands _ _
        exact ⟨confined.programs env, .stays (confined.frames_eq env)⟩
    | ret =>
        rw [execute_ret, action_bind]
        obtain ⟨-, failed⟩ | ⟨value, -, -, popped⟩ := pop_cases activation.floor env
        · rw [failed]
          exact ⟨rfl, .stays rfl⟩
        · rw [popped]
          obtain ⟨programs, frames⟩ := programs_leaveFunction activation.base value
            { env with stack := env.stack.pop }
          exact ⟨programs, .leaves rfl frames⟩
    | retUndefined =>
        obtain ⟨programs, frames⟩ :=
          programs_leaveFunction activation.base .undefined env
        exact ⟨programs, .leaves rfl frames⟩
    | _ => exact absurd rfl plain

/-- Where the topmost frame goes on behind an instruction that does not leave it. -/
theorem frames_executed {lower : List Frame} (same : env.frames.toList = lower ++ [frame])
    (activation : Activation) {instr : Instruction}
    (stays : instr.op.leaves = false) :
    ∃ position, (position = frame.pc + instr.size ∨
        instr.op.isJump = true ∧ position = instr.a.toNat) ∧
      (execute activation instr
        (env.at_ (frame.pc + instr.size))).2.frames.toList =
          lower ++ [{ frame with pc := position }] := by
  obtain ⟨-, reframes⟩ := reframes_execute activation instr
    (env.at_ (frame.pc + instr.size))
  have here := toList_modify_last same
  cases reframes with
  | stays unmoved => exact ⟨_, .inl rfl, by rw [unmoved]; exact here _⟩
  | jumps jump moved =>
      refine ⟨_, .inr ⟨jump, rfl⟩, ?_⟩
      rw [moved, at_at]
      exact here _
  | leaves leaves => exact absurd leaves (by rw [stays]; decide)

/-! ## What lies below -/

/-- The lowest frames stay as they are, and every loaded program does. -/
structure Preserves (count : Nat) (before after : Environment) : Prop where
  frames : ∀ index, index < count → after.frames[index]? = before.frames[index]?
  programs : ∀ (unit : Nat) program, before.programs[unit]? = some program →
    after.programs[unit]? = some program

/-- Frames may be preserved step by step. -/
theorem Preserves.trans (one : Preserves count before middle) (two : Preserves count middle after) :
    Preserves count before after :=
  ⟨fun index below => (two.frames index below).trans (one.frames index below),
    fun unit program loaded => two.programs unit program (one.programs unit program loaded)⟩

/-- They are where they do not change. -/
theorem preserves_of_eq (frames : after.frames = before.frames)
    (programs : after.programs = before.programs) : Preserves count before after :=
  ⟨fun _ _ => by rw [frames], fun _ _ loaded => by rw [programs, loaded]⟩

/-- And where nothing is done. -/
theorem preserves_refl (env : Environment) : Preserves count env env :=
  preserves_of_eq rfl rfl

/-- And by what happens backstage. -/
theorem Backstage.preserves (backstage : Backstage before after) (count : Nat) :
    Preserves count before after :=
  ⟨fun _ _ => by rw [backstage.frames], backstage.programs⟩

theorem preserves_at (below : count < env.frames.size) (pc : Nat) :
    Preserves count env (env.at_ pc) := by
  refine ⟨fun index inside => ?_, fun _ _ => id⟩
  rw [frames_at, Array.getElem?_modify, if_neg (by omega)]

/-- Frames above may be taken away. -/
theorem preserves_unwind {frames : Nat} (above : count ≤ frames) (depth : Nat)
    (env : Environment) :
    Preserves count env (unwind frames depth env).2 :=
  ⟨fun _ inside => getElem?_shrink (Nat.lt_of_lt_of_le inside above), fun _ _ => id⟩

/-- An instruction concerns nothing but the frame it belongs to. -/
theorem preserves_execute (activation : Activation) (instr : Instruction)
    (below : count < env.frames.size) :
    Preserves count env (execute activation instr env).2 := by
  obtain ⟨programs, reframes⟩ := reframes_execute activation instr env
  refine ⟨fun index inside => ?_, fun _ _ loaded => by rw [programs, loaded]⟩
  cases reframes with
  | stays frames => rw [frames]
  | jumps jump frames => rw [frames, (preserves_at below _).frames index inside]
  | leaves leaves frames => rw [frames, Array.getElem?_pop, if_pos (by omega)]

theorem preserves_executeNext (below : count < env.frames.size) :
    Preserves count env (executeNext env).2 := by
  obtain ⟨fault, failed⟩ | ⟨frame, function, program, instr, -, executed⟩ :=
    executeNext_cases env
  · rw [failed]
    exact preserves_refl env
  · rw [executed]
    have moved : count < (env.at_ (frame.pc + instr.size)).frames.size := by
      rw [size_at]
      exact below
    exact (preserves_at below _).trans (preserves_execute _ instr moved)

/-- A native function has no frame. -/
theorem preserves_leaveNative (place : Nat) (result : Except Fault Value)
    (env : Environment) :
    Preserves count env (leaveNative place result env).2 := by
  rw [leaveNative_eq]
  cases result with
  | error fault => exact preserves_of_eq rfl rfl
  | ok value =>
      simp only
      rw [push_eq]
      split <;> exact preserves_of_eq rfl rfl

/-- Nor do operands. -/
theorem preserves_pop (base : Nat) (env : Environment) :
    Preserves count env (pop base env).2 := by
  have confined : Confined 0 (-1) (pop base) := confined_pop (Nat.zero_le _)
  exact preserves_of_eq (confined.frames_eq env) (confined.programs env)

end Environment

end PocketScript
