import PocketScript.Proofs.Environment.Continuing

/-!
# The next instruction

What the next instruction of the topmost frame does with the stacks, when the frame's function is
known and its variables are on the stack (`Environment.Stands`): it goes on in the same frame, it
leaves it, or it fails (`Environment.runNext_cases`). Whatever it does, it reaches nothing below the
callee of its frame (`Environment.Stands.aloof_runNext`).
-/

namespace PocketScript

/-- The function that runs in a frame. -/
def Frame.target (frame : Frame) : FunctionRef := ⟨frame.unit, frame.index⟩

namespace Environment

variable {env after : Environment} {frame : Frame} {function : FunctionDef}

/-- The next instruction of the topmost frame together with the call it makes. -/
def runNext : Action (Option EnteredCall) := do
  match ← executeNext with
  | none => return none
  | some argCount => return some (← enterCall argCount)

/-- The topmost frame runs a function of a loaded unit, whose variables are on the stack above the
callee. -/
structure Stands (env : Environment) (frame : Frame) (function : FunctionDef) : Prop where
  last : env.frames.back? = some frame
  known : env.function? frame.target = some function
  callee : 0 < frame.base
  locals : frame.base + function.varCount.toNat ≤ env.stack.size

/-- The next instruction starts at another position. -/
def at_ (env : Environment) (pc : Nat) : Environment := (setPosition pc env).2

theorem function?_eq_some {target : FunctionRef} :
    env.function? target = some function ↔
      ∃ loaded, env.units[target.unit]? = some loaded ∧
        loaded.program.function? target.index = some function :=
  Option.bind_eq_some_iff

/-- Functions are found in the loaded programs. -/
theorem function?_eq (env : Environment) (target : FunctionRef) :
    env.function? target =
      env.programs[target.unit]?.bind (·.function? target.index) := by
  unfold function? programs
  rw [Array.getElem?_map]
  cases env.units[target.unit]? <;> rfl

/-- What an instruction of a frame refers to. -/
def activationOf (frame : Frame) (function : FunctionDef) (program : Program) : Activation where
  unit := frame.unit
  program
  base := frame.base
  varCount := function.varCount.toNat
  closure := frame.closure

section

variable (last : env.frames.back? = some frame)
  (known : env.function? frame.target = some function)

include last known

/-- The next instruction is read from the code of the topmost frame's function. -/
theorem fetch_of :
    ∃ loaded, env.units[frame.unit]? = some loaded ∧
      loaded.program.function? frame.index = some function ∧
        fetch env =
          match function.code.decode frame.pc with
          | .error fault => (.error fault, env)
          | .ok instr =>
              (.ok (activationOf frame function loaded.program, instr),
                env.at_ (frame.pc + instr.size)) := by
  obtain ⟨loaded, unit, found⟩ := function?_eq_some.mp known
  refine ⟨loaded, unit, found, ?_⟩
  unfold fetch
  have program : env.units[frame.unit]?.map (·.program) = some loaded.program := by
    rw [show env.units[frame.unit]? = some loaded from unit]
    rfl
  have code : loaded.program.function? frame.index = some function := found
  rw [action_bind_ok (action_view _ _), last, action_bind_ok (found_some _ _),
    action_bind_ok (action_view _ _), program, action_bind_ok (found_some _ _), code,
    action_bind_ok (found_some _ _)]
  cases function.code.decode frame.pc with
  | error fault => rfl
  | ok instr => rfl

/-- The next instruction is executed, behind which the frame goes on. -/
theorem executeNext_of :
    ∃ loaded, env.units[frame.unit]? = some loaded ∧
      loaded.program.function? frame.index = some function ∧
        executeNext env =
          match function.code.decode frame.pc with
          | .error fault => (.error fault, env)
          | .ok instr =>
              let (outcome, after) :=
                execute (activationOf frame function loaded.program) instr
                  (env.at_ (frame.pc + instr.size))
              (outcome.map fun _ =>
                if instr.op = .call then some instr.a.toNat else none, after) := by
  obtain ⟨loaded, unit, found, fetched⟩ := fetch_of last known
  refine ⟨loaded, unit, found, ?_⟩
  unfold executeNext
  rw [action_bind, fetched]
  cases function.code.decode frame.pc with
  | error fault => rfl
  | ok instr =>
      simp only
      rw [action_bind]
      generalize execute _ instr _ = outcome
      obtain ⟨fault | _, after⟩ := outcome <;> rfl

end

/-- The topmost frame is in front of an instruction of a loaded program. -/
structure Fetches (env : Environment) (frame : Frame) (function : FunctionDef)
    (program : Program) (instr : Instruction) : Prop where
  last : env.frames.back? = some frame
  loaded : env.programs[frame.unit]? = some program
  code : program.function? frame.index = some function
  decodes : function.code.decode frame.pc = .ok instr

/-- The next instruction is read without any effect, but for the position. -/
theorem fetch_cases (env : Environment) :
    (∃ fault, fetch env = (.error fault, env)) ∨
      ∃ frame function program instr,
        env.Fetches frame function program instr ∧
          fetch env = (.ok (activationOf frame function program, instr),
            env.at_ (frame.pc + instr.size)) := by
  unfold fetch
  rw [action_bind_ok (action_view _ _)]
  cases last : env.frames.back? with
  | none => exact .inl ⟨_, rfl⟩
  | some frame =>
      rw [action_bind_ok (found_some _ _), action_bind_ok (action_view _ _)]
      cases loaded : env.units[frame.unit]?.map (·.program) with
      | none => exact .inl ⟨_, rfl⟩
      | some program =>
          rw [action_bind_ok (found_some _ _)]
          have there : env.programs[frame.unit]? = some program :=
            Array.getElem?_map.trans loaded
          cases code : program.function? frame.index with
          | none => exact .inl ⟨_, rfl⟩
          | some function =>
              rw [action_bind_ok (found_some _ _)]
              cases decodes : function.code.decode frame.pc with
              | error fault => exact .inl ⟨_, rfl⟩
              | ok instr =>
                  exact .inr ⟨frame, function, program, instr,
                    ⟨last, there, code, decodes⟩, rfl⟩

/-- The next instruction is executed, or there is none. -/
theorem executeNext_cases (env : Environment) :
    (∃ fault, executeNext env = (.error fault, env)) ∨
      ∃ frame function program instr,
        env.Fetches frame function program instr ∧
          executeNext env =
            let (outcome, after) := execute (activationOf frame function program) instr
              (env.at_ (frame.pc + instr.size))
            (outcome.map fun _ =>
              if instr.op = .call then some instr.a.toNat else none, after) := by
  unfold executeNext
  rw [action_bind]
  obtain ⟨fault, failed⟩ | ⟨frame, function, program, instr, fetches, fetched⟩ :=
    fetch_cases env
  · rw [failed]
    exact .inl ⟨fault, rfl⟩
  · refine .inr ⟨frame, function, program, instr, fetches, ?_⟩
    rw [fetched]
    simp only
    rw [action_bind]
    generalize execute _ instr _ = outcome
    obtain ⟨fault | _, after⟩ := outcome <;> rfl

/-- The instruction that calls only looks whether there are operands enough. -/
theorem execute_call {activation : Activation} {a b : UInt16} {result : Unit}
    (done : execute activation ⟨.call, a, b⟩ env = (.ok result, after)) :
    after = env ∧ activation.floor + (a.toNat + 1) ≤ env.stack.size := by
  change requireOperands activation.floor (a.toNat + 1) env = _ at done
  obtain ⟨-, failed⟩ | ⟨enough, same⟩ :=
    requireOperands_cases activation.floor (a.toNat + 1) env
  · rw [failed] at done
    cases done
  · rw [same] at done
    cases done
    exact ⟨rfl, enough⟩

/-- The arguments of a call that is to be made lie above the variables. -/
theorem executeNext_call {argCount : Nat} (last : env.frames.back? = some frame)
    (calls : executeNext env = (.ok (some argCount), after)) :
    frame.base + (argCount + 1) ≤ after.stack.size := by
  obtain ⟨fault, failed⟩ | ⟨running, function, program, ⟨op, a, b⟩, fetches, executed⟩ :=
    executeNext_cases env
  · cases failed.symm.trans calls
  · obtain rfl : frame = running := Option.some.inj (last.symm.trans fetches.last)
    have same := executed.symm.trans calls
    generalize ran : execute _ _ _ = outcome at same
    obtain ⟨fault | done, middle⟩ := outcome
    · cases same
    · by_cases call : op = .call
      · subst call
        cases same
        obtain ⟨rfl, enough⟩ := execute_call ran
        exact Nat.le_trans (Nat.add_le_add_right (Nat.le_add_right _ _) _) enough
      · simp only [Except.map, if_neg call] at same
        cases same

/-- The loaded programs, the notes on globals and the frames below the topmost one are as they
were. -/
structure KeepsBelow (before after : Environment) : Prop where
  frames : ∀ index, index + 1 < before.frames.size → after.frames[index]? = before.frames[index]?
  count : before.frames.size ≤ after.frames.size + 1
  programs : after.programs = before.programs
  config : after.config = before.config
  notes : before.NotesInBounds → after.NotesInBounds

theorem Continues.keepsBelow {before after : Environment} {floor : Nat}
    (continues : Continues floor before after) : KeepsBelow before after :=
  ⟨fun _ below => continues.frames.getElem? below, by rw [continues.frames.size]; omega,
    continues.programs, continues.config, continues.notes⟩

theorem KeepsBelow.refl (env : Environment) : KeepsBelow env env :=
  ⟨fun _ _ => rfl, Nat.le_succ _, rfl, rfl, id⟩

/-- The topmost frame is gone, and the result of its function lies in the place of the callee. -/
structure Leaves (base : Nat) (before after : Environment) : Prop where
  frames : after.frames = before.frames.pop
  height : after.stack.size = base

theorem leaveFunction_cases (base : Nat) (result : Value) (env : Environment)
    (callee : 0 < base) (enough : base ≤ env.stack.size) :
    KeepsBelow env (leaveFunction base result env).2 ∧
      ∀ done after, leaveFunction base result env = (.ok done, after) →
        Leaves base env after := by
  have below : ∀ index, index + 1 < env.frames.size →
      env.frames.pop[index]? = env.frames[index]? := by
    intro index below
    rw [Array.getElem?_pop, if_pos (by omega)]
  have count : env.frames.size ≤ env.frames.pop.size + 1 := by
    rw [Array.size_pop]
    omega
  rw [leaveFunction_eq, push_eq]
  split
  · refine ⟨⟨below, count, rfl, rfl, fun notes => notes.mono rfl (Nat.le_refl _)⟩, fun done after same => ?_⟩
    cases same
    refine ⟨rfl, ?_⟩
    change ((env.stack.shrink (base - 1)).push result).size = base
    rw [Array.size_push, Array.size_shrink]
    omega
  · refine ⟨⟨below, count, rfl, rfl, fun notes => notes.mono rfl (Nat.le_refl _)⟩, fun done after same => ?_⟩
    cases same

theorem execute_ret (activation : Activation) (a b : UInt16) :
    execute activation ⟨.ret, a, b⟩ =
      pop activation.floor >>= leaveFunction activation.base := rfl

theorem execute_retUndefined (activation : Activation) (a b : UInt16) :
    execute activation ⟨.retUndefined, a, b⟩ = leaveFunction activation.base .undefined := rfl

/-- What an instruction that leaves its function comes to. -/
theorem execute_leaving {activation : Activation} {instr : Instruction}
    (leaves : instr.op.leaves = true) (callee : 0 < activation.base)
    (locals : activation.floor ≤ env.stack.size) :
    KeepsBelow env (execute activation instr env).2 ∧
      ∀ done after, execute activation instr env = (.ok done, after) →
        Leaves activation.base env after := by
  have above : activation.base ≤ activation.floor := Nat.le_add_right _ _
  obtain ⟨op, a, b⟩ := instr
  cases op with
  | ret =>
      rw [execute_ret, action_bind]
      obtain ⟨-, failed⟩ | ⟨value, many, -, popped⟩ := pop_cases activation.floor env
      · rw [failed]
        exact ⟨.refl _, fun _ _ same => by cases same⟩
      · rw [popped]
        have enough : activation.base ≤ env.stack.pop.size := by
          rw [Array.size_pop]
          omega
        obtain ⟨⟨frames, count, programs, config, notes⟩, done⟩ :=
          leaveFunction_cases activation.base value
            { env with stack := env.stack.pop } callee enough
        exact ⟨⟨frames, count, programs, config, notes⟩, fun result after same =>
          ⟨(done result after same).frames, (done result after same).height⟩⟩
  | retUndefined =>
      rw [execute_retUndefined]
      exact leaveFunction_cases _ _ _ callee (Nat.le_trans above locals)
  | _ => cases leaves

/-- Where a function may go on from is not changed by its position. -/
theorem Continues.of_at {floor pc : Nat} {before after : Environment}
    (continues : Continues floor (before.at_ pc) after) : Continues floor before after where
  height := continues.height
  frames := SameFrames.trans (.inr ⟨pc, rfl⟩) continues.frames
  programs := continues.programs
  config := continues.config
  globals := continues.globals
  notes := continues.notes

/-- Nor is what lies below the running frame. -/
theorem KeepsBelow.of_at {pc : Nat} {before after : Environment}
    (keeps : KeepsBelow (before.at_ pc) after) : KeepsBelow before after := by
  have same : SameFrames before (before.at_ pc) := .inr ⟨pc, rfl⟩
  refine ⟨fun index below => ?_, same.size ▸ keeps.count, keeps.programs, keeps.config, keeps.notes⟩
  rw [keeps.frames index (by rw [same.size]; exact below), same.getElem? below]

/-- Nor which frame was left. -/
theorem Leaves.of_at {base pc : Nat} {before after : Environment}
    (leaves : Leaves base (before.at_ pc) after) : Leaves base before after := by
  refine ⟨?_, leaves.height⟩
  rw [leaves.frames]
  apply Array.ext_getElem?
  intro index
  change (before.frames.modify (before.frames.size - 1) _).pop[index]? = _
  rw [Array.getElem?_pop, Array.getElem?_pop, Array.size_modify, Array.getElem?_modify]
  split
  · rw [if_neg (by omega)]
  · rfl

/-- What the next instruction comes to: the frame goes on, perhaps behind a call it is about to make,
or it is left. -/
theorem Stands.executeNext_cases (stands : env.Stands frame function) :
    KeepsBelow env (executeNext env).2 ∧
      match executeNext env with
      | (.ok none, after) =>
          Continues (frame.base + function.varCount.toNat) env after ∨
            Leaves frame.base env after
      | (.ok (some argCount), after) =>
          Continues (frame.base + function.varCount.toNat) env after ∧
            frame.base + function.varCount.toNat + (argCount + 1) ≤ after.stack.size
      | (.error _, _) => True := by
  obtain ⟨loaded, unit, -, same⟩ := executeNext_of stands.last stands.known
  rw [same]
  cases function.code.decode frame.pc with
  | error fault => exact ⟨.refl _, trivial⟩
  | ok instr =>
      simp only
      have locals := stands.locals
      cases leaves : instr.op.leaves with
      | false =>
          have continues := (stepwise_settled (activationOf frame function loaded.program)).execute_staying
            leaves (env.at_ (frame.pc + instr.size)) locals
          generalize ran : execute _ instr _ = outcome at continues
          obtain ⟨fault | _, after⟩ := outcome
          · exact ⟨continues.of_at.keepsBelow, trivial⟩
          · refine ⟨continues.of_at.keepsBelow, ?_⟩
            by_cases call : instr.op = .call
            · simp only [Except.map, if_pos call]
              obtain ⟨op, a, b⟩ := instr
              subst call
              obtain ⟨rfl, enough⟩ := execute_call ran
              exact ⟨continues.of_at, enough⟩
            · simp only [Except.map, if_neg call]
              exact .inl continues.of_at
      | true =>
          obtain ⟨below, left⟩ := @execute_leaving (env.at_ (frame.pc + instr.size))
            (activationOf frame function loaded.program) instr leaves stands.callee locals
          have noCall : instr.op ≠ .call := by
            intro call
            rw [call] at leaves
            cases leaves
          have below := below.of_at
          generalize execute _ instr _ = outcome at below left
          obtain ⟨fault | _, after⟩ := outcome
          · exact ⟨below, trivial⟩
          · simp only [Except.map, if_neg noCall]
            exact ⟨below, .inr (left _ after rfl).of_at⟩

/-- The next instruction, with the call it makes, reaches nothing below the callee of its frame. -/
theorem Stands.aloof_runNext (stands : env.Stands frame function) :
    AloofAt (frame.base - 1) env runNext := by
  intro below size
  have locals := stands.locals
  have enough : below.size ≤ env.stack.size := by omega
  have stands' : (env.onto below).Stands frame function :=
    ⟨stands.last, stands.known, stands.callee, by rw [size_onto enough]; exact locals⟩
  obtain ⟨loaded, unit, -, same⟩ := executeNext_of stands.last stands.known
  obtain ⟨loaded', unit', -, same'⟩ := executeNext_of stands'.last stands'.known
  obtain rfl : loaded = loaded' := by
    have agree : some loaded = some loaded' := unit.symm.trans unit'
    injection agree
  unfold runNext
  rw [action_bind, action_bind, same, same']
  cases function.code.decode frame.pc with
  | error fault => exact ⟨rfl, by rw [size] at enough; exact enough⟩
  | ok instr =>
      have low : frame.base - 1 ≤ frame.base := Nat.sub_le _ _
      have stepwise : Stepwise (activationOf frame function loaded.program)
          (Aloof (frame.base - 1)) := stepwise_aloof low
      have aloof := stepwise.execute (fun result => aloof_leaveFunction (Nat.le_refl _) result)
        instr
      obtain ⟨ran, kept⟩ := aloof (env.at_ (frame.pc + instr.size))
        (by rw [size] at enough; exact enough) below size
      have position : (env.onto below).at_ (frame.pc + instr.size) =
          (env.at_ (frame.pc + instr.size)).onto below := rfl
      simp only
      rw [position, ran]
      generalize env.at_ (frame.pc + instr.size) = here at kept
      generalize executed : execute _ instr here = outcome at kept
      obtain ⟨fault | _, after⟩ := outcome
      · exact ⟨rfl, kept⟩
      · by_cases call : instr.op = .call
        · simp only [Except.map, if_pos call]
          obtain ⟨op, a, b⟩ := instr
          subst call
          obtain ⟨rfl, operands⟩ := execute_call executed
          have high : frame.base - 1 + (a.toNat + 1) ≤ after.stack.size := by
            refine Nat.le_trans ?_ operands
            change _ ≤ frame.base + function.varCount.toNat + (a.toNat + 1)
            omega
          obtain ⟨called, kept⟩ := aloofAt_enterCall high below size
          rw [action_bind, action_bind, called]
          generalize enterCall a.toNat _ = outcome at kept
          obtain ⟨fault | entered, after⟩ := outcome
          · exact ⟨rfl, kept⟩
          · exact ⟨rfl, kept⟩
        · simp only [Except.map, if_neg call]
          exact ⟨rfl, kept⟩

end Environment

end PocketScript
