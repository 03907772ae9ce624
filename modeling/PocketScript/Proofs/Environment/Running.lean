import PocketScript.Proofs.Environment.Blind

/-!
# A running function with operands on the stack

The environment of a running function, told apart into an environment without the function's
operands, the operands, the position of the next instruction, and the units with their notes on
globals (`Environment.running`). What the parts of instructions do in such an environment follows from
what they do without operands.
-/

namespace PocketScript

namespace Environment

variable {α : Type} {env : Environment} {units : Array LoadedUnit} {pc : Nat}
  {operands : List Value} {floor : Nat}

/-- The environment with further operands on the stack, the running function at a position, and the
notes of the units as given. -/
def running (env : Environment) (units : Array LoadedUnit) (pc : Nat)
    (operands : List Value) : Environment :=
  { env with
    stack := env.stack ++ operands.toArray
    frames := env.frames.modify (env.frames.size - 1) ({ · with pc })
    units }

/-- Units with the programs of an environment. -/
def HasPrograms (env : Environment) (units : Array LoadedUnit) : Prop :=
  units.map (·.program) = env.programs

theorem alike_running (same : env.HasPrograms units) (pc : Nat) (operands : List Value) :
    Alike env (env.running units pc operands) :=
  ⟨same, rfl⟩

/-- What is blind does not notice that a function is running. -/
theorem Blind.running {update : Update α} (blind : Blind update)
    (same : env.HasPrograms units) (pc : Nat) (operands : List Value) :
    update (env.running units pc operands) =
      ((update env).1, (update env).2.running units pc operands) := by
  have told := blind env _ (alike_running same pc operands)
  rw [blind.after env]
  exact told

/-- Likewise for an action. -/
theorem Blind.runningAction {action : Action α} (blind : Blind action.run)
    (same : env.HasPrograms units) (pc : Nat) (operands : List Value) :
    action (env.running units pc operands) =
      ((action env).1, (action env).2.running units pc operands) :=
  Blind.running blind same pc operands

theorem sees_running {tell : Environment → α} (sees : Sees tell)
    (same : env.HasPrograms units) (pc : Nat) (operands : List Value) :
    tell (env.running units pc operands) = tell env :=
  sees env _ (alike_running same pc operands)

/-! ## The stack -/

theorem stack_running (env : Environment) (units : Array LoadedUnit) (pc : Nat)
    (operands : List Value) :
    (env.running units pc operands).stack = env.stack ++ operands.toArray := rfl

theorem size_stack_running (env : Environment) (units : Array LoadedUnit) (pc : Nat)
    (operands : List Value) :
    (env.running units pc operands).stack.size =
      env.stack.size + operands.length := by
  simp only [stack_running, Array.size_append, List.size_toArray]

/-- One more operand is pushed. -/
theorem stack_running_push (env : Environment) (units : Array LoadedUnit) (pc : Nat)
    (operands : List Value) (value : Value) :
    (env.running units pc (operands ++ [value])).stack =
      (env.running units pc operands).stack.push value := by
  simp only [stack_running, List.push_toArray, Array.push_append]

/-- A push adds an operand where there is room. -/
theorem push_running {value : Value}
    (room : env.stack.size + operands.length < env.config.stackSize) :
    push value (env.running units pc operands) =
      (.ok (), env.running units pc (operands ++ [value])) := by
  unfold push
  rw [action_bind_ok (action_view _ _), action_bind_ok (action_view _ _), size_stack_running,
    if_pos (show _ < (env.running units pc operands).config.stackSize from room),
    action_modify, ← stack_running_push]
  rfl

/-- The value is retained if it is shared. -/
theorem pushShared_running {value : Value} (same : env.HasPrograms units)
    (room : env.stack.size + operands.length < env.config.stackSize) :
    pushShared value (env.running units pc operands) =
      (.ok (), (retain value env).2.running units pc (operands ++ [value])) := by
  unfold pushShared
  rw [action_bind_ok (action_lift _ _), (blind_retain value).running same]
  exact push_running room

/-- An operand below others. -/
theorem getElem?_running_operand {before behind : List Value} {value : Value} :
    (env.running units pc (before ++ value :: behind)).stack[
      env.stack.size + before.length]? = some value := by
  rw [stack_running, Array.getElem?_append_right (Nat.le_add_right _ _), Nat.add_sub_cancel_left,
    List.getElem?_toArray, List.getElem?_append_right (Nat.le_refl _), Nat.sub_self]
  rfl

/-- There are as many operands as are counted. -/
theorem requireOperands_running {count : Nat} (above : floor ≤ env.stack.size)
    (enough : count ≤ operands.length) :
    requireOperands floor count (env.running units pc operands) =
      (.ok (), env.running units pc operands) := by
  unfold requireOperands
  rw [action_bind_ok (action_view _ _), size_stack_running, if_neg (by omega)]
  rfl

/-- What is there is found. -/
theorem found_some (value : α) (env : Environment) :
    found (some value) env = (.ok value, env) := rfl

/-- A slot that is there is seen. -/
theorem slot_eq_ok {place : Nat} {value : Value} (found : env.stack[place]? = some value) :
    slot place env = (.ok value, env) := by
  unfold slot
  rw [action_bind_ok (action_view _ _), found]
  rfl

theorem slot_eq_error {place : Nat} (missing : env.stack[place]? = none) :
    slot place env = (.error .invalidOperand, env) := by
  unfold slot
  rw [action_bind_ok (action_view _ _), missing]
  rfl

/-- An operand is seen below as many others. -/
theorem peek_running {before behind : List Value} {value : Value} {below : Nat}
    (above : floor ≤ env.stack.size) (here : behind.length = below) :
    peek floor below (env.running units pc (before ++ value :: behind)) =
      (.ok value, env.running units pc (before ++ value :: behind)) := by
  have length : (before ++ value :: behind).length = before.length + (below + 1) := by
    rw [List.length_append, List.length_cons, here]
  unfold peek
  rw [action_bind_ok (requireOperands_running above (by omega)), action_bind_ok (action_view _ _)]
  apply slot_eq_ok
  rw [size_stack_running, length]
  rw [show env.stack.size + (before.length + (below + 1)) - 1 - below =
    env.stack.size + before.length by omega]
  exact getElem?_running_operand

/-- The last operand lies on top. -/
theorem peek_running_last {value : Value} (above : floor ≤ env.stack.size) :
    peek floor 0 (env.running units pc (operands ++ [value])) =
      (.ok value, env.running units pc (operands ++ [value])) :=
  peek_running above rfl

/-- And the one before below it. -/
theorem peek_running_second {first second : Value} (above : floor ≤ env.stack.size) :
    peek floor 1 (env.running units pc (operands ++ [first, second])) =
      (.ok first, env.running units pc (operands ++ [first, second])) :=
  @peek_running env units pc floor operands [second] first 1 above rfl

/-- The last operand is taken. -/
theorem pop_running {value : Value} (above : floor ≤ env.stack.size) :
    pop floor (env.running units pc (operands ++ [value])) =
      (.ok value, env.running units pc operands) := by
  unfold pop
  rw [action_bind_ok (peek_running_last above), action_bind_ok (action_modify _ _),
    stack_running_push, Array.pop_push]
  rfl

/-- What lies above a part of the stack is taken. -/
theorem takeFrom_append {below : Array Value} {values : List Value}
    (split : env.stack = below ++ values.toArray) :
    takeFrom below.size env = (values, { env with stack := below }) := by
  have taken : (env.stack.extract below.size).toList = values := by
    simp only [split, Array.size_append, Array.extract_append_right, List.extract_toArray,
      List.extract_eq_take_drop, List.size_toArray, Nat.sub_zero, List.drop_zero, List.take_length]
  have left : env.stack.shrink below.size = below := by
    simp only [split, Array.shrink_eq_take, Array.take_eq_extract, Array.extract_append_left,
      Array.extract_size]
  simp only [takeFrom, update_bind, update_view, update_modify, update_pure, taken, left]

/-- The operands from a place on are taken together. -/
theorem takeFrom_running {values : List Value} :
    takeFrom (env.stack.size + operands.length)
        (env.running units pc (operands ++ values)) =
      (values, env.running units pc operands) := by
  have split : (env.running units pc (operands ++ values)).stack =
      (env.running units pc operands).stack ++ values.toArray := by
    simp only [stack_running, ← List.append_toArray, Array.append_assoc]
  rw [← size_stack_running env units pc operands, takeFrom_append split]
  rfl

/-- And so are the last few. -/
theorem popMany_running {values : List Value} {count : Nat} (above : floor ≤ env.stack.size)
    (all : values.length = count) :
    popMany floor count (env.running units pc (operands ++ values)) =
      (.ok values, env.running units pc operands) := by
  unfold popMany
  rw [action_bind_ok (requireOperands_running above (by rw [List.length_append]; omega)),
    action_bind_ok (action_view _ _), size_stack_running, List.length_append, all,
    ← Nat.add_assoc, Nat.add_sub_cancel, action_lift, takeFrom_running]

/-! ## Variables

They lie below the operands. -/

/-- The variables lie below the operands. -/
theorem getElem?_running_variable {place : Nat} (below : place < env.stack.size) :
    (env.running units pc operands).stack[place]? = env.stack[place]? := by
  rw [stack_running, Array.getElem?_append_left below]

theorem slot_running {place : Nat} (below : place < env.stack.size) :
    slot place (env.running units pc operands) =
      ((slot place env).1, (slot place env).2.running units pc operands) := by
  have found := Array.getElem?_eq_getElem below
  rw [slot_eq_ok found, slot_eq_ok ((getElem?_running_variable below).trans found)]

theorem replaceSlot_eq_ok {place : Nat} {old : Value} (value : Value)
    (found : env.stack[place]? = some old) :
    replaceSlot place value env =
      (.ok old, { env with stack := env.stack.setIfInBounds place value }) := by
  unfold replaceSlot
  rw [action_bind_ok (slot_eq_ok found), action_bind_ok (action_modify _ _)]
  rfl

/-- A variable does so whatever operands there are. -/
theorem replaceSlot_running {place : Nat} {value : Value} (below : place < env.stack.size) :
    replaceSlot place value (env.running units pc operands) =
      ((replaceSlot place value env).1,
        (replaceSlot place value env).2.running units pc operands) := by
  have found := Array.getElem?_eq_getElem below
  rw [replaceSlot_eq_ok value found,
    replaceSlot_eq_ok value ((getElem?_running_variable below).trans found), stack_running,
    Array.setIfInBounds_append_left below]
  rfl

/-! ## The running function -/

/-- The position moves alone. -/
theorem setPosition_running (env : Environment) (units : Array LoadedUnit) (pc next : Nat)
    (operands : List Value) :
    setPosition next (env.running units pc operands) =
      ((), env.running units next operands) := by
  have frames : ∀ frames : Array Frame,
      (frames.modify (frames.size - 1) ({ · with pc })).modify (frames.size - 1)
        ({ · with pc := next }) = frames.modify (frames.size - 1) ({ · with pc := next }) := by
    intro frames
    apply Array.ext
    · simp only [Array.size_modify]
    · intro index _ _
      simp only [Array.getElem_modify]
      split <;> rfl
  unfold setPosition
  rw [update_modify]
  simp only [running, Array.size_modify, frames]

/-- There are as many frames. -/
theorem size_frames_running (env : Environment) (units : Array LoadedUnit) (pc : Nat)
    (operands : List Value) :
    (env.running units pc operands).frames.size = env.frames.size :=
  Array.size_modify

/-- The topmost frame of an environment is an activation of a function, and the function's variables
are on the stack. -/
structure Hosts (env : Environment) (activation : Activation) (function : FunctionDef) :
    Prop where
  frame : ∃ frame, env.frames.back? = some frame ∧ frame.unit = activation.unit ∧
    frame.base = activation.base ∧ frame.closure = activation.closure ∧
      activation.program.function? frame.index = some function
  program : env.programs[activation.unit]? = some activation.program
  varCount : function.varCount.toNat = activation.varCount
  inStack : activation.floor ≤ env.stack.size

variable {activation : Activation} {function : FunctionDef} {instr : Instruction}

theorem back?_running {frame : Frame} (last : env.frames.back? = some frame) :
    (env.running units pc operands).frames.back? = some { frame with pc } := by
  rw [Array.back?_eq_getElem?] at last ⊢
  change (env.frames.modify (env.frames.size - 1) _)[
    (env.frames.modify (env.frames.size - 1) _).size - 1]? = _
  rw [Array.size_modify, Array.getElem?_modify, if_pos rfl, last]
  rfl

/-- The units hold the same programs. -/
theorem HasPrograms.unit (same : env.HasPrograms units) {unit : Nat} {program : Program}
    (found : env.programs[unit]? = some program) :
    ∃ loaded, units[unit]? = some loaded ∧ loaded.program = program := by
  rw [← same, Array.getElem?_map] at found
  exact Option.map_eq_some_iff.mp found

/-- The next instruction is read, and the running function moves on behind it. -/
theorem fetch_running (hosts : env.Hosts activation function)
    (same : env.HasPrograms units) (decodes : function.code.decode pc = .ok instr) :
    fetch (env.running units pc operands) =
      (.ok (activation, instr),
        env.running units (pc + instr.size) operands) := by
  obtain ⟨frame, last, unit, base, closure, known⟩ := hosts.frame
  obtain ⟨loaded, there, program⟩ := same.unit hosts.program
  have running : (env.running units pc operands).units[frame.unit]?.map (·.program) =
      some activation.program := by
    change units[frame.unit]?.map (·.program) = _
    rw [unit, there, Option.map_some, program]
  unfold fetch
  rw [action_bind_ok (action_view _ _), back?_running last, action_bind_ok (found_some _ _),
    action_bind_ok (action_view _ _), running, action_bind_ok (found_some _ _), known,
    action_bind_ok (found_some _ _)]
  simp only [decodes]
  rw [action_bind_ok (action_lift _ _), setPosition_running]
  simp only [unit, base, closure, hosts.varCount]
  rfl

/-- What is left of an instruction's outcome is whether it is a call. -/
theorem executeNext_running (hosts : env.Hosts activation function)
    (same : env.HasPrograms units) (decodes : function.code.decode pc = .ok instr) :
    executeNext (env.running units pc operands) =
      match execute activation instr
          (env.running units (pc + instr.size) operands) with
      | (.ok _, after) =>
          (.ok (if instr.op = .call then some instr.a.toNat else none), after)
      | (.error fault, after) => (.error fault, after) := by
  unfold executeNext
  rw [action_bind_ok (fetch_running hosts same decodes)]
  simp only
  rw [action_bind]
  generalize execute activation instr _ = outcome
  obtain ⟨_ | _, _⟩ := outcome <;> rfl

end Environment

end PocketScript
