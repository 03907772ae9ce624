import PocketScript.Proofs.Environment.Stepwise

/-!
# What entering and leaving a call does

The outcome of each step of a call, with its conditions in the order in which they are tested. A call
that cannot be entered leaves everything as it was.
-/

namespace PocketScript

namespace Environment

variable {env : Environment} {place : Nat}

/-- The environment in which the variables of a function with a callee in front of them are laid
out. -/
def laidOut (env : Environment) (base argCount varCount : Nat) : Environment :=
  (layOutVariables base argCount varCount env).2

theorem stack_laidOut (env : Environment) (base argCount varCount : Nat) :
    (env.laidOut base argCount varCount).stack =
      env.stack.shrink (base + argCount) ++
        Array.replicate (base + varCount - (env.stack.shrink (base + argCount)).size)
          .undefined := rfl

theorem laidOut_eq (env : Environment) (base argCount varCount : Nat) :
    env.laidOut base argCount varCount =
      { env with
        stack := (env.laidOut base argCount varCount).stack
        heap := (env.laidOut base argCount varCount).heap } := rfl

theorem size_laidOut {base argCount varCount : Nat} (fits : argCount ≤ varCount) :
    (env.laidOut base argCount varCount).stack.size = base + varCount := by
  rw [stack_laidOut, Array.size_append, Array.size_replicate, Array.size_shrink]
  omega

/-- The frame that a function is given. -/
def entered (target : FunctionRef) (closure : Option Handle) (callee : Nat) : Frame :=
  { unit := target.unit, index := target.index, pc := 0, base := callee + 1, closure }

theorem enterFunction_eq (target : FunctionRef) (closure : Option Handle) (callee : Nat)
    (env : Environment) :
    enterFunction target closure callee env =
      if env.frames.size < env.config.maxCallDepth then
        match env.function? target with
        | none => (.error .invalidOperand, env)
        | some function =>
            if function.varCount.toNat < function.argCount.toNat then
              (.error .invalidOperand, env)
            else if env.config.stackSize <
                callee + 1 + function.varCount.toNat + function.stackHigh.toNat then
              (.error .stackOverflow, env)
            else
              (.ok (),
                { env.laidOut (callee + 1) function.argCount.toNat function.varCount.toNat with
                  frames := env.frames.push (entered target closure callee) })
      else (.error .callDepthExceeded, env) := by
  unfold enterFunction
  rw [action_bind_ok (action_view _ _), action_bind_ok (action_view _ _)]
  split
  · simp only
    rw [action_bind_ok (action_view _ _)]
    cases env.function? target with
    | none => rfl
    | some function =>
        simp only
        rw [action_bind_ok (action_pure _ _)]
        split
        · rfl
        · rw [action_bind_ok (action_view _ _)]
          split <;> rfl
  · rfl

/-- A function is given its frame, or nothing happens. -/
theorem enterFunction_cases (target : FunctionRef) (closure : Option Handle) (callee : Nat)
    (env : Environment) :
    (∃ fault, enterFunction target closure callee env = (.error fault, env)) ∨
      ∃ function, env.function? target = some function ∧
        enterFunction target closure callee env =
          (.ok (), { env.laidOut (callee + 1) function.argCount.toNat
            function.varCount.toNat with
              frames := env.frames.push (entered target closure callee) }) := by
  rw [enterFunction_eq]
  split
  · cases env.function? target with
    | none => exact .inl ⟨_, rfl⟩
    | some function =>
        simp only
        split
        · exact .inl ⟨_, rfl⟩
        · split
          · exact .inl ⟨_, rfl⟩
          · exact .inr ⟨function, rfl, rfl⟩
  · exact .inl ⟨_, rfl⟩

/-- What a call of the value in a place of the stack comes to. -/
theorem enterCall_eq (argCount : Nat) (env : Environment) :
    enterCall argCount env =
      if env.stack.size < argCount + 1 then (.error .stackUnderflow, env)
      else
        let callee := env.stack.size - (argCount + 1)
        match env.stack[callee]? with
        | some (.function target) =>
            let (outcome, after) := enterFunction target none callee env
            (outcome.map fun _ => .script, after)
        | some (.closure block) =>
            match env.heap.closureTarget? block with
            | none => (.error .typeMismatch, env)
            | some target =>
                let (outcome, after) := enterFunction target (some block) callee env
                (outcome.map fun _ => .script, after)
        | some (.native id) =>
            match env.natives[id]? with
            | none => (.error .notCallable, env)
            | some native =>
                (.ok (.native (native.run (env.stack.extract (callee + 1)).toList).run callee),
                  env)
        | some _ => (.error .notCallable, env)
        | none => (.error .invalidOperand, env) := by
  unfold enterCall
  rw [action_bind_ok (action_view _ _)]
  split
  · rfl
  · simp only
    cases there : env.stack[env.stack.size - (argCount + 1)]? with
    | none => rw [action_bind_error (slot_eq_error there)]
    | some value =>
        rw [action_bind_ok (slot_eq_ok there)]
        cases value with
        | function target =>
            simp only
            rw [action_bind]
            generalize enterFunction target none _ env = outcome
            obtain ⟨fault | _, after⟩ := outcome <;> rfl
        | closure block =>
            simp only
            rw [action_bind_ok (action_view _ _)]
            cases env.heap.closureTarget? block with
            | none => rfl
            | some target =>
                simp only
                rw [action_bind]
                generalize enterFunction target (some block) _ env = outcome
                obtain ⟨fault | _, after⟩ := outcome <;> rfl
        | native id =>
            simp only
            rw [action_bind_ok (action_view _ _)]
            cases env.natives[id]? with
            | none => rfl
            | some native => rfl
        | _ => rfl

/-- The environment with new references to values on the stack. -/
def sharing (env : Environment) (values : List Value) : Environment :=
  { env with
    stack := env.stack ++ values.toArray
    heap := values.foldl Heap.retain env.heap }

theorem sharing_nil (env : Environment) : env.sharing [] = env := by
  unfold sharing
  rw [Array.append_empty]
  rfl

theorem sharing_cons (env : Environment) (value : Value) (rest : List Value) :
    env.sharing (value :: rest) = (env.sharing [value]).sharing rest := by
  have stack : env.stack ++ (value :: rest).toArray =
      env.stack ++ [value].toArray ++ rest.toArray := by
    rw [Array.append_assoc, List.append_toArray [value] rest, List.singleton_append]
  unfold sharing
  rw [stack]
  rfl

theorem pushShared_eq (value : Value) (env : Environment)
    (room : env.stack.size < env.config.stackSize) :
    pushShared value env = (.ok (), env.sharing [value]) := by
  unfold pushShared push
  rw [action_bind_ok (action_lift _ _), action_bind_ok (action_view _ _),
    action_bind_ok (action_view _ _)]
  change (if env.stack.size < env.config.stackSize then _ else _ : Action Unit) _ = _
  rw [if_pos room]
  rfl

theorem pushAll_eq (values : List Value) (env : Environment)
    (room : env.stack.size + values.length ≤ env.config.stackSize) :
    (values.forM pushShared : Action Unit) env =
      (.ok (), env.sharing values) := by
  induction values generalizing env with
  | nil =>
      rw [sharing_nil]
      rfl
  | cons value rest ih =>
      rw [List.length_cons] at room
      change (pushShared value >>= fun _ => rest.forM pushShared) env = _
      rw [action_bind_ok (pushShared_eq value env (by omega)),
        sharing_cons env value rest]
      refine ih _ ?_
      change (env.stack ++ #[value]).size + rest.length ≤ env.config.stackSize
      have one : #[value].size = 1 := rfl
      rw [Array.size_append, one]
      omega

/-- A call from outside puts the callee and the arguments on the stack, when there is room for
them. -/
theorem enterHostCall_eq (callee : Value) (args : List Value) (env : Environment) :
    enterHostCall callee args env =
      if callee.isFunction then
        if env.config.stackSize < env.stack.size + (args.length + 1) then
          (.error .stackOverflow, env)
        else enterCall args.length (env.sharing (callee :: args))
      else (.error .notCallable, env) := by
  unfold enterHostCall
  split
  · simp only
    rw [action_bind_ok (action_view _ _), action_bind_ok (action_view _ _)]
    split
    · rfl
    · rename_i room
      have pushed : (pushShared callee >>= fun _ => args.forM pushShared) env =
          (.ok (), env.sharing (callee :: args)) :=
        pushAll_eq (callee :: args) env (by rw [List.length_cons]; omega)
      obtain ⟨_, middle, first, rest⟩ := action_bind_eq_ok.mp pushed
      rw [action_bind_ok first, action_bind_ok rest]
  · rfl

/-! ## Leaving -/

theorem getElem?_shrink {β : Type} {values : Array β} {count index : Nat} (below : index < count) :
    (values.shrink count)[index]? = values[index]? := by
  rw [Array.shrink_eq_take, Array.take_eq_extract, Array.getElem?_extract]
  split
  · rw [Nat.zero_add]
  · rw [Array.getElem?_eq_none]
    omega

theorem toList_extract_from {β : Type} (values : Array β) (place : Nat) :
    (values.extract place).toList = values.toList.drop place := by
  rw [Array.toList_extract, List.extract_eq_take_drop]
  exact List.take_of_length_le (Nat.le_of_eq (by rw [List.length_drop, Array.length_toList]))

/-- The environment without what lies on the stack from a place on. -/
def dropped (env : Environment) (place : Nat) : Environment :=
  { env with
    stack := env.stack.shrink place
    heap := env.heap.releaseAll (env.stack.extract place).toList }

theorem leaveNative_eq (place : Nat) (result : Except Fault Value) (env : Environment) :
    leaveNative place result env =
      match result with
      | .ok value => push value (env.dropped place)
      | .error fault => (.error fault, env.dropped place) := by
  unfold leaveNative
  rw [action_bind_ok (action_lift _ _)]
  cases result <;> rfl

theorem leaveFunction_eq (base : Nat) (result : Value) (env : Environment) :
    leaveFunction base result env =
      push result { env.dropped (base - 1) with frames := env.frames.pop } := by
  unfold leaveFunction
  rw [action_bind_ok (action_lift _ _), action_bind_ok (action_modify _ _)]
  rfl

theorem unwind_eq (frames depth : Nat) (env : Environment) :
    unwind frames depth env =
      ((), { env.dropped depth with frames := env.frames.shrink frames }) := rfl

end Environment

end PocketScript
