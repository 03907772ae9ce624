import PocketScript.Proofs.Environment.Entering

/-!
# What an instruction cannot reach

An action is aloof from the stack below a place when it does the same whatever lies there, and leaves
it there (`Environment.Aloof`). The instructions of a function are aloof from everything below its
callee, and so are the calls they make (`Environment.aloof_runNext`).
-/

namespace PocketScript

namespace Environment

variable {α β : Type} {env : Environment} {place : Nat}

/-! ## Other values at the bottom of the stack -/

section Bottom

variable {below stack : Array Value} {index : Nat}

theorem push_append_extract (value : Value) (enough : below.size ≤ stack.size) :
    (below ++ stack.extract below.size).push value =
      below ++ (stack.push value).extract below.size := by
  rw [Array.extract_push, if_neg (by rw [Array.size_push]; omega), if_pos enough, Array.append_push]

theorem pop_append_extract (enough : below.size < stack.size) :
    (below ++ stack.extract below.size).pop = below ++ stack.pop.extract below.size := by
  rw [Array.pop_append, if_neg]
  · congr 1
    apply Array.ext_getElem?
    intro index
    simp only [Array.getElem?_pop, Array.getElem?_extract, Array.size_extract, Array.size_pop]
    by_cases inside : below.size + index < stack.size - 1
    · rw [if_pos (by omega), if_pos (by omega), if_pos (by omega), if_pos inside]
    · rw [if_neg (by omega), if_neg (by omega)]
  · simp only [Array.isEmpty_iff_size_eq_zero, Array.size_extract]
    omega

/-- A slot above the place may be filled anew. -/
theorem setIfInBounds_append_extract (value : Value) (above : below.size ≤ index) :
    (below ++ stack.extract below.size).setIfInBounds index value =
      below ++ (stack.setIfInBounds index value).extract below.size := by
  apply Array.ext_getElem?
  intro other
  simp only [Array.getElem?_setIfInBounds, Array.getElem?_append, Array.getElem?_extract,
    Array.size_append, Array.size_extract, Array.size_setIfInBounds]
  by_cases low : other < below.size
  · rw [if_neg (show index ≠ other by omega), if_pos low, if_pos low]
  · rw [if_neg low, if_neg low, Nat.add_sub_cancel' (Nat.le_of_not_lt low)]
    by_cases here : index = other
    · subst here
      rw [if_pos rfl, if_pos rfl]
      by_cases inside : index < stack.size
      · rw [if_pos (by omega), if_pos (by omega), if_pos inside]
      · rw [if_neg (by omega), if_neg (by omega)]
    · rw [if_neg here, if_neg here]

/-- Values may be put on top. -/
theorem append_append_extract (values : Array Value) (enough : below.size ≤ stack.size) :
    below ++ stack.extract below.size ++ values =
      below ++ (stack ++ values).extract below.size := by
  have whole : values.extract 0 (stack.size + values.size - stack.size) = values :=
    Array.extract_eq_self_of_le (by omega)
  have same : stack.extract below.size (stack.size + values.size) = stack.extract below.size := by
    apply Array.ext_getElem?
    intro index
    rw [Array.getElem?_extract, Array.getElem?_extract, Nat.min_self,
      Nat.min_eq_right (Nat.le_add_right _ _)]
  rw [Array.extract_append, Nat.sub_eq_zero_of_le enough, Array.size_append,
    whole, Array.append_assoc, same]

/-- And the stack may be cut off above the place. -/
theorem shrink_append_extract (enough : below.size ≤ stack.size) (above : below.size ≤ index) :
    (below ++ stack.extract below.size).shrink index =
      below ++ (stack.shrink index).extract below.size := by
  have kept : below.extract 0 index = below := Array.extract_eq_self_of_le above
  simp only [Array.shrink_eq_take, Array.take_eq_extract]
  by_cases fits : index ≤ stack.size
  · rw [Array.extract_append, kept, Array.extract_extract, Array.extract_extract, Nat.zero_sub,
      Nat.add_zero, Nat.zero_add, Array.size_extract]
    congr 2
    omega
  · have whole : stack.extract 0 index = stack := Array.extract_eq_self_of_le (by omega)
    rw [whole, Array.extract_eq_self_of_le]
    rw [Array.size_append, Array.size_extract]
    omega

end Bottom

/-- The environment with other values at the bottom of the stack. -/
def onto (env : Environment) (below : Array Value) : Environment :=
  { env with stack := below ++ env.stack.extract below.size }

/-- In this environment the action does the same whatever values lie on the stack below a place, and
they stay there. -/
def AloofAt (place : Nat) (env : Environment) (action : Action α) : Prop :=
  ∀ below : Array Value, below.size = place →
    action (env.onto below) = ((action env).1, (action env).2.onto below) ∧
      place ≤ (action env).2.stack.size

/-- The action reaches nothing on the stack below a place, wherever the stack is that high. -/
def Aloof (place : Nat) (action : Action α) : Prop :=
  ∀ env, place ≤ env.stack.size → AloofAt place env action

theorem size_onto {below : Array Value} (enough : below.size ≤ env.stack.size) :
    (env.onto below).stack.size = env.stack.size := by
  change (below ++ env.stack.extract below.size).size = _
  rw [Array.size_append, Array.size_extract]
  omega

theorem getElem?_onto {below : Array Value} {index : Nat} (above : below.size ≤ index) :
    (env.onto below).stack[index]? = env.stack[index]? := by
  change (below ++ env.stack.extract below.size)[index]? = _
  rw [Array.getElem?_append_right above, Array.getElem?_extract]
  split
  · rw [Nat.add_sub_cancel' above]
  · rw [Array.getElem?_eq_none]
    omega

/-- The bottom of the stack in its own place. -/
theorem onto_self : env.onto (env.stack.extract 0 place) = env := by
  have whole : env.stack.extract 0 place ++
      env.stack.extract (env.stack.extract 0 place).size = env.stack := by
    apply Array.ext_getElem?
    intro index
    rw [Array.getElem?_append, Array.size_extract, Array.getElem?_extract, Array.getElem?_extract]
    split
    · rw [Nat.zero_add]
    · split
      · congr 1
        omega
      · rw [Array.getElem?_eq_none]
        omega
  unfold onto
  rw [whole]

/-- What an aloof action leaves at the bottom of the stack is what was there. -/
theorem AloofAt.below {action : Action α} (aloof : AloofAt place env action)
    (enough : place ≤ env.stack.size) {index : Nat} (low : index < place) :
    (action env).2.stack[index]? = env.stack[index]? := by
  have size : (env.stack.extract 0 place).size = place := by
    rw [Array.size_extract]
    omega
  have same := (aloof _ size).1
  rw [onto_self] at same
  have after : (action env).2 =
      (action env).2.onto (env.stack.extract 0 place) := congrArg Prod.snd same
  rw [after]
  change (env.stack.extract 0 place ++ _)[index]? = _
  rw [Array.getElem?_append, if_pos (by omega), Array.getElem?_extract, if_pos (by omega),
    Nat.zero_add]

/-- An action that does not touch the stack at all. -/
theorem aloof_of_free {action : Action α}
    (free : ∀ env stack, action { env with stack } =
      ((action env).1, { (action env).2 with stack })) : Aloof place action := by
  intro env enough below _
  have kept : (action env).2.stack = env.stack :=
    congrArg (fun outcome => outcome.2.stack) (free env env.stack)
  refine ⟨?_, by rw [kept]; exact enough⟩
  rw [onto, free, onto, kept]

/-! ## The stack -/

/-- Actions in a row are aloof when each of them is. -/
theorem aloof_bind {first : Action α} {next : α → Action β} (one : Aloof place first)
    (two : ∀ value, Aloof place (next value)) : Aloof place (first >>= next) := by
  intro env enough below size
  obtain ⟨same, kept⟩ := one env enough below size
  rw [action_bind, action_bind, same]
  generalize first env = outcome at kept
  obtain ⟨fault | value, middle⟩ := outcome
  · exact ⟨rfl, kept⟩
  · exact two value middle kept below size

/-- And so what is done about a fault has to be. -/
theorem aloof_tryCatch {first : Action α} {handle : Fault → Action α} (one : Aloof place first)
    (two : ∀ fault, Aloof place (handle fault)) :
    Aloof place (tryCatch first handle : Action α) := by
  intro env enough below size
  obtain ⟨same, kept⟩ := one env enough below size
  rw [action_tryCatch, action_tryCatch, same]
  generalize first env = outcome at kept
  obtain ⟨fault | value, middle⟩ := outcome
  · exact two fault middle kept below size
  · exact ⟨rfl, kept⟩

/-- An action that sees no stack is aloof. -/
theorem aloof_blind {action : Action α} (blind : Blind action.run) : Aloof place action := by
  refine aloof_of_free fun env stack => ?_
  have after : (action env).2 =
      { env with heap := (action env).2.heap } := blind.after env
  rw [after]
  exact blind env { env with stack } ⟨rfl, rfl⟩

/-- And so is a look that does not. -/
theorem aloof_view {tell : Environment → α}
    (sees : ∀ env stack, tell { env with stack } = tell env) :
    Aloof place (view tell : Action α) := by
  refine aloof_of_free fun env stack => ?_
  rw [action_view, action_view, sees]

theorem aloof_pure (value : α) : Aloof place (pure value : Action α) :=
  aloof_blind (blindAction_pure value)

theorem aloof_throw (fault : Fault) : Aloof place (throw fault : Action α) :=
  aloof_blind (blindAction_throw fault)

theorem aloof_depth : Aloof place (view (·.stack.size) : Action Nat) := by
  intro env enough below size
  rw [action_view, action_view, size_onto (size ▸ enough)]
  exact ⟨rfl, enough⟩

/-- A push fails where the stack is full. -/
theorem push_eq (value : Value) (env : Environment) :
    push value env =
      if env.stack.size < env.config.stackSize then
        (.ok (), { env with stack := env.stack.push value })
      else (.error .stackOverflow, (release value env).2) := by
  unfold push
  rw [action_bind_ok (action_view _ _), action_bind_ok (action_view _ _)]
  split <;> rfl

/-- So it depends on the height alone. -/
theorem aloof_push (value : Value) : Aloof place (push value) := by
  intro env enough below size
  rw [push_eq, push_eq, size_onto (size ▸ enough)]
  change (if env.stack.size < env.config.stackSize then _ else _) = _ ∧ _
  split
  · refine ⟨?_, Nat.le_trans enough (Array.size_push value ▸ Nat.le_succ _)⟩
    unfold onto
    rw [push_append_extract value (size ▸ enough)]
  · exact ⟨rfl, enough⟩

/-- Operands are counted by the height. -/
theorem aloof_requireOperands (floor count : Nat) : Aloof place (requireOperands floor count) := by
  refine aloof_bind aloof_depth fun depth => ?_
  split
  · exact aloof_throw _
  · exact aloof_pure ()

/-- A slot above the place is all that is seen. -/
theorem aloof_slot {index : Nat} (above : place ≤ index) : Aloof place (slot index) := by
  intro env enough below size
  have same : (env.onto below).stack[index]? = env.stack[index]? :=
    getElem?_onto (size ▸ above)
  cases there : env.stack[index]? with
  | none =>
      rw [slot_eq_error there, slot_eq_error (same.trans there)]
      exact ⟨rfl, enough⟩
  | some value =>
      rw [slot_eq_ok there, slot_eq_ok (same.trans there)]
      exact ⟨rfl, enough⟩

/-- And so is an operand, if the operands lie above it. -/
theorem aloof_peek {floor : Nat} (above : place ≤ floor) (count : Nat) :
    Aloof place (peek floor count) := by
  intro env enough below size
  have height : (env.onto below).stack.size = env.stack.size :=
    size_onto (size ▸ enough)
  obtain ⟨few, failed⟩ | ⟨value, many, there, done⟩ := peek_cases floor count env
  · obtain ⟨-, failed'⟩ | ⟨value, many, -⟩ := peek_cases floor count (env.onto below)
    · rw [failed, failed']
      exact ⟨rfl, enough⟩
    · omega
  · obtain ⟨few, -⟩ | ⟨other, -, there', done'⟩ := peek_cases floor count (env.onto below)
    · omega
    · rw [height, getElem?_onto (by omega), there] at there'
      injection there' with same
      rw [done, done', same]
      exact ⟨rfl, enough⟩

/-- It may be taken. -/
theorem aloof_pop {floor : Nat} (above : place ≤ floor) : Aloof place (pop floor) := by
  intro env enough below size
  have height : (env.onto below).stack.size = env.stack.size :=
    size_onto (size ▸ enough)
  unfold pop
  obtain ⟨same, -⟩ := aloof_peek above 0 env enough below size
  obtain ⟨few, failed⟩ | ⟨value, many, there, done⟩ := peek_cases floor 0 env
  · rw [action_bind, action_bind, same, failed]
    exact ⟨rfl, enough⟩
  · rw [action_bind, action_bind, same, done]
    simp only
    rw [action_bind_ok (action_modify _ _), action_bind_ok (action_modify _ _), action_pure,
      action_pure]
    refine ⟨?_, by rw [Array.size_pop]; omega⟩
    unfold onto
    rw [pop_append_extract (by omega)]

theorem extract_onto {below : Array Value} {index : Nat} (enough : below.size ≤ env.stack.size)
    (above : below.size ≤ index) :
    (env.onto below).stack.extract index = env.stack.extract index := by
  apply Array.ext_getElem?
  intro other
  rw [Array.getElem?_extract, Array.getElem?_extract, size_onto enough, getElem?_onto (by omega)]

theorem aloof_args {index : Nat} (above : place ≤ index) :
    Aloof place (view fun env => (env.stack.extract index).toList) := by
  intro env enough below size
  rw [action_view, action_view, extract_onto (size ▸ enough) (size ▸ above)]
  exact ⟨rfl, enough⟩

theorem aloof_takeFrom {index : Nat} (above : place ≤ index) :
    Aloof place (takeFrom index : Action (List Value)) := by
  intro env enough below size
  have left := @shrink_append_extract below env.stack index (size ▸ enough) (size ▸ above)
  constructor
  · change ((Except.ok ((env.onto below).stack.extract index).toList,
      { env.onto below with stack := (env.onto below).stack.shrink index }) :
        Except Fault (List Value) × Environment) = _
    rw [extract_onto (size ▸ enough) (size ▸ above)]
    unfold onto
    rw [left]
    rfl
  · change place ≤ (env.stack.shrink index).size
    rw [Array.size_shrink]
    omega

theorem aloof_popMany {floor : Nat} (above : place ≤ floor) (count : Nat) :
    Aloof place (popMany floor count) := by
  intro env enough below size
  obtain ⟨few, failed⟩ | ⟨many, done⟩ := requireOperands_cases floor count env
  · obtain ⟨same, -⟩ := @aloof_requireOperands place floor count env enough below size
    unfold popMany
    rw [action_bind, action_bind, same, failed]
    exact ⟨rfl, enough⟩
  · obtain ⟨same, -⟩ := @aloof_requireOperands place floor count env enough below size
    unfold popMany
    rw [action_bind, action_bind, same, done]
    simp only
    rw [action_bind_ok (action_view _ _), action_bind_ok (action_view _ _),
      size_onto (size ▸ enough)]
    exact aloof_takeFrom (by omega) env enough below size

/-- A slot above the place is filled anew. -/
theorem aloof_replaceSlot {index : Nat} (above : place ≤ index) (value : Value) :
    Aloof place (replaceSlot index value) := by
  refine aloof_bind (aloof_slot above) fun old => aloof_bind (fun env enough below size => ?_)
    fun _ => aloof_pure old
  rw [action_modify, action_modify]
  refine ⟨?_, by rw [Array.size_setIfInBounds]; exact enough⟩
  unfold onto
  rw [setIfInBounds_append_extract value (size ▸ above)]

/-- What is released lies above the place. -/
theorem aloof_releaseFrom {index : Nat} (above : place ≤ index) :
    Aloof place (releaseFrom index : Action Unit) :=
  aloof_bind (aloof_takeFrom above) fun values =>
    aloof_blind (blindAction_lift (blind_releaseAll values))

/-! ## Globals and frames -/

/-- The slot of a global is found beside the stack. -/
theorem aloof_namedSlot {activation : Activation} {name : UInt16} :
    Aloof place (namedSlot activation name) := by
  refine aloof_bind (aloof_view fun _ _ => rfl) fun noted => ?_
  split
  · exact aloof_pure _
  · refine aloof_bind ?_ fun text => aloof_bind (aloof_view fun _ _ => rfl) fun known => ?_
    · cases activation.program.string? name with
      | none => exact aloof_throw _
      | some text => exact aloof_pure text
    · split
      · exact aloof_pure _
      · exact aloof_bind (aloof_of_free fun _ _ => rfl) fun _ => aloof_pure _

/-- Globals lie beside the stack. -/
theorem aloof_setGlobal (slot : Nat) (value : Value) :
    Aloof place (setGlobal slot value : Action Unit) :=
  aloof_of_free fun _ _ => rfl

/-- And so do new ones. -/
theorem aloof_defineGlobal (name : String) (value : Value) :
    Aloof place (defineGlobal name value : Action Unit) := by
  refine aloof_of_free fun env stack => ?_
  have same : ({ env with stack } : Environment).globalSlot? name =
      env.globalSlot? name := rfl
  rw [action_lift, action_lift]
  cases known : env.globalSlot? name with
  | some slot => rw [defineGlobal_known value known, defineGlobal_known value (same.trans known)]; rfl
  | none => rw [defineGlobal_new value known, defineGlobal_new value (same.trans known)]

/-- What the instructions of a function are made of is aloof from what lies below the function's
variables. -/
theorem stepwise_aloof {activation : Activation} (above : place ≤ activation.base) :
    Stepwise activation (Aloof place) where
  bind := aloof_bind
  tryCatch := aloof_tryCatch
  blind := aloof_blind
  view sees := aloof_view fun env stack => sees env stack env.frames
  push := aloof_push
  requireOperands := aloof_requireOperands _
  peek := aloof_peek (Nat.le_trans above (Nat.le_add_right _ _))
  pop := aloof_pop (Nat.le_trans above (Nat.le_add_right _ _))
  popMany := aloof_popMany (Nat.le_trans above (Nat.le_add_right _ _))
  slot _ low _ := aloof_slot (Nat.le_trans above low)
  replaceSlot _ value low _ := aloof_replaceSlot (Nat.le_trans above low) value
  namedSlot _ := aloof_namedSlot
  setGlobal := aloof_setGlobal
  defineGlobal := aloof_defineGlobal
  setPosition _ := aloof_of_free fun _ _ => rfl

/-! ## Calls -/

theorem aloof_leaveFunction {base : Nat} (above : place ≤ base - 1) (result : Value) :
    Aloof place (leaveFunction base result) :=
  aloof_bind (aloof_releaseFrom above) fun _ =>
    aloof_bind (aloof_of_free fun _ _ => rfl) fun _ => aloof_push result

theorem aloof_layOutVariables {base : Nat} (above : place ≤ base) (argCount varCount : Nat) :
    Aloof place (layOutVariables base argCount varCount : Action Unit) := by
  unfold layOutVariables
  rw [action_lift_bind]
  refine aloof_bind (aloof_takeFrom (Nat.le_trans above (Nat.le_add_right _ _))) fun surplus => ?_
  rw [action_lift_bind]
  refine aloof_bind (aloof_blind (blindAction_lift (blind_releaseAll _))) fun _ => ?_
  intro env enough below size
  have filled : ∀ env : Environment, (liftM (modify fun env : Environment =>
      let missing := base + varCount - env.stack.size
      { env with stack := env.stack ++ Array.replicate missing Value.undefined } :
        Update Unit) : Action Unit) env =
      (.ok (), { env with
        stack := env.stack ++
          Array.replicate (base + varCount - env.stack.size) .undefined }) := fun _ => rfl
  rw [filled, filled, size_onto (size ▸ enough)]
  refine ⟨?_, by rw [Array.size_append]; omega⟩
  unfold onto
  rw [append_append_extract _ (size ▸ enough)]

/-- Entering a function reaches nothing below the callee. -/
theorem aloof_enterFunction {callee : Nat} (above : place ≤ callee) (target : FunctionRef)
    (closure : Option Handle) : Aloof place (enterFunction target closure callee) := by
  intro env enough below size
  have config : (env.onto below).config = env.config := rfl
  have frames : (env.onto below).frames = env.frames := rfl
  have known : (env.onto below).function? target = env.function? target := rfl
  rw [enterFunction_eq, enterFunction_eq, config, frames, known]
  by_cases shallow : env.frames.size < env.config.maxCallDepth
  · simp only [if_pos shallow]
    cases env.function? target with
    | none => exact ⟨rfl, enough⟩
    | some function =>
        simp only
        by_cases few : function.varCount.toNat < function.argCount.toNat
        · simp only [if_pos few]
          exact ⟨trivial, enough⟩
        · simp only [if_neg few]
          by_cases full : env.config.stackSize <
              callee + 1 + function.varCount.toNat + function.stackHigh.toNat
          · simp only [if_pos full]
            exact ⟨trivial, enough⟩
          · simp only [if_neg full]
            obtain ⟨same, kept⟩ := aloof_layOutVariables (Nat.le_succ_of_le above)
              function.argCount.toNat function.varCount.toNat env enough below size
            have laidOut : (env.onto below).laidOut (callee + 1) function.argCount.toNat
                function.varCount.toNat = (env.laidOut (callee + 1)
                  function.argCount.toNat function.varCount.toNat).onto below :=
              congrArg Prod.snd same
            rw [laidOut]
            exact ⟨rfl, kept⟩
  · simp only [if_neg shallow]
    exact ⟨trivial, enough⟩

/-- A call reaches nothing below its callee. -/
theorem aloofAt_enterCall {argCount : Nat}
    (enough : place + (argCount + 1) ≤ env.stack.size) :
    AloofAt place env (enterCall argCount) := by
  intro below size
  unfold enterCall
  rw [action_bind_ok (action_view _ _), action_bind_ok (action_view _ _), size_onto (by omega),
    if_neg (by omega)]
  have callee : place ≤ env.stack.size - (argCount + 1) := by omega
  -- With the place of the callee known, what is left is aloof everywhere.
  refine aloof_bind (aloof_slot callee) (fun value => ?_) env (by omega) below size
  cases value with
  | function target =>
      exact aloof_bind (aloof_enterFunction callee target none) fun _ => aloof_pure _
  | closure block =>
      refine aloof_bind (aloof_view fun _ _ => rfl) fun target => ?_
      cases target with
      | none => exact aloof_throw _
      | some target =>
          exact aloof_bind (aloof_enterFunction callee target (some block)) fun _ => aloof_pure _
  | native id =>
      refine aloof_bind (aloof_view fun _ _ => rfl) fun known => ?_
      cases known with
      | none => exact aloof_throw _
      | some native =>
          exact aloof_bind (aloof_args (Nat.le_succ_of_le callee)) fun args => aloof_pure _
  | _ => exact aloof_throw _

end Environment

end PocketScript
