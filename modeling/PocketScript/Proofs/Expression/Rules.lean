import PocketScript.Proofs.Expression.Performing

/-!
# What the instructions of expressions perform

One rule for each kind of instruction that expressions compile to, all of them from the rule for an
instruction of which it is known how it executes (`Scene.performs_instruction`).
-/

namespace PocketScript

open Environment

namespace Scene

variable {α : Type} {scene : Scene} {code : CompleteCode} {function : FunctionDef}
  {depth index : Nat} {taken : List Value} {action : Action α} {results : α → List Value}
  {stop : α → Nat} {instr : Instruction}

/-- An executed instruction comes to the outcome of an action. -/
def Does (scene : Scene) (code : CompleteCode) (operands : List Value) (results : α → List Value)
    (stop : α → Nat) (executed : Except Fault Unit × Environment) :
    Except Fault α × Environment → Prop
  | (.ok result, after) => ∃ units, after.Noted units ∧
      executed = (.ok (), after.running units (scene.position code (stop result))
        (operands ++ results result))
  | (.error fault, after) => ∃ units pc left, after.Noted units ∧
      executed = (.error fault, after.running units pc (operands ++ left))

/-- An instruction performs what it does when it is executed. -/
theorem performs_instruction
    (decodes : function.code.decode (scene.position code index) = .ok instr)
    (plain : instr.op ≠ .call)
    (executes : ∀ env units operands,
      scene.Ready function depth env units operands →
        Stays scene.toActivation env (action env).2 ∧
          scene.Does code operands results stop
            (execute scene.toActivation instr
              (env.running units (scene.position code index + instr.size)
                (operands ++ taken)))
            (action env)) :
    scene.Performs code function depth taken index action results stop := by
  intro env units operands ready
  obtain ⟨stays, does⟩ := executes env units operands ready
  have next := @executeNext_running _ _ _ (operands ++ taken) _ _ _ ready.hosts
    ready.noted.programs decodes
  refine ⟨stays, ?_⟩
  have frames := stays.frames
  generalize action env = outcome at does frames
  obtain ⟨fault | result, after⟩ := outcome
  · obtain ⟨units', pc, left, noted, executed⟩ := does
    rw [executed] at next
    exact ⟨units', pc, left, _, noted, .refl, next⟩
  · obtain ⟨units', noted, executed⟩ := does
    rw [executed] at next
    simp only [plain, ↓reduceIte] at next
    refine ⟨units', noted, .step next ?_ .refl⟩
    rw [size_frames_running, size_frames_running, frames]

/-- The function reserves room for as many operands as its code ever has. -/
theorem Runs.room (runs : scene.Runs code function) {count : Nat} (room : code.HasRoom count) :
    count ≤ function.stackHigh.toNat := by
  obtain ⟨varCount, argCount, isClosure, finished⟩ := runs.finished
  obtain ⟨bound, -, rfl⟩ := Assembler.finish_eq_ok finished
  unfold CompleteCode.HasRoom at room
  change _ ≤ (UInt16.ofNat code.assembler.maxDepth.toNat).toNat
  rw [UInt16.toNat_ofNat', Nat.mod_eq_of_lt (by omega)]
  omega

/-! ## Results of blind actions -/

/-- An instruction that takes operands and pushes the result of a blind action performs the action.
-/
theorem performs_blind {action : Action Value} (blind : Blind action.run)
    (decodes : function.code.decode (scene.position code index) = .ok instr ∧
      scene.position code (index + 1) = scene.position code index + instr.op.size)
    (plain : instr.op ≠ .call) (room : depth + 1 ≤ function.stackHigh.toNat)
    (executes : ∀ (env : Environment) units pc operands,
      env.Hosts scene.toActivation function → env.HasPrograms units →
        execute scene.toActivation instr
            (env.running units pc (operands ++ taken)) =
          (action >>= push) (env.running units pc operands)) :
    scene.Performs code function depth taken index action (fun result => [result])
      fun _ => index + 1 := by
  refine performs_instruction decodes.1 plain fun env units operands ready => ?_
  have stays : Stays scene.toActivation env (action env).2 :=
    Blind.stays blind _ env
  refine ⟨stays, ?_⟩
  rw [executes _ _ _ _ ready.hosts ready.noted.programs, action_bind,
    blind.runningAction ready.noted.programs]
  generalize action env = outcome at stays
  obtain ⟨fault | result, after⟩ := outcome
  · exact ⟨units, _, [], stays.noted ready.noted, by rw [List.append_nil]⟩
  · refine ⟨units, stays.noted ready.noted, ?_⟩
    have here := ready.room
    simp only
    rw [push_running (by rw [stays.size, stays.config]; omega), decodes.2]
    rfl

/-- An instruction that pushes a value performs nothing. -/
theorem performs_push {value : Value}
    (decodes : function.code.decode (scene.position code index) = .ok instr ∧
      scene.position code (index + 1) = scene.position code index + instr.op.size)
    (plain : instr.op ≠ .call) (room : depth + 1 ≤ function.stackHigh.toNat)
    (executes : execute scene.toActivation instr = push value) :
    scene.Performs code function depth [] index (pure value) (fun result => [result])
      fun _ => index + 1 := by
  refine performs_blind (blindAction_pure value) decodes plain room fun _ _ _ operands _ _ => ?_
  rw [executes, List.append_nil]
  rfl

theorem performs_literal (runs : scene.Runs code function) {value : Literal}
    (holds : code.Holds index (Compiling.literal value)) (room : code.HasRoom (depth + 1)) :
    scene.Performs code function depth [] index (pure value.value) (fun result => [result])
      fun _ => index + 1 := by
  have decodes := runs.decode holds
    (by cases value <;> decide) (by cases value <;> exact ⟨nofun, nofun⟩)
  refine performs_push decodes ?_ (runs.room room) ?_
  · cases value <;> exact nofun
  · cases value <;> rfl

theorem performs_number (runs : scene.Runs code function) {constant : UInt16} {value : Number}
    (holds : code.Holds index .pushNumber constant) (is : code.isNumber constant value)
    (room : code.HasRoom (depth + 1)) :
    scene.Performs code function depth [] index (pure (Value.ofNumber value))
      (fun result => [result]) fun _ => index + 1 := by
  have decodes := runs.decode holds ⟨nofun, fun _ => rfl⟩ ⟨nofun, nofun⟩
  refine performs_push decodes nofun (runs.room room) ?_
  change pushNumber scene.toActivation constant = _
  unfold pushNumber
  rw [runs.numbers _ _ is]
  rfl

/-- The constant of a text is the one that stands in the table. -/
theorem Runs.constant (runs : scene.Runs code function) {constant : UInt16} {text : String}
    (is : code.isString constant text) : scene.constant text = .constant ⟨scene.unit, constant⟩ := by
  have there := runs.strings _ _ is
  unfold Program.string? at there
  obtain ⟨inside, same⟩ := Array.getElem?_eq_some_iff.mp there
  have exists_ : ∃ item, item ∈ scene.program.strings ∧ (item == text) = true :=
    ⟨_, Array.getElem_mem inside, beq_iff_eq.mpr same⟩
  obtain ⟨place, known⟩ : ∃ place, scene.program.strings.findIdx? (· == text) = some place :=
    ⟨_, Array.findIdx?_eq_some_of_exists exists_⟩
  obtain ⟨bound, here, first⟩ := Array.findIdx?_eq_some_iff_getElem.mp known
  have early : place ≤ constant.toNat := by
    apply Nat.le_of_not_lt
    intro later
    exact first constant.toNat later (beq_iff_eq.mpr same)
  have small := constant.toNat_lt
  have toNat : (UInt16.ofNat place).toNat = place := by
    rw [UInt16.toNat_ofNat', Nat.mod_eq_of_lt (by omega)]
  have found : scene.program.string? (UInt16.ofNat place) = some text := by
    unfold Program.string?
    rw [toNat, Array.getElem?_eq_getElem bound, eq_of_beq here]
  unfold Scene.constant
  rw [known, Option.getD_some, runs.distinct _ _ _ found (runs.strings _ _ is)]

theorem performs_string (runs : scene.Runs code function) {constant : UInt16} {text : String}
    (holds : code.Holds index .pushString constant) (is : code.isString constant text)
    (room : code.HasRoom (depth + 1)) :
    scene.Performs code function depth [] index (pure (scene.constant text))
      (fun result => [result]) fun _ => index + 1 := by
  have decodes := runs.decode holds ⟨nofun, fun _ => rfl⟩ ⟨nofun, nofun⟩
  refine performs_push decodes nofun (runs.room room) ?_
  change pushString scene.toActivation constant = _
  unfold pushString
  rw [runs.strings _ _ is, runs.constant is]
  rfl

/-! ## Operators and elements -/

theorem performs_unary (runs : scene.Runs code function) {op : UnaryOp} {value : Value}
    (holds : code.Holds index op.opcode) (room : code.HasRoom (depth + 1)) :
    scene.Performs code function depth [value] index
      (do
        let result ← view (·.applyUnary op value)
        release value
        return result)
      (fun result => [result]) fun _ => index + 1 := by
  have decodes := runs.decode holds
    (by cases op <;> decide) (by cases op <;> exact ⟨nofun, nofun⟩)
  refine performs_blind ?_ decodes ?_ (runs.room room) ?_
  · exact blindAction_bind (blindAction_view (sees_applyUnary op value)) fun result =>
      blindAction_bind (blindAction_lift (blind_release value)) fun _ => blindAction_pure result
  · cases op <;> exact nofun
  · intro env units pc operands hosts _
    have above := hosts.inStack
    have executes : execute scene.toActivation ⟨op.opcode, 0, 0⟩ = unary scene.toActivation op := by
      cases op <;> rfl
    rw [executes, unary, action_bind_ok (pop_running above)]
    simp only [bind_assoc, pure_bind]

theorem performs_binary (runs : scene.Runs code function) {op : BinaryOp} {left right : Value}
    (holds : code.Holds index op.opcode) (room : code.HasRoom (depth + 1)) :
    scene.Performs code function depth [left, right] index (combine op left right)
      (fun result => [result]) fun _ => index + 1 := by
  have decodes := runs.decode holds
    (by cases op <;> decide) (by cases op <;> exact ⟨nofun, nofun⟩)
  refine performs_blind (blind_releasingAfter _ (blind_applyBinary op left right)) decodes ?_
    (runs.room room) ?_
  · cases op <;> exact nofun
  · intro env units pc operands hosts _
    have above := hosts.inStack
    have executes : execute scene.toActivation ⟨op.opcode, 0, 0⟩ = binary scene.toActivation op := by
      cases op <;> rfl
    have split : operands ++ [left, right] = (operands ++ [left]) ++ [right] := by
      rw [List.append_assoc]
      rfl
    rw [executes, binary, split, action_bind_ok (pop_running above),
      action_bind_ok (pop_running above)]
    rfl

theorem performs_element (runs : scene.Runs code function) {container key : Value}
    (holds : code.Holds index .getElem) (room : code.HasRoom (depth + 1)) :
    scene.Performs code function depth [container, key] index (readElementOf container key)
      (fun result => [result]) fun _ => index + 1 := by
  have decodes := runs.decode holds (by decide) ⟨nofun, nofun⟩
  refine performs_blind (blind_releasingAfter _ (blind_getElement container key)) decodes nofun
    (runs.room room) fun env units pc operands hosts _ => ?_
  have above := hosts.inStack
  have split : operands ++ [container, key] = (operands ++ [container]) ++ [key] := by
    rw [List.append_assoc]
    rfl
  change pushElement scene.toActivation _ = _
  rw [pushElement, split, action_bind_ok (pop_running above), action_bind_ok (pop_running above)]
  rfl

theorem blind_writeElementOf (container key value : Value) :
    Blind (writeElementOf container key value).run :=
  blindAction_tryCatch (blind_releasingAfter _ (blind_setElement container key value)) fun fault =>
    blindAction_bind (blindAction_lift (blind_release value)) fun _ => blindAction_throw fault

theorem performs_setElement (runs : scene.Runs code function) {container key value : Value}
    (holds : code.Holds index .setElem) (room : code.HasRoom (depth + 1)) :
    scene.Performs code function depth [container, key, value] index
      (do
        writeElementOf container key value
        return value)
      (fun result => [result]) fun _ => index + 1 := by
  have decodes := runs.decode holds (by decide) ⟨nofun, nofun⟩
  refine performs_blind (blindAction_bind (blind_writeElementOf container key value) fun _ =>
    blindAction_pure value) decodes nofun (runs.room room)
    fun env units pc operands hosts _ => ?_
  have above := hosts.inStack
  have split : operands ++ [container, key, value] =
      ((operands ++ [container]) ++ [key]) ++ [value] := by
    simp only [List.append_assoc, List.cons_append, List.nil_append]
  change storeElement scene.toActivation _ = _
  rw [storeElement, split, action_bind_ok (pop_running above), action_bind_ok (pop_running above),
    action_bind_ok (pop_running above)]
  simp only [bind_assoc, pure_bind]
  rfl

/-- Both the container and the key are copied, with references of their own. -/
theorem performs_dup2 (runs : scene.Runs code function) {container key : Value}
    (holds : code.Holds index .dup2) (room : code.HasRoom (depth + 4)) :
    scene.Performs code function depth [container, key] index
      (do
        retain container
        retain key)
      (fun _ => [container, key, container, key]) fun _ => index + 1 := by
  obtain ⟨decodes, next⟩ := runs.decode holds (by decide) ⟨nofun, nofun⟩
  have enough := runs.room room
  have blind : Blind (do
      retain container
      retain key : Action Unit).run :=
    blindAction_bind (blindAction_lift (blind_retain container)) fun _ =>
      blindAction_lift (blind_retain key)
  refine performs_instruction decodes nofun fun env units operands ready => ?_
  have here := ready.room
  have above := ready.hosts.inStack
  have programs := ready.noted.programs
  have stays : Stays scene.toActivation env _ := blind.stays scene.toActivation env
  refine ⟨stays, units, stays.noted ready.noted, ?_⟩
  have one : (retain container env).2.HasPrograms units := programs
  change (do
    let first ← peek scene.floor 1
    let second ← peek scene.floor 0
    pushShared first
    pushShared second : Action Unit) (env.running units _ _) = _
  rw [action_bind_ok (peek_running_second above)]
  have split : operands ++ [container, key] = (operands ++ [container]) ++ [key] := by
    rw [List.append_assoc]
    rfl
  rw [split, action_bind_ok (peek_running_last above)]
  rw [action_bind_ok (pushShared_running programs (by
    simp only [List.length_append, List.length_singleton]; omega))]
  rw [pushShared_running one (by
    simp only [List.length_append, List.length_singleton]
    change env.stack.size + _ < env.config.stackSize
    omega), next]
  simp only [List.append_assoc, List.cons_append, List.nil_append]
  rfl

/-! ## Array and object literals -/

theorem performs_array (runs : scene.Runs code function) {count : UInt16} {items : List Value}
    (holds : code.Holds index .makeArray count) (all : items.length = count.toNat)
    (room : code.HasRoom (depth + 1)) :
    scene.Performs code function depth items index (onHeap (·.allocArray items.toArray))
      (fun result => [result]) fun _ => index + 1 := by
  have decodes := runs.decode holds ⟨nofun, fun _ => rfl⟩ ⟨nofun, nofun⟩
  refine performs_blind (blindAction_onHeap _) decodes nofun (runs.room room)
    fun env units pc operands hosts _ => ?_
  have above := hosts.inStack
  change makeArray scene.toActivation count _ = _
  rw [makeArray, action_bind_ok (popMany_running above all)]

/-- The operands of properties: their keys and values, alternating. -/
def keyed (scene : Scene) (properties : List (String × Value)) : List Value :=
  properties.flatMap fun property => [scene.constant property.1, property.2]

theorem length_keyed (scene : Scene) (properties : List (String × Value)) :
    (scene.keyed properties).length = 2 * properties.length := by
  induction properties with
  | nil => rfl
  | cons first rest ih =>
      change (scene.constant first.1 :: first.2 :: scene.keyed rest).length = _
      rw [List.length_cons, List.length_cons, List.length_cons, ih]
      omega

/-- The text of a constant of the running program. -/
theorem Runs.string?_constant (runs : scene.Runs code function) {env : Environment}
    (program : env.programs[scene.unit]? = some scene.program) {constant : UInt16}
    {text : String} (is : code.isString constant text) :
    env.string? (scene.constant text) = some text := by
  rw [programs, Array.getElem?_map] at program
  obtain ⟨loaded, there, same⟩ := Option.map_eq_some_iff.mp program
  rw [runs.constant is]
  change (env.units[scene.unit]?.bind fun unit => unit.program.string? constant) = _
  rw [there, Option.bind_some, same]
  exact runs.strings _ _ is

theorem takeProperties_keyed (runs : scene.Runs code function) {env : Environment}
    (program : env.programs[scene.unit]? = some scene.program)
    {properties : List (String × Value)}
    (known : ∀ property ∈ properties, ∃ constant, code.isString constant property.1)
    (taken : Array (String × Value)) :
    takeProperties taken (scene.keyed properties) env =
      (some (taken ++ properties.toArray), env) := by
  induction properties generalizing taken with
  | nil =>
      change (some taken, env) = _
      rw [Array.append_empty]
  | cons first rest ih =>
      obtain ⟨key, value⟩ := first
      obtain ⟨constant, is⟩ := known (key, value) List.mem_cons_self
      change takeProperties taken (scene.constant key :: value :: scene.keyed rest) env = _
      unfold takeProperties
      rw [update_bind, update_view, runs.string?_constant program is]
      simp only
      rw [update_bind]
      have kept : (release (scene.constant key) env).2 = env := rfl
      rw [kept, ih (fun property member => known property (List.mem_cons_of_mem _ member))]
      rw [← Array.append_singleton, Array.append_assoc]
      exact congrArg (fun more => (some (taken ++ more), env))
        (List.toArray_cons (key, value) rest).symm

theorem performs_object (runs : scene.Runs code function) {count : UInt16}
    {properties : List (String × Value)} (holds : code.Holds index .makeObject count)
    (all : properties.length = count.toNat)
    (known : ∀ property ∈ properties, ∃ constant, code.isString constant property.1)
    (room : code.HasRoom (depth + 1)) :
    scene.Performs code function depth (scene.keyed properties) index
      (onHeap (·.allocObject properties)) (fun result => [result]) fun _ => index + 1 := by
  have decodes := runs.decode holds ⟨nofun, fun _ => rfl⟩ ⟨nofun, nofun⟩
  refine performs_blind (blindAction_onHeap _) decodes nofun (runs.room room)
    fun env units pc operands hosts programs => ?_
  have program : (env.running units pc operands).programs[scene.unit]? =
      some scene.program := by
    change (units.map (·.program))[scene.unit]? = _
    rw [programs, hosts.program]
  change makeObject scene.toActivation count _ = _
  rw [makeObject, action_bind_ok (popMany_running hosts.inStack
    (by rw [length_keyed, all])), action_bind_ok (action_lift _ _),
    takeProperties_keyed runs program known]
  simp only [Array.empty_append]

/-! ## Jumps -/

/-- A jump behind code moves its end. -/
theorem Performs.jumped (runs : scene.Runs code function) {start between target : Nat}
    (performs : scene.Performs code function depth taken start action results fun _ => between)
    (jumps : code.Jumps between .jump target) (inside : target ≤ code.assembler.pending.size) :
    scene.Performs code function depth taken start action results fun _ => target := by
  obtain ⟨place, same, decodes, -⟩ := runs.decodeJump jumps rfl inside
  rw [← bind_pure action]
  refine performs.bind fun result => performs_instruction decodes nofun
    fun env units operands ready => ⟨.refl _ _, units, ready.noted, ?_⟩
  change (liftM (setPosition place.toNat) : Action Unit) _ = _
  rw [action_lift, setPosition_running, same]

/-- A test takes its operand and jumps when this counts as false. -/
theorem performs_test (runs : scene.Runs code function) {value : Value} {target : Nat}
    (jumps : code.Jumps index .jumpIfFalse target) (inside : target ≤ code.assembler.pending.size) :
    scene.Performs code function depth [value] index (test value) (fun _ => [])
      fun truthy => if truthy then index + 1 else target := by
  obtain ⟨place, same, decodes, next⟩ := runs.decodeJump jumps rfl inside
  refine performs_instruction decodes nofun fun env units operands ready => ?_
  have programs := ready.noted.programs
  have stays : Stays scene.toActivation env (release value env).2 :=
    (blind_release value).stays _ env
  have tested : test value env =
      (.ok (env.isTruthy value), (release value env).2) := rfl
  have executes : execute scene.toActivation ⟨.jumpIfFalse, place, 0⟩ =
      jumpIf scene.toActivation false place.toNat := rfl
  rw [tested, executes, jumpIf, action_bind_ok (pop_running ready.hosts.inStack),
    action_bind_ok (action_view _ _), sees_running (sees_isTruthy value) programs,
    action_bind_ok (action_lift _ _), (blind_release value).running programs]
  refine ⟨stays, units, stays.noted ready.noted, ?_⟩
  generalize (release value env).2 = after
  generalize env.isTruthy value = truthy
  rw [List.append_nil]
  simp only
  cases truthy with
  | false => rw [if_pos rfl, if_neg Bool.false_ne_true, action_lift, setPosition_running, same]
  | true =>
      rw [if_neg nofun, if_pos rfl, next]
      rfl

/-- Whether the left operand of a logical operator decides; otherwise it is used up. -/
def decided (op : LogicalOp) (value : Value) : Action Bool := do
  let truthy ← view (·.isTruthy value)
  if truthy = op.decides then return true
  else
    release value
    return false

theorem performs_decided (runs : scene.Runs code function) {op : LogicalOp} {value : Value}
    {target : Nat} (jumps : code.Jumps index op.jump target)
    (inside : target ≤ code.assembler.pending.size) :
    scene.Performs code function depth [value] index (decided op value)
      (fun decides => if decides then [value] else [])
      fun decides => if decides then target else index + 1 := by
  obtain ⟨place, same, decodes, next⟩ := runs.decodeJump jumps (by cases op <;> rfl) inside
  have plain : op.jump ≠ .call := by cases op <;> exact nofun
  refine performs_instruction decodes plain fun env units operands ready => ?_
  have programs := ready.noted.programs
  have executes : execute scene.toActivation ⟨op.jump, place, 0⟩ =
      jumpOrPop scene.toActivation op.decides place.toNat := by
    cases op <;> rfl
  rw [executes, jumpOrPop, action_bind_ok (peek_running_last ready.hosts.inStack),
    action_bind_ok (action_view _ _), sees_running (sees_isTruthy value) programs, decided,
    action_bind_ok (action_view _ _)]
  by_cases decides : env.isTruthy value = op.decides
  · rw [if_pos decides, if_pos decides, action_lift, setPosition_running, same]
    exact ⟨.refl _ _, units, ready.noted, rfl⟩
  · have stays : Stays scene.toActivation env (release value env).2 :=
      (blind_release value).stays _ env
    rw [if_neg decides, if_neg decides, action_bind_ok (pop_running ready.hosts.inStack),
      action_lift, (blind_release value).running programs]
    refine ⟨stays, units, stays.noted ready.noted, ?_⟩
    simp only [List.append_nil, Bool.false_eq_true, ↓reduceIte, next]
    rfl

end Scene

end PocketScript
