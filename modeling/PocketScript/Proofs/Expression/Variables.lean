import PocketScript.Proofs.Expression.Rules

/-!
# Variables

Loading and storing a variable, wherever it is: in a slot of the function, in a cell that functions
share, or among the globals.
-/

namespace PocketScript

open Environment

namespace Environment

variable {α β : Type} {activation : Activation}

/-- The action changes nothing, and gives the same while a function is running. -/
def Reads (activation : Activation) (action : Action α) : Prop :=
  ∀ env units pc operands, activation.floor ≤ env.stack.size →
    env.HasPrograms units → (action env).2 = env ∧
      action (env.running units pc operands) =
        ((action env).1, env.running units pc operands)

theorem reads_found (value : Option α) : Reads activation (found value) := by
  intro env units pc operands _ _
  cases value <;> exact ⟨rfl, rfl⟩

theorem reads_view {tell : Environment → α} (sees : Sees tell) :
    Reads activation (view tell : Action α) := by
  intro env units pc operands _ same
  refine ⟨rfl, ?_⟩
  rw [action_view, action_view, sees_running sees same]

theorem reads_pure (value : α) : Reads activation (pure value) :=
  fun _ _ _ _ _ _ => ⟨rfl, rfl⟩

theorem reads_throw (fault : Fault) : Reads activation (throw fault : Action α) :=
  fun _ _ _ _ _ _ => ⟨rfl, rfl⟩

theorem reads_bind {first : Action α} {next : α → Action β} (one : Reads activation first)
    (two : ∀ value, Reads activation (next value)) : Reads activation (first >>= next) := by
  intro env units pc operands above same
  obtain ⟨kept, told⟩ := one env units pc operands above same
  rw [action_bind, action_bind, told]
  generalize first env = outcome at kept
  obtain ⟨fault | value, after⟩ := outcome
  · obtain rfl : after = env := kept
    exact ⟨rfl, rfl⟩
  · obtain rfl : after = env := kept
    exact two value after units pc operands above same

/-- The value in a slot of the function. -/
theorem reads_local (index : UInt16) :
    Reads activation (activation.localPlace index >>= slot) := by
  intro env units pc operands above _
  unfold Activation.localPlace
  by_cases inside : index.toNat < activation.varCount
  · have below : activation.base + index.toNat < env.stack.size := by
      unfold Activation.floor at above
      omega
    have there := Array.getElem?_eq_getElem below
    have same := @slot_running env units pc operands _ below
    rw [if_pos inside, action_bind_ok (action_pure _ _), action_bind_ok (action_pure _ _), same,
      slot_eq_ok there]
    exact ⟨rfl, rfl⟩
  · rw [if_neg inside]
    exact ⟨rfl, rfl⟩

theorem reads_localCell (index : UInt16) : Reads activation (localCell activation index) := by
  unfold localCell
  rw [← bind_assoc]
  refine reads_bind (reads_local index) fun value => ?_
  split
  · exact reads_pure _
  · exact reads_throw _

theorem reads_upvalueCell (index : UInt16) : Reads activation (upvalueCell activation index) := by
  refine reads_bind (reads_found _) fun closure => ?_
  refine reads_bind (reads_view (sees_heap (·.closureCell? closure index.toNat))) fun value => ?_
  split
  · exact reads_pure _
  · exact reads_throw _

theorem reads_readCell (cell : Handle) : Reads activation (Scene.readCell cell) :=
  reads_bind (reads_view (sees_heap (·.cellGet? cell))) fun value => reads_found value

end Environment

namespace Scene

variable {scene : Scene} {code : CompleteCode} {function : FunctionDef} {depth index : Nat}
  {instr : Instruction} {name : String} {place : Place} {value : Value}

/-! ## Loading -/

/-- An instruction that pushes a value which it reads performs reading it, with a reference. -/
theorem performs_read {read : Action Value} (reads : Reads scene.toActivation read)
    (decodes : function.code.decode (scene.position code index) = .ok instr ∧
      scene.position code (index + 1) = scene.position code index + instr.op.size)
    (plain : instr.op ≠ .call) (room : depth + 1 ≤ function.stackHigh.toNat)
    (executes : execute scene.toActivation instr = read >>= pushShared) :
    scene.Performs code function depth [] index
      (do
        let value ← read
        retain value
        return value)
      (fun result => [result]) fun _ => index + 1 := by
  refine performs_instruction decodes.1 plain fun env units operands ready => ?_
  have programs := ready.noted.programs
  have here := ready.room
  obtain ⟨kept, told⟩ := reads env units (scene.position code index + instr.size)
    operands ready.hosts.inStack programs
  rw [executes, List.append_nil, action_bind, action_bind read pushShared, told]
  generalize read env = outcome at kept
  obtain ⟨fault | value, after⟩ := outcome
  · obtain rfl : after = env := kept
    exact ⟨.refl _ _, units, _, [], ready.noted, by rw [List.append_nil]⟩
  · obtain rfl : after = env := kept
    have stays : Stays scene.toActivation after (retain value after).2 :=
      (blind_retain value).stays _ after
    refine ⟨stays, units, stays.noted ready.noted, ?_⟩
    simp only
    rw [pushShared_running programs (by omega), decodes.2]
    rfl

/-- Looking up a global by a string constant that names it gives what looking it up by its name
gives. -/
theorem performs_loadGlobal (runs : scene.Runs code function) {constant : UInt16}
    (global : scene.place name = .global) (holds : code.Holds index .loadGlobal constant)
    (is : code.isString constant name) (room : code.HasRoom (depth + 1)) :
    scene.Performs code function depth [] index (scene.readVariable name)
      (fun result => [result]) fun _ => index + 1 := by
  obtain ⟨decodes, next⟩ := runs.decode holds ⟨nofun, fun _ => rfl⟩ ⟨nofun, nofun⟩
  have enough := runs.room room
  refine performs_instruction decodes nofun fun env units operands ready => ?_
  have here := ready.room
  have named := runs.strings _ _ is
  obtain ⟨units', noted, found⟩ := @namedSlot_running env units
    (scene.position code index + (⟨.loadGlobal, constant, 0⟩ : Instruction).size) operands
    scene.toActivation ready.noted ready.hosts.program constant name named
  have executes : execute scene.toActivation ⟨.loadGlobal, constant, 0⟩ =
      loadGlobal scene.toActivation constant := rfl
  have told : scene.readVariable name env =
      (env.global? name).elim (.error (.undefinedVariable name), env)
        fun value => (.ok value, (retain value env).2) := by
    unfold readVariable variableValue
    rw [global]
    simp only
    rw [action_bind, action_bind_ok (action_view _ _)]
    cases env.global? name <;> rfl
  rw [executes, loadGlobal, List.append_nil, action_bind_ok found, told]
  unfold global?
  cases known : env.globalSlot? name with
  | none =>
      have text : nameText scene.toActivation constant = name := by
        unfold nameText
        rw [named]
        rfl
      refine ⟨.refl _ _, units',
        scene.position code index + (⟨.loadGlobal, constant, 0⟩ : Instruction).size, [], noted, ?_⟩
      rw [text, List.append_nil]
      rfl
  | some slot =>
      obtain ⟨value, there⟩ := globals_of_globalSlot? known
      have stays : Stays scene.toActivation env (retain value env).2 :=
        (blind_retain value).stays _ env
      simp only [there, bind, Option.bind_some, pure]
      refine ⟨stays, units', stays.noted noted, ?_⟩
      change (do
        let binding ← Environment.found (env.globals[slot]?)
        pushShared binding.2 : Action Unit) (env.running units' _ operands) = _
      rw [there, action_bind_ok (found_some _ _), pushShared_running noted.programs (by omega), next]
      rfl

/-- Loading a variable performs reading it. -/
theorem performs_load (runs : scene.Runs code function) (resolves : code.resolves name place)
    (holds : code.LoadAt place name index) (room : code.HasRoom (depth + 1)) :
    scene.Performs code function depth [] index (scene.readVariable name)
      (fun result => [result]) fun _ => index + 1 := by
  have denotes := runs.names _ _ resolves
  have enough := runs.room room
  unfold CompleteCode.LoadAt at holds
  cases place with
  | slot slot =>
      obtain ⟨decodes, next⟩ := runs.decodeLocal holds (.inl rfl)
      unfold readVariable variableValue
      rw [denotes]
      simp only
      by_cases captured : scene.isCaptured slot = true
      · simp only [captured, ↓reduceIte] at decodes ⊢
        refine performs_read (reads_bind (reads_localCell slot) fun cell => reads_readCell cell)
          ⟨decodes, next⟩ nofun enough ?_
        change (do pushCellValue (← localCell scene.toActivation slot)) = _
        rw [bind_assoc]
        simp only [pushCellValue, readCell, bind_assoc]
      · simp only [captured, ↓reduceIte] at decodes ⊢
        exact performs_read (reads_local slot) ⟨decodes, next⟩ nofun enough
          (bind_assoc _ _ _).symm
  | capture capture =>
      have decodes := runs.decode holds ⟨nofun, fun _ => rfl⟩ ⟨nofun, nofun⟩
      unfold readVariable variableValue
      rw [denotes]
      refine performs_read (reads_bind (reads_upvalueCell capture) fun cell => reads_readCell cell)
        decodes nofun enough ?_
      change (do pushCellValue (← upvalueCell scene.toActivation capture)) = _
      rw [bind_assoc]
      simp only [pushCellValue, readCell, bind_assoc]
  | global =>
      obtain ⟨constant, holds, is⟩ := holds
      exact performs_loadGlobal runs denotes holds is room

/-! ## Storing -/

theorem blind_writeCell (cell : Handle) (value : Value) : Blind (writeCell cell value).run :=
  blindAction_bind (blindAction_lift (blind_retain value)) fun _ => blindAction_onHeap _

/-- An instruction that stores the topmost operand in a cell that it reads. -/
theorem performs_writeCell {cell : Action Handle} (reads : Reads scene.toActivation cell)
    (decodes : function.code.decode (scene.position code index) = .ok instr ∧
      scene.position code (index + 1) = scene.position code index + instr.op.size)
    (plain : instr.op ≠ .call)
    (executes : execute scene.toActivation instr =
      cell >>= storeInCell scene.toActivation) :
    scene.Performs code function depth [value] index
      (do
        let cell ← cell
        writeCell cell value
        return value)
      (fun result => [result]) fun _ => index + 1 := by
  refine performs_instruction decodes.1 plain fun env units operands ready => ?_
  have programs := ready.noted.programs
  obtain ⟨kept, told⟩ := reads env units (scene.position code index + instr.size)
    (operands ++ [value]) ready.hosts.inStack programs
  rw [executes, action_bind, action_bind cell (storeInCell scene.toActivation), told]
  generalize cell env = outcome at kept
  obtain ⟨fault | block, after⟩ := outcome
  · obtain rfl : after = env := kept
    exact ⟨.refl _ _, units, _, _, ready.noted, rfl⟩
  · obtain rfl : after = env := kept
    have blind := blind_writeCell block value
    have stays : Stays scene.toActivation after (writeCell block value after).2 :=
      Blind.stays blind _ after
    have same : storeInCell scene.toActivation block
        (after.running units (scene.position code index + instr.size)
          (operands ++ [value])) = writeCell block value
            (after.running units (scene.position code index + instr.size)
              (operands ++ [value])) := by
      rw [storeInCell, action_bind_ok (peek_running_last ready.hosts.inStack)]
      rfl
    simp only
    rw [same, blind.runningAction programs, action_bind]
    generalize writeCell block value after = outcome at stays
    obtain ⟨fault | _, later⟩ := outcome
    · exact ⟨stays, units, _, _, stays.noted ready.noted, rfl⟩
    · exact ⟨stays, units, stays.noted ready.noted, by rw [decodes.2]; rfl⟩

/-- A value replaces that of a variable which is in a slot of the function. -/
theorem performs_storeLocal (runs : scene.Runs code function) {slot : UInt16}
    (holds : code.Holds index .storeLocal slot) (own : ¬ scene.isCaptured slot = true) :
    scene.Performs code function depth [value] index
      (do
        let place ← scene.localPlace slot
        retain value
        release (← replaceSlot place value)
        return value)
      (fun result => [result]) fun _ => index + 1 := by
  obtain ⟨decodes, next⟩ := runs.decodeLocal holds (.inr rfl)
  rw [if_neg own] at decodes
  refine performs_instruction decodes nofun fun env units operands ready => ?_
  change _ ∧ scene.Does code operands _ _ (storeLocal scene.toActivation slot
    (env.running units (scene.position code index + 3) (operands ++ [value]))) _
  by_cases inside : slot.toNat < scene.varCount
  · have programs := ready.noted.programs
    have above := ready.hosts.inStack
    have place : ∀ env, scene.localPlace slot env =
        (.ok (scene.base + slot.toNat), env) := fun env => by
      rw [Activation.localPlace, if_pos inside, action_pure]
    have below : scene.base + slot.toNat < env.stack.size := by
      unfold Activation.floor at above
      omega
    obtain ⟨old, there⟩ : ∃ old, env.stack[scene.base + slot.toNat]? = some old :=
      ⟨_, Array.getElem?_eq_getElem below⟩
    -- The value is retained, put in its place, and what was there before is released.
    have retained : Stays scene.toActivation env (retain value env).2 :=
      (blind_retain value).stays _ env
    have retaining := (blind_retain value).running programs (scene.position code index + 3)
      (operands ++ [value])
    have replacing := @replaceSlot_running (retain value env).2 units
      (scene.position code index + 3) (operands ++ [value]) _ value below
    have replaced := @replaceSlot_eq_ok (retain value env).2 _ old value there
    have stored : Stays scene.toActivation (retain value env).2
        (replaceSlot (scene.base + slot.toNat) value (retain value env).2).2 := by
      rw [replaced]
      refine ⟨rfl, rfl, rfl, rfl, Array.size_setIfInBounds, fun place other => ?_, fun _ _ => id⟩
      refine Array.getElem?_setIfInBounds_ne ?_
      rcases other with before | behind
      · omega
      · unfold Activation.floor at behind
        omega
    obtain ⟨after, same⟩ : ∃ after, replaceSlot (scene.base + slot.toNat) value
        (retain value env).2 = (.ok old, after) := ⟨_, replaced⟩
    rw [same] at replacing stored
    have programs' : after.HasPrograms units := (stored.noted (retained.noted ready.noted)).programs
    have releasing := (blind_release old).running programs' (scene.position code index + 3)
      (operands ++ [value])
    have stays := (retained.trans stored).trans ((blind_release old).stays _ after)
    rw [action_bind_ok (place _), action_bind_ok (action_lift _ _), action_bind_ok same,
      action_bind_ok (action_lift _ _), action_pure, storeLocal, action_bind_ok (place _),
      action_bind_ok (peek_running_last above), action_bind_ok (action_lift _ _), retaining,
      action_bind_ok replacing, action_lift, releasing]
    exact ⟨stays, units, stays.noted ready.noted, by rw [next]⟩
  · have failed : ∀ env, scene.localPlace slot env =
        (.error .invalidOperand, env) := fun env => by
      rw [Activation.localPlace, if_neg inside, action_throw]
    rw [storeLocal, action_bind_error (failed _), action_bind_error (failed _)]
    exact ⟨.refl _ _, units, _, _, ready.noted, rfl⟩

theorem setGlobal_stays (activation : Activation) (env : Environment) (slot : Nat)
    (value : Value) : Stays activation env (setGlobal slot value env).2 :=
  ⟨rfl, rfl, rfl, rfl, rfl, fun _ _ => rfl, keepsGlobals_setGlobal env slot value⟩

theorem performs_storeGlobal (runs : scene.Runs code function) {constant : UInt16}
    (holds : code.Holds index .storeGlobal constant) (is : code.isString constant name) :
    scene.Performs code function depth [value] index
      (do
        retain value
        defineGlobal name value
        return value)
      (fun result => [result]) fun _ => index + 1 := by
  obtain ⟨decodes, next⟩ := runs.decode holds ⟨nofun, fun _ => rfl⟩ ⟨nofun, nofun⟩
  refine performs_instruction decodes nofun fun env units operands ready => ?_
  have programs := ready.noted.programs
  have named := runs.strings _ _ is
  have executes : execute scene.toActivation ⟨.storeGlobal, constant, 0⟩ =
      storeGlobal scene.toActivation constant := rfl
  have retained : Stays scene.toActivation env (retain value env).2 :=
    (blind_retain value).stays _ env
  obtain ⟨units', noted, found⟩ := @namedSlot_running (retain value env).2 units
    (scene.position code index + (⟨.storeGlobal, constant, 0⟩ : Instruction).size)
    (operands ++ [value]) scene.toActivation (retained.noted ready.noted)
    ready.hosts.program constant name named
  have text : nameText scene.toActivation constant = name := by
    unfold nameText
    rw [named]
    rfl
  have retaining := (blind_retain value).running programs
    (scene.position code index + (⟨.storeGlobal, constant, 0⟩ : Instruction).size)
    (operands ++ [value])
  have slotFound := @action_tryCatch _ (namedSlot scene.toActivation constant) (fun fault => do
    release value
    throw fault) ((retain value env).2.running units
      (scene.position code index + (⟨.storeGlobal, constant, 0⟩ : Instruction).size)
      (operands ++ [value]))
  rw [found] at slotFound
  rw [action_bind_ok (action_lift _ _), action_bind_ok (action_lift _ _), action_pure, executes,
    storeGlobal, action_bind_ok (peek_running_last ready.hosts.inStack),
    action_bind_ok (action_lift _ _), retaining, assignGlobal, action_bind_ok slotFound, text]
  generalize (retain value env).2 = after at retained noted
  cases known : after.globalSlot? name with
  | some slot =>
      have stays := setGlobal_stays scene.toActivation after slot value
      rw [defineGlobal_known value known]
      exact ⟨retained.trans stays, units', stays.noted noted, by rw [next]; rfl⟩
  | none =>
      have defined : Stays scene.toActivation after (defineGlobal name value after).2 := by
        have kept := keepsGlobals_defineGlobal after name value
        rw [defineGlobal_new value known] at kept ⊢
        exact ⟨rfl, rfl, rfl, rfl, rfl, fun _ _ => rfl, kept⟩
      have same := @defineGlobal_new (after.running units'
        (scene.position code index + (⟨.storeGlobal, constant, 0⟩ : Instruction).size)
        (operands ++ [value])) name value known
      refine ⟨retained.trans defined, units', defined.noted noted, ?_⟩
      simp only
      rw [action_lift, same, defineGlobal_new value known, next]
      rfl

/-- Storing into a variable performs writing it. -/
theorem performs_store (runs : scene.Runs code function) (resolves : code.resolves name place)
    (holds : code.StoreAt place name index) :
    scene.Performs code function depth [value] index
      (do
        scene.writeVariable name value
        return value)
      (fun result => [result]) fun _ => index + 1 := by
  have denotes := runs.names _ _ resolves
  unfold CompleteCode.StoreAt at holds
  unfold writeVariable
  rw [denotes]
  cases place with
  | slot slot =>
      simp only
      by_cases captured : scene.isCaptured slot = true
      · obtain ⟨decodes, next⟩ := runs.decodeLocal holds (.inr rfl)
        simp only [captured, ↓reduceIte] at decodes ⊢
        rw [bind_assoc]
        exact performs_writeCell (reads_localCell slot) ⟨decodes, next⟩ nofun rfl
      · simp only [captured]
        simp only [Bool.false_eq_true, ↓reduceIte, bind_assoc]
        exact performs_storeLocal runs holds captured
  | capture capture =>
      have decodes := runs.decode holds ⟨nofun, fun _ => rfl⟩ ⟨nofun, nofun⟩
      simp only
      rw [bind_assoc]
      exact performs_writeCell (reads_upvalueCell capture) decodes nofun rfl
  | global =>
      obtain ⟨constant, holds, is⟩ := holds
      simp only
      rw [bind_assoc]
      exact performs_storeGlobal runs holds is

end Scene

end PocketScript
