import PocketScript.Proofs.Code.Operands
import PocketScript.Proofs.Environment.Confined

/-!
# What instructions are made of

Every instruction is put together from a few operations on the stack, the globals and the heap. A
property of actions that these operations have, and that passes from the parts of an action to the
whole, is one of all instructions (`Environment.Stepwise`).
-/

namespace PocketScript

namespace Environment

/-- A property of the operations that the instructions of a function are made of, and of whatever is
built from actions that have it. -/
structure Stepwise (activation : Activation) (Has : ∀ {α : Type}, Action α → Prop) : Prop where
  bind : ∀ {α β : Type} {first : Action α} {next : α → Action β},
    Has first → (∀ value, Has (next value)) → Has (first >>= next)
  tryCatch : ∀ {α : Type} {first : Action α} {handle : Fault → Action α},
    Has first → (∀ fault, Has (handle fault)) → Has (tryCatch first handle)
  blind : ∀ {α : Type} {action : Action α}, Blind action.run → Has action
  /-- What can be told without the stacks. -/
  view : ∀ {α : Type} {tell : Environment → α},
    (∀ env stack frames, tell { env with stack, frames } = tell env) →
      Has (view tell : Action α)
  push : ∀ value, Has (push value)
  requireOperands : ∀ count, Has (requireOperands activation.floor count)
  peek : ∀ below, Has (peek activation.floor below)
  pop : Has (pop activation.floor)
  popMany : ∀ count, Has (popMany activation.floor count)
  slot : ∀ place, activation.base ≤ place → place < activation.floor → Has (slot place)
  replaceSlot : ∀ place value, activation.base ≤ place → place < activation.floor →
    Has (replaceSlot place value)
  namedSlot : ∀ name, Has (namedSlot activation name)
  setGlobal : ∀ slot value, Has (setGlobal slot value : Action Unit)
  defineGlobal : ∀ name value, Has (defineGlobal name value : Action Unit)
  setPosition : ∀ pc, Has (setPosition pc : Action Unit)

namespace Stepwise

variable {activation : Activation} {Has : ∀ {α : Type}, Action α → Prop} {α β : Type}
  {index : UInt16} (steps : Stepwise activation Has)

include steps

/-- A result that is known needs no operation. -/
theorem pure (value : α) : Has (Pure.pure value : Action α) := steps.blind (blindAction_pure value)

/-- Nor does a fault. -/
theorem throw (fault : Fault) : Has (MonadExcept.throw fault : Action α) :=
  steps.blind (blindAction_throw fault)

/-- An action has the property also when its result is not wanted. -/
theorem discard {action : Action α} (has : Has action) : Has (discard action) := by
  have same : Functor.discard action = action >>= fun _ => Pure.pure () := by
    funext env
    rw [action_discard, action_bind]
    generalize action env = outcome
    obtain ⟨fault | value, after⟩ := outcome <;> rfl
  rw [same]
  exact steps.bind has fun _ => steps.pure ()

/-- What may be missing is there, or there is a fault. -/
theorem found (value : Option α) : Has (found value) := by
  cases value with
  | none => exact steps.throw _
  | some value => exact steps.pure value

/-- To retain a value looks at the heap only. -/
theorem retain (value : Value) : Has (retain value : Action Unit) :=
  steps.blind (blindAction_lift (blind_retain value))

/-- And so to release one. -/
theorem release (value : Value) : Has (release value : Action Unit) :=
  steps.blind (blindAction_lift (blind_release value))

/-- And to release several. -/
theorem releaseAll (values : List Value) : Has (releaseAll values : Action Unit) :=
  steps.blind (blindAction_lift (blind_releaseAll values))

/-- Every operation on the heap is one. -/
theorem onHeap (operation : Heap → Heap.Outcome α) : Has (onHeap operation) :=
  steps.blind (blindAction_onHeap operation)

/-- A value that is shared is retained and pushed. -/
theorem pushShared (value : Value) : Has (pushShared value) :=
  steps.bind (steps.retain value) fun _ => steps.push value

/-! ## Variables -/

/-- What is done with the place of a variable: it lies among the variables. -/
theorem atLocal {next : Nat → Action β}
    (has : ∀ place, activation.base ≤ place → place < activation.floor → Has (next place)) :
    Has (activation.localPlace index >>= next) := by
  unfold Activation.localPlace
  split
  · rename_i inside
    exact has _ (Nat.le_add_right _ _) (Nat.add_lt_add_left inside _)
  · have stops : (MonadExcept.throw Fault.invalidOperand : Action Nat) >>= next =
        MonadExcept.throw Fault.invalidOperand := rfl
    rw [stops]
    exact steps.throw _

/-- The cell of a captured variable lies in a slot of the function. -/
theorem localCell : Has (localCell activation index) := by
  refine steps.atLocal fun place low high => steps.bind (steps.slot place low high) fun value => ?_
  split
  · exact steps.pure _
  · exact steps.throw _

/-- The cell of a variable from outside lies in the closure. -/
theorem upvalueCell : Has (upvalueCell activation index) := by
  refine steps.bind (steps.found _) fun closure => ?_
  refine steps.bind (steps.view fun _ _ _ => rfl) fun cell => ?_
  split
  · exact steps.pure _
  · exact steps.throw _

/-- What a cell holds is shared. -/
theorem pushCellValue (cell : Handle) : Has (pushCellValue cell) :=
  steps.bind (steps.view fun _ _ _ => rfl) fun _ =>
    steps.bind (steps.found _) fun value => steps.pushShared value

/-- A value goes from the stack into a cell, and the one before is released. -/
theorem storeInCell (cell : Handle) : Has (storeInCell activation cell) :=
  steps.bind (steps.peek 0) fun value =>
    steps.bind (steps.retain value) fun _ => steps.onHeap _

/-- And so into a slot. -/
theorem storeLocal : Has (storeLocal activation index) :=
  steps.atLocal fun place low high => steps.bind (steps.peek 0) fun value =>
    steps.bind (steps.retain value) fun _ =>
      steps.bind (steps.replaceSlot place value low high) fun old => steps.release old

/-- The value of a slot moves into a new cell, which takes its place. -/
theorem makeCell : Has (makeCell activation index) :=
  steps.atLocal fun place low high => steps.bind (steps.replaceSlot place _ low high) fun _ =>
    steps.bind (steps.onHeap _) fun cell => steps.discard (steps.replaceSlot place cell low high)

/-! ## Globals -/

/-- A value goes into the slot of a global, and the one before is released. -/
theorem assignGlobal (value : Value) : Has (assignGlobal activation index value) := by
  refine steps.bind (steps.tryCatch (steps.namedSlot _) fun fault => ?_) fun slot => ?_
  · exact steps.bind (steps.release value) fun _ => steps.throw fault
  · split
    · exact steps.setGlobal _ value
    · exact steps.defineGlobal _ value

/-- The value of a global is shared. -/
theorem loadGlobal : Has (loadGlobal activation index) := by
  refine steps.bind (steps.namedSlot _) fun slot => ?_
  split
  · exact steps.throw _
  · exact steps.bind (steps.view fun _ _ _ => rfl) fun binding =>
      steps.bind (steps.found binding) fun _ => steps.pushShared _

/-- An assignment leaves its value on the stack. -/
theorem storeGlobal : Has (storeGlobal activation index) :=
  steps.bind (steps.peek 0) fun value =>
    steps.bind (steps.retain value) fun _ => steps.assignGlobal value

/-- A definition takes it away. -/
theorem defineNamed : Has (defineNamed activation index) :=
  steps.bind steps.pop fun value => steps.assignGlobal value

/-- A global is undefined at first, unless it is there already. -/
theorem declareGlobal : Has (declareGlobal activation index) := by
  refine steps.bind (steps.namedSlot _) fun slot => ?_
  split
  · exact steps.assignGlobal .undefined
  · exact steps.pure ()

/-! ## Constants and literals -/

/-- A number constant is pushed. -/
theorem pushNumber : Has (pushNumber activation index) :=
  steps.bind (steps.found _) fun _ => steps.push _

/-- A string constant is pushed. -/
theorem pushString : Has (pushString activation index) :=
  steps.bind (steps.discard (steps.found _)) fun _ => steps.push _

/-- A function is pushed, which no closure belongs to. -/
theorem pushFunction : Has (pushFunction activation index) :=
  steps.bind (steps.discard (steps.found _)) fun _ => steps.push _

/-- The cells on the stack go into the block of a closure. -/
theorem makeClosure (count : UInt16) : Has (makeClosure activation index count) := by
  refine steps.bind (steps.discard (steps.found _)) fun _ =>
    steps.bind (steps.popMany count.toNat) fun cells => ?_
  split
  · exact steps.bind (steps.onHeap _) fun _ => steps.push _
  · exact steps.bind (steps.releaseAll cells) fun _ => steps.bind (steps.throw _) fun _ =>
      steps.bind (steps.onHeap _) fun _ => steps.push _

/-- The elements on the stack go into a new array. -/
theorem makeArray : Has (makeArray activation index) :=
  steps.bind (steps.popMany _) fun _ => steps.bind (steps.onHeap _) fun _ => steps.push _

/-- The keys and values on the stack go into a new object. -/
theorem makeObject : Has (makeObject activation index) := by
  refine steps.bind (steps.popMany _) fun values =>
    steps.bind (steps.blind (blindAction_lift (blind_takeProperties #[] values))) fun taken => ?_
  split
  · exact steps.bind (steps.onHeap _) fun _ => steps.push _
  · exact steps.throw _

/-! ## Operators, elements, jumps -/

/-- A unary operation replaces its operand, which is released. -/
theorem unary (op : UnaryOp) : Has (unary activation op) :=
  steps.bind steps.pop fun value => steps.bind (steps.view fun _ _ _ => rfl) fun result =>
    steps.bind (steps.release value) fun _ => steps.push result

/-- And a binary operation replaces both of its operands. -/
theorem binary (op : BinaryOp) : Has (binary activation op) :=
  steps.bind steps.pop fun right => steps.bind steps.pop fun left =>
    steps.bind (steps.blind (blind_releasingAfter _ (blind_applyBinary op left right)))
      fun result => steps.push result

/-- An element replaces the container and the key. -/
theorem pushElement : Has (pushElement activation) :=
  steps.bind steps.pop fun key => steps.bind steps.pop fun container =>
    steps.bind (steps.blind (blind_releasingAfter _ (blind_getElement container key)))
      fun result => steps.push result

/-- The value of an assignment to an element stays, and is released only if that fails. -/
theorem storeElement : Has (storeElement activation) := by
  refine steps.bind steps.pop fun value => steps.bind steps.pop fun key =>
    steps.bind steps.pop fun container => steps.bind (steps.tryCatch
      (steps.blind (blind_releasingAfter _ (blind_setElement container key value))) fun fault => ?_)
        fun _ => steps.push value
  exact steps.bind (steps.release value) fun _ => steps.throw fault

/-- A jump looks at the value on top of the stack and takes it away. -/
theorem jumpIf (wanted : Bool) (target : Nat) : Has (jumpIf activation wanted target) := by
  refine steps.bind steps.pop fun value => steps.bind (steps.view fun _ _ _ => rfl) fun truthy =>
    steps.bind (steps.release value) fun _ => ?_
  split
  · exact steps.setPosition target
  · exact steps.pure ()

/-- Here the value stays where the jump is made. -/
theorem jumpOrPop (wanted : Bool) (target : Nat) : Has (jumpOrPop activation wanted target) := by
  refine steps.bind (steps.peek 0) fun value =>
    steps.bind (steps.view fun _ _ _ => rfl) fun truthy => ?_
  split
  · exact steps.setPosition target
  · exact steps.bind steps.pop fun value => steps.release value

/-- All instructions have the property that do not leave the function. -/
theorem execute_staying {instr : Instruction} (stays : instr.op.leaves = false) :
    Has (Environment.execute activation instr) := by
  obtain ⟨op, a, b⟩ := instr
  cases op with
  | nop => exact steps.pure ()
  | pushUndefined | pushNaN | pushTrue | pushFalse | pushZero | pushInt => exact steps.push _
  | pushNumber => exact steps.pushNumber
  | pushString => exact steps.pushString
  | pushFunction => exact steps.pushFunction
  | makeClosure => exact steps.makeClosure b
  | makeArray => exact steps.makeArray
  | makeObject => exact steps.makeObject
  | pop => exact steps.bind steps.pop fun value => steps.release value
  | dup => exact steps.bind (steps.peek 0) fun value => steps.pushShared value
  | dup2 =>
      exact steps.bind (steps.peek 1) fun first => steps.bind (steps.peek 0) fun second =>
        steps.bind (steps.pushShared first) fun _ => steps.pushShared second
  | loadLocal =>
      exact steps.atLocal fun place low high =>
        steps.bind (steps.slot place low high) fun value => steps.pushShared value
  | storeLocal => exact steps.storeLocal
  | loadCell => exact steps.bind steps.localCell fun cell => steps.pushCellValue cell
  | storeCell => exact steps.bind steps.localCell fun cell => steps.storeInCell cell
  | makeCell => exact steps.makeCell
  | pushCell => exact steps.bind steps.localCell fun cell => steps.pushShared _
  | loadUpvalue => exact steps.bind steps.upvalueCell fun cell => steps.pushCellValue cell
  | storeUpvalue => exact steps.bind steps.upvalueCell fun cell => steps.storeInCell cell
  | pushUpvalue => exact steps.bind steps.upvalueCell fun cell => steps.pushShared _
  | loadGlobal => exact steps.loadGlobal
  | storeGlobal => exact steps.storeGlobal
  | defineGlobal => exact steps.defineNamed
  | declareGlobal => exact steps.declareGlobal
  | getElem => exact steps.pushElement
  | setElem => exact steps.storeElement
  | neg => exact steps.unary .neg
  | not => exact steps.unary .not
  | bitNot => exact steps.unary .bitNot
  | add => exact steps.binary .add
  | sub => exact steps.binary .sub
  | mul => exact steps.binary .mul
  | div => exact steps.binary .div
  | mod => exact steps.binary .mod
  | bitAnd => exact steps.binary .bitAnd
  | bitOr => exact steps.binary .bitOr
  | bitXor => exact steps.binary .bitXor
  | shl => exact steps.binary .shl
  | shr => exact steps.binary .shr
  | eq => exact steps.binary .eq
  | ne => exact steps.binary .ne
  | lt => exact steps.binary .lt
  | le => exact steps.binary .le
  | gt => exact steps.binary .gt
  | ge => exact steps.binary .ge
  | jump => exact steps.setPosition _
  | jumpIfFalse => exact steps.jumpIf false _
  | jumpIfTrue => exact steps.jumpIf true _
  | jumpIfFalseOrPop => exact steps.jumpOrPop false _
  | jumpIfTrueOrPop => exact steps.jumpOrPop true _
  | call => exact steps.requireOperands _
  | ret => cases stays
  | retUndefined => cases stays

/-- All instructions of the function have the property, when leaving it has. -/
theorem execute (leaveFunction : ∀ result, Has (leaveFunction activation.base result))
    (instr : Instruction) : Has (execute activation instr) := by
  cases leaves : instr.op.leaves with
  | false => exact steps.execute_staying leaves
  | true =>
      obtain ⟨op, a, b⟩ := instr
      cases op with
      | ret => exact steps.bind steps.pop fun value => leaveFunction value
      | retUndefined => exact leaveFunction .undefined
      | _ => cases leaves

end Stepwise

end Environment

end PocketScript
