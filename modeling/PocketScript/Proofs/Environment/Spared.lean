import PocketScript.Proofs.Environment.Answers
import PocketScript.Proofs.Heap.Spared

/-!
# What leaves shared variables alone

Apart from the instructions that box a variable, make a closure or store into a cell, nothing that is
done with an environment makes a cell or a closure or changes what one holds
(`Environment.sparing_execute`, `Environment.spares_answer`). Nor do these when they fail
(`Environment.spares_failed`).
-/

namespace PocketScript

/-- The operation makes a cell or a closure, or stores into a cell. -/
def Opcode.handlesShared : Opcode → Bool
  | .makeCell | .makeClosure | .storeCell | .storeUpvalue => true
  | _ => false

namespace Environment

variable {α β : Type} {env before middle after : Environment} {activation : Activation}
  {index : UInt16}

/-- The cells and closures that are there afterwards were there before, and hold the same. -/
abbrev Spares (before after : Environment) : Prop := before.heap.Spares after.heap

/-- Whatever comes of the action, it leaves cells and closures alone. -/
def Sparing (action : Action α) : Prop := ∀ env, Spares env (action env).2

/-- The same of an operation that always succeeds. -/
def SparingUpdate (update : Update α) : Prop := ∀ env, Spares env (update env).2

/-! ## Updates -/

theorem sparingUpdate_bind {first : Update α} {next : α → Update β} (one : SparingUpdate first)
    (two : ∀ result, SparingUpdate (next result)) : SparingUpdate (first >>= next) :=
  fun env => (one env).trans (two _ _)

theorem sparingUpdate_pure (result : α) : SparingUpdate (pure result : Update α) :=
  fun env => .refl env.heap

/-- Something else than the heap is changed. -/
theorem sparingUpdate_modify {change : Environment → Environment}
    (same : ∀ env, (change env).heap = env.heap) :
    SparingUpdate (modify change : Update Unit) := fun env => by
  rw [update_modify, Spares, same]
  exact .refl _

/-- Nor does a look. -/
theorem sparingUpdate_view (tell : Environment → α) : SparingUpdate (view tell : Update α) :=
  fun env => .refl env.heap

theorem sparingUpdate_logLine (line : String) : SparingUpdate (logLine line) :=
  fun env => .refl env.heap

/-- Something is given up, or counted once more. -/
theorem sparingUpdate_shrinks {change : Heap → Heap}
    (shrinks : ∀ heap, PoolSet.Shrinks heap.blocks (change heap).blocks) :
    SparingUpdate (updateHeap change) :=
  fun env => Heap.spares_of_shrinks (shrinks env.heap)

theorem sparingUpdate_forM {items : List α} {each : α → Update Unit}
    (one : ∀ item, SparingUpdate (each item)) : SparingUpdate (items.forM each) := by
  induction items with
  | nil => exact sparingUpdate_pure ()
  | cons first rest ih => exact sparingUpdate_bind (one first) fun _ => ih

theorem sparingUpdate_retain (value : Value) : SparingUpdate (retain value) :=
  sparingUpdate_shrinks fun _ => Heap.shrinks_retain _ _

theorem sparingUpdate_release (value : Value) : SparingUpdate (release value) :=
  sparingUpdate_shrinks fun _ => Heap.shrinks_release _ _

theorem sparingUpdate_releaseAll (values : List Value) : SparingUpdate (releaseAll values) :=
  sparingUpdate_shrinks fun _ => Heap.shrinks_releaseAll _ _

theorem sparingUpdate_setGlobal (slot : Nat) (value : Value) : SparingUpdate (setGlobal slot value) :=
  sparingUpdate_bind (sparingUpdate_view _) fun _ => sparingUpdate_bind
    (sparingUpdate_modify fun _ => rfl) fun _ => sparingUpdate_releaseAll _

theorem sparingUpdate_defineGlobal (name : String) (value : Value) :
    SparingUpdate (defineGlobal name value) := by
  refine sparingUpdate_bind (sparingUpdate_view _) fun slot => ?_
  cases slot with
  | some slot => exact sparingUpdate_setGlobal slot value
  | none => exact sparingUpdate_modify fun _ => rfl

/-! ## Actions -/

theorem sparing_update {update : Update α} (sparing : SparingUpdate update) :
    Sparing (liftM update : Action α) := sparing

theorem sparing_bind {first : Action α} {next : α → Action β} (one : Sparing first)
    (two : ∀ value, Sparing (next value)) : Sparing (first >>= next) := by
  intro env
  have here := one env
  rw [action_bind]
  generalize first env = outcome at here
  obtain ⟨fault | value, middle⟩ := outcome
  · exact here
  · exact here.trans (two value middle)

theorem sparing_tryCatch {first : Action α} {handle : Fault → Action α} (one : Sparing first)
    (two : ∀ fault, Sparing (handle fault)) : Sparing (tryCatch first handle : Action α) := by
  intro env
  have here := one env
  rw [action_tryCatch]
  generalize first env = outcome at here
  obtain ⟨fault | value, middle⟩ := outcome
  · exact here.trans (two fault middle)
  · exact here

/-- An action that changes nothing. -/
theorem sparing_look {action : Action α} (looks : ∀ env, (action env).2 = env) :
    Sparing action := fun env => by
  rw [looks env]
  exact .refl env.heap

theorem sparing_pure (value : α) : Sparing (pure value : Action α) := sparing_look fun _ => rfl

theorem sparing_throw (fault : Fault) : Sparing (throw fault : Action α) := sparing_look fun _ => rfl

theorem sparing_view (tell : Environment → α) : Sparing (view tell : Action α) :=
  sparing_look fun _ => rfl

theorem sparing_found (value : Option α) : Sparing (found value) := by
  cases value with
  | none => exact sparing_throw _
  | some value => exact sparing_pure value

theorem sparing_discard {action : Action α} (sparing : Sparing action) : Sparing (discard action) := by
  intro env
  rw [action_discard]
  exact sparing env

theorem sparing_onHeap {operation : Heap → Heap.Outcome α}
    (spares : ∀ heap : Heap, heap.Spares (operation heap).2) : Sparing (onHeap operation) :=
  fun env => spares env.heap

theorem sparing_releasingAfter {values : List Value} {action : Action α} (sparing : Sparing action) :
    Sparing (releasingAfter values action) :=
  sparing_bind (sparing_tryCatch sparing fun _ => sparing_bind
    (sparing_update (sparingUpdate_releaseAll values)) fun _ => sparing_throw _) fun _ => sparing_bind
      (sparing_update (sparingUpdate_releaseAll values)) fun _ => sparing_pure _

/-- A full heap is noted in the log. -/
theorem sparing_notingFullHeap {action : Action α} (sparing : Sparing action) :
    Sparing (notingFullHeap action) :=
  sparing_tryCatch sparing fun _ => sparing_bind (sparing_update (sparingUpdate_bind
    (sparingUpdate_view _) fun _ => sparingUpdate_logLine _)) fun _ => sparing_throw _

/-! ## The stack -/

/-- The stack lies outside the heap. -/
theorem sparing_push (value : Value) : Sparing (push value) := fun env => by
  rw [push_eq]
  split
  · exact .refl env.heap
  · exact Heap.spares_of_shrinks (Heap.shrinks_release _ _)

theorem sparing_pushShared (value : Value) : Sparing (pushShared value) :=
  sparing_bind (sparing_update (sparingUpdate_retain value)) fun _ => sparing_push value

theorem sparing_peek (floor below : Nat) : Sparing (peek floor below) := fun env => by
  obtain ⟨-, same⟩ | ⟨value, -, -, same⟩ := peek_cases floor below env <;>
    · rw [same]
      exact .refl env.heap

theorem sparing_pop (floor : Nat) : Sparing (pop floor) := fun env => by
  obtain ⟨-, same⟩ | ⟨value, -, -, same⟩ := pop_cases floor env <;>
    · rw [same]
      exact .refl env.heap

theorem sparing_popMany (floor count : Nat) : Sparing (popMany floor count) := fun env => by
  obtain ⟨-, same⟩ | ⟨-, same⟩ := popMany_cases floor count env <;>
    · rw [same]
      exact .refl env.heap

theorem sparing_slot (place : Nat) : Sparing (slot place) := fun env => by
  cases there : env.stack[place]? with
  | none =>
      rw [slot_eq_error there]
      exact .refl env.heap
  | some value =>
      rw [slot_eq_ok there]
      exact .refl env.heap

theorem sparing_replaceSlot (place : Nat) (value : Value) : Sparing (replaceSlot place value) :=
  fun env => by
    obtain ⟨-, same⟩ | ⟨old, -, same⟩ := replaceSlot_cases place value env <;>
      · rw [same]
        exact .refl env.heap

/-! ## Variables and globals -/

/-- The place of a variable is a fixed one. -/
theorem sparing_atLocal {next : Nat → Action β} (rest : ∀ place, Sparing (next place)) :
    Sparing (activation.localPlace index >>= next) := by
  refine sparing_bind ?_ rest
  unfold Activation.localPlace
  split
  · exact sparing_pure _
  · exact sparing_throw _

theorem sparing_localCell : Sparing (localCell activation index) := by
  refine sparing_atLocal fun place => sparing_bind (sparing_slot place) fun value => ?_
  split
  · exact sparing_pure _
  · exact sparing_throw _

theorem sparing_upvalueCell : Sparing (upvalueCell activation index) := by
  refine sparing_bind (sparing_found _) fun closure => sparing_bind (sparing_view _) fun value => ?_
  split
  · exact sparing_pure _
  · exact sparing_throw _

/-- What a cell holds is shared. -/
theorem sparing_pushCellValue (cell : Handle) : Sparing (pushCellValue cell) :=
  sparing_bind (sparing_view _) fun _ => sparing_bind (sparing_found _) fun value =>
    sparing_pushShared value

/-- A slot gives up the value it had. -/
theorem sparing_storeLocal : Sparing (storeLocal activation index) :=
  sparing_atLocal fun place => sparing_bind (sparing_peek _ _) fun value => sparing_bind
    (sparing_update (sparingUpdate_retain value)) fun _ => sparing_bind (sparing_replaceSlot place value)
      fun old => sparing_update (sparingUpdate_release old)

theorem sparing_namedSlot : Sparing (namedSlot activation index) := by
  refine sparing_bind (sparing_view _) fun noted => ?_
  split
  · exact sparing_pure _
  · refine sparing_bind (sparing_found _) fun text => sparing_bind (sparing_view _) fun slot => ?_
    split
    · exact sparing_pure _
    · exact sparing_bind (sparing_update (sparingUpdate_modify fun _ => rfl)) fun _ => sparing_pure _

/-- A global gives up the value it had. -/
theorem sparing_assignGlobal (value : Value) : Sparing (assignGlobal activation index value) := by
  refine sparing_bind (sparing_tryCatch sparing_namedSlot fun _ => sparing_bind
    (sparing_update (sparingUpdate_release value)) fun _ => sparing_throw _) fun slot => ?_
  split
  · exact sparing_update (sparingUpdate_setGlobal _ _)
  · exact sparing_update (sparingUpdate_defineGlobal _ _)

/-- The value of a global is shared. -/
theorem sparing_loadGlobal : Sparing (loadGlobal activation index) := by
  refine sparing_bind sparing_namedSlot fun slot => ?_
  split
  · exact sparing_throw _
  · exact sparing_bind (sparing_view _) fun _ => sparing_bind (sparing_found _) fun _ =>
      sparing_pushShared _

theorem sparing_declareGlobal : Sparing (declareGlobal activation index) := by
  refine sparing_bind sparing_namedSlot fun slot => ?_
  split
  · exact sparing_assignGlobal _
  · exact sparing_pure _

/-! ## Literals -/

theorem sparing_makeArray (count : UInt16) : Sparing (makeArray activation count) :=
  sparing_bind (sparing_popMany _ _) fun _ => sparing_bind
    (sparing_onHeap fun heap => Heap.spares_allocArray heap _) fun array => sparing_push array

theorem sparingUpdate_releaseUnkeyed :
    ∀ values : List Value, SparingUpdate (takeProperties.releaseUnkeyed values)
  | [] | [_] => sparingUpdate_pure ()
  | key :: value :: rest =>
      sparingUpdate_bind (sparingUpdate_release value) fun _ => sparingUpdate_bind
        (sparingUpdate_release key) fun _ => sparingUpdate_releaseUnkeyed rest

theorem sparingUpdate_takeProperties : ∀ (values : List Value) (properties : Array (String × Value)),
    SparingUpdate (takeProperties properties values)
  | [], _ | [_], _ => sparingUpdate_pure _
  | key :: value :: rest, properties => by
      unfold takeProperties
      refine sparingUpdate_bind (sparingUpdate_view _) fun name => ?_
      cases name with
      | some name =>
          exact sparingUpdate_bind (sparingUpdate_release key) fun _ =>
            sparingUpdate_takeProperties rest (properties.push (name, value))
      | none =>
          exact sparingUpdate_bind (sparingUpdate_releaseUnkeyed (key :: value :: rest)) fun _ =>
            sparingUpdate_bind (sparingUpdate_releaseAll _) fun _ => sparingUpdate_pure none

/-- A new object is neither a cell nor a closure. -/
theorem sparing_makeObject (count : UInt16) : Sparing (makeObject activation count) := by
  refine sparing_bind (sparing_popMany _ _) fun values => sparing_bind
    (sparing_update (sparingUpdate_takeProperties values #[])) fun properties => ?_
  cases properties with
  | some properties =>
      exact sparing_bind (sparing_onHeap fun heap => Heap.spares_allocObject heap _) fun object =>
        sparing_push object
  | none => exact sparing_throw _

/-! ## Operators and elements -/

/-- Nor is a new string. -/
theorem sparing_allocString (text : String) : Sparing (Environment.onHeap (·.allocString text)) :=
  sparing_onHeap fun heap => @Heap.spares_allocSized (.text text) heap _ not_false

/-- An operation makes at most a string. -/
theorem sparing_applyBinary (op : BinaryOp) (left right : Value) :
    Sparing (applyBinary op left right) := by
  unfold applyBinary
  cases op with
  | add =>
      dsimp only
      split
      · exact sparing_bind (sparing_view _) fun text => sparing_allocString text
      · exact sparing_pure _
  | eq | ne | lt | le | gt | ge => exact sparing_bind (sparing_view _) fun _ => sparing_pure _
  | _ => exact sparing_pure _

/-- An index is only told. -/
theorem sparing_elementIndex (key : Value) : Sparing (elementIndex key) := by
  unfold elementIndex
  split
  · exact sparing_pure _
  · exact sparing_throw _

/-- A key that is a string is only read. -/
theorem sparing_propertyKey (key : Value) : Sparing (propertyKey key) := by
  refine sparing_bind (sparing_view _) fun name => ?_
  split
  · exact sparing_pure _
  · exact sparing_throw _

/-- A length becomes a number. -/
theorem sparing_lengthOr (key : Value) (length : Environment → Nat) : Sparing (lengthOr key length) := by
  refine sparing_bind (sparing_view _) fun name => ?_
  split
  · exact sparing_bind (sparing_view _) fun _ => sparing_pure _
  · exact sparing_pure _

/-- An element that is read is shared. -/
theorem sparing_readElement (found : Option Value) : Sparing (readElement found) :=
  sparing_bind (sparing_update (sparingUpdate_retain _)) fun _ => sparing_pure _

/-- A character becomes a new string. -/
theorem sparing_character (container key : Value) : Sparing (character container key) := by
  unfold character
  split
  · exact sparing_lengthOr key _
  · refine sparing_bind (sparing_elementIndex key) fun index => sparing_bind (sparing_view _)
      fun text => ?_
    split
    · exact sparing_allocString _
    · exact sparing_pure _

theorem sparing_getElement (container key : Value) : Sparing (getElement container key) := by
  cases container with
  | array block =>
      unfold getElement
      dsimp only
      split
      · exact sparing_lengthOr key _
      · exact sparing_bind (sparing_elementIndex key) fun index => sparing_bind (sparing_view _)
          fun item => sparing_readElement item
  | object block =>
      exact sparing_bind (sparing_propertyKey key) fun name => sparing_bind (sparing_view _)
        fun property => sparing_readElement property
  | constant | string | foreign =>
      rw [getElement_of_isString rfl]
      exact sparing_character _ key
  | _ => exact sparing_throw _

theorem sparing_setElement (container key value : Value) : Sparing (setElement container key value) := by
  unfold setElement
  cases container with
  | array block =>
      exact sparing_bind (sparing_elementIndex key) fun index => sparing_bind
        (sparing_update (sparingUpdate_retain value)) fun _ => sparing_onHeap fun heap =>
          Heap.spares_arraySet heap block index value
  | object block =>
      exact sparing_bind (sparing_propertyKey key) fun name => sparing_bind
        (sparing_update (sparingUpdate_retain value)) fun _ => sparing_onHeap fun heap =>
          Heap.spares_objectSet heap block name value
  | _ => exact sparing_throw _

/-- A unary operation gives up its operand. -/
theorem sparing_unary (op : UnaryOp) : Sparing (unary activation op) :=
  sparing_bind (sparing_pop _) fun value => sparing_bind (sparing_view _) fun result => sparing_bind
    (sparing_update (sparingUpdate_release value)) fun _ => sparing_push result

theorem sparing_binary (op : BinaryOp) : Sparing (binary activation op) :=
  sparing_bind (sparing_pop _) fun right => sparing_bind (sparing_pop _) fun left => sparing_bind
    (sparing_releasingAfter (sparing_applyBinary op left right)) fun result => sparing_push result

theorem sparing_pushElement : Sparing (pushElement activation) :=
  sparing_bind (sparing_pop _) fun key => sparing_bind (sparing_pop _) fun container => sparing_bind
    (sparing_releasingAfter (sparing_getElement container key)) fun element => sparing_push element

theorem sparing_storeElement : Sparing (storeElement activation) := by
  refine sparing_bind (sparing_pop _) fun value => sparing_bind (sparing_pop _) fun key =>
    sparing_bind (sparing_pop _) fun container => sparing_bind (sparing_tryCatch
      (sparing_releasingAfter (sparing_setElement container key value)) fun _ => ?_) fun _ =>
        sparing_push value
  exact sparing_bind (sparing_update (sparingUpdate_release value)) fun _ => sparing_throw _

/-- A position lies in a frame. -/
theorem sparing_setPosition (pc : Nat) : Sparing (setPosition pc : Action Unit) :=
  sparing_update (sparingUpdate_modify fun _ => rfl)

/-- A jump gives up the value it depends on. -/
theorem sparing_jumpIf (wanted : Bool) (target : Nat) : Sparing (jumpIf activation wanted target) := by
  refine sparing_bind (sparing_pop _) fun value => sparing_bind (sparing_view _) fun truthy =>
    sparing_bind (sparing_update (sparingUpdate_release value)) fun _ => ?_
  split
  · exact sparing_setPosition target
  · exact sparing_pure _

/-- Here only when it does not jump. -/
theorem sparing_jumpOrPop (wanted : Bool) (target : Nat) :
    Sparing (jumpOrPop activation wanted target) := by
  refine sparing_bind (sparing_peek _ _) fun value => sparing_bind (sparing_view _) fun truthy => ?_
  split
  · exact sparing_setPosition target
  · exact sparing_bind (sparing_pop _) fun value => sparing_update (sparingUpdate_release value)

/-! ## Calls -/

theorem sparing_leaveFunction (base : Nat) (result : Value) : Sparing (leaveFunction base result) :=
  fun env => by
    rw [leaveFunction_eq]
    exact Heap.Spares.trans (Heap.spares_of_shrinks (Heap.shrinks_releaseAll _ _))
      (sparing_push result { env.dropped (base - 1) with frames := env.frames.pop })

theorem spares_dropped (env : Environment) (place : Nat) :
    Spares env (env.dropped place) :=
  Heap.spares_of_shrinks (Heap.shrinks_releaseAll _ _)

theorem sparing_leaveNative (place : Nat) (result : Except Fault Value) :
    Sparing (leaveNative place result) := fun env => by
  rw [leaveNative_eq]
  cases result with
  | ok value => exact (spares_dropped env place).trans (sparing_push value _)
  | error fault => exact spares_dropped env place

theorem spares_laidOut (env : Environment) (base argCount varCount : Nat) :
    Spares env (env.laidOut base argCount varCount) := by
  rw [laidOut_eq]
  exact Heap.spares_of_shrinks (Heap.shrinks_releaseAll _ _)

theorem spares_sharing (env : Environment) (values : List Value) :
    Spares env (env.sharing values) := by
  unfold Spares sharing
  simp only
  generalize env.heap = heap
  induction values generalizing heap with
  | nil => exact .refl heap
  | cons value rest ih =>
      exact (Heap.spares_of_shrinks (Heap.shrinks_retain heap value)).trans (ih _)

theorem spares_unwind (env : Environment) (frames depth : Nat) :
    Spares env (unwind frames depth env).2 := by
  rw [unwind_eq]
  exact spares_dropped env depth

/-! ## Requests -/

theorem sparingUpdate_releaseBlock (block : Handle) : SparingUpdate (releaseBlock block) :=
  sparingUpdate_shrinks fun _ => Heap.shrinks_releaseBlock _ _

theorem sparingUpdate_releaseTimer (timer : Timer) : SparingUpdate (releaseTimer timer) :=
  sparingUpdate_bind (sparingUpdate_release _) fun _ => sparingUpdate_bind (sparingUpdate_release _)
    fun _ => sparingUpdate_releaseBlock _

theorem sparingUpdate_retainDue (due : DueTimer) : SparingUpdate (retainDue due) := by
  unfold retainDue
  split
  · exact sparingUpdate_bind (sparingUpdate_retain _) fun _ => sparingUpdate_retain _
  · exact sparingUpdate_pure ()

theorem sparingUpdate_settle (due : DueTimer) : SparingUpdate (settle due) :=
  sparingUpdate_bind (sparingUpdate_release _) fun _ => sparingUpdate_bind (sparingUpdate_release _)
    fun _ => sparingUpdate_forM fun _ => sparingUpdate_releaseBlock _

theorem sparingUpdate_stopTimer (id : UInt32) : SparingUpdate (stopTimer id) := by
  refine sparingUpdate_bind (sparingUpdate_view _) fun timers => sparingUpdate_bind
    (sparingUpdate_modify fun _ => rfl) fun _ => ?_
  split
  · exact sparingUpdate_pure _
  · exact sparingUpdate_bind (sparingUpdate_releaseTimer _) fun _ => sparingUpdate_bind
      (sparingUpdate_logLine _) fun _ => sparingUpdate_pure _

theorem sparingUpdate_stopTimers : SparingUpdate stopTimers := by
  refine sparingUpdate_bind (sparingUpdate_view _) fun timers => sparingUpdate_bind
    (sparingUpdate_modify fun _ => rfl) fun _ => sparingUpdate_bind
      (sparingUpdate_forM sparingUpdate_releaseTimer) fun _ => ?_
  split
  · exact sparingUpdate_pure _
  · exact sparingUpdate_bind (sparingUpdate_logLine _) fun _ => sparingUpdate_pure _

theorem sparingUpdate_takeDue (now : UInt32) : SparingUpdate (takeDue now) :=
  sparingUpdate_bind (sparingUpdate_view _) fun _ => sparingUpdate_bind
    (sparingUpdate_modify fun _ => rfl) fun _ => sparingUpdate_bind
      (sparingUpdate_forM sparingUpdate_retainDue) fun _ => sparingUpdate_pure _

theorem sparing_startTimer (wait : UInt32) (callback : Value) (repeats : Bool) (param : Value) :
    Sparing (startTimer wait callback repeats param) := by
  unfold startTimer
  split
  · exact sparing_bind (sparing_notingFullHeap (sparing_onHeap fun heap =>
      @Heap.spares_allocSized .timer heap _ not_false)) fun block => sparing_bind
        (sparing_update (sparingUpdate_retain _)) fun _ => sparing_bind
          (sparing_update (sparingUpdate_retain _)) fun _ => sparing_bind (sparing_view _) fun _ =>
            sparing_bind (sparing_view _) fun _ => sparing_bind
              (sparing_update (sparingUpdate_modify fun _ => rfl)) fun _ => sparing_bind
                (sparing_update (sparingUpdate_logLine _)) fun _ => sparing_pure _
  · exact sparing_throw _

theorem sparing_load (program : Program) : Sparing (load program) := fun env => by
  obtain ⟨fault, log, failed⟩ | ⟨-, done⟩ := load_cases program env
  · rw [failed]
    exact .refl env.heap
  · rw [done]
    exact .refl env.heap

/-- Foreign data is neither a cell nor a closure. -/
theorem sparing_allocForeign (text : String) (hostHandle : Nat) :
    Sparing (Environment.allocForeign text hostHandle) :=
  sparing_notingFullHeap (sparing_onHeap fun heap =>
    @Heap.spares_allocSized (.foreign text hostHandle) heap _ not_false)

/-- So does whatever is asked for. -/
theorem spares_answer (request : Request) (env : Environment) :
    Spares env (answer request env).2 := by
  cases request with
  | retain value => exact sparingUpdate_retain value env
  | release value => exact sparingUpdate_release value env
  | allocString text => exact sparing_notingFullHeap (sparing_allocString text) env
  | startTimer wait callback repeats param =>
      exact sparing_startTimer wait callback repeats param env
  | stopTimer id => exact sparingUpdate_stopTimer id env
  | stopTimers => exact sparingUpdate_stopTimers env
  | takeDue now => exact sparingUpdate_takeDue now env
  | settle due => exact sparingUpdate_settle due env
  | load program => exact sparing_load program env
  | textOf | display | print | log | ticks | hasTimer | compile => exact .refl env.heap

/-! ## Instructions -/

/-- Any other instruction leaves cells and closures alone. -/
theorem sparing_execute {instr : Instruction} (aside : instr.op.handlesShared = false) :
    Sparing (execute activation instr) := by
  obtain ⟨op, a, b⟩ := instr
  cases op with
  | nop => exact sparing_pure _
  | pushUndefined | pushNaN | pushTrue | pushFalse | pushZero | pushInt => exact sparing_push _
  | pushNumber => exact sparing_bind (sparing_found _) fun _ => sparing_push _
  | pushString | pushFunction =>
      exact sparing_bind (sparing_discard (sparing_found _)) fun _ => sparing_push _
  | makeArray => exact sparing_makeArray a
  | makeObject => exact sparing_makeObject a
  | pop =>
      exact sparing_bind (sparing_pop _) fun value => sparing_update (sparingUpdate_release value)
  | dup => exact sparing_bind (sparing_peek _ _) fun value => sparing_pushShared value
  | dup2 =>
      exact sparing_bind (sparing_peek _ _) fun first => sparing_bind (sparing_peek _ _) fun second =>
        sparing_bind (sparing_pushShared first) fun _ => sparing_pushShared second
  | loadLocal =>
      exact sparing_atLocal fun place => sparing_bind (sparing_slot place) fun value =>
        sparing_pushShared value
  | storeLocal => exact sparing_storeLocal
  | loadCell => exact sparing_bind sparing_localCell fun cell => sparing_pushCellValue cell
  | pushCell => exact sparing_bind sparing_localCell fun cell => sparing_pushShared _
  | loadUpvalue => exact sparing_bind sparing_upvalueCell fun cell => sparing_pushCellValue cell
  | pushUpvalue => exact sparing_bind sparing_upvalueCell fun cell => sparing_pushShared _
  | makeCell | makeClosure | storeCell | storeUpvalue => cases aside
  | loadGlobal => exact sparing_loadGlobal
  | storeGlobal =>
      exact sparing_bind (sparing_peek _ _) fun value => sparing_bind
        (sparing_update (sparingUpdate_retain value)) fun _ => sparing_assignGlobal value
  | defineGlobal => exact sparing_bind (sparing_pop _) fun value => sparing_assignGlobal value
  | declareGlobal => exact sparing_declareGlobal
  | getElem => exact sparing_pushElement
  | setElem => exact sparing_storeElement
  | neg | not | bitNot => exact sparing_unary _
  | add | sub | mul | div | mod | bitAnd | bitOr | bitXor | shl | shr | eq | ne | lt | le | gt | ge =>
      exact sparing_binary _
  | jump => exact sparing_setPosition _
  | jumpIfFalse | jumpIfTrue => exact sparing_jumpIf _ _
  | jumpIfFalseOrPop | jumpIfTrueOrPop => exact sparing_jumpOrPop _ _
  | call =>
      refine sparing_look fun env => ?_
      change (requireOperands activation.floor (a.toNat + 1) env).2 = env
      obtain ⟨-, same⟩ | ⟨-, same⟩ :=
        requireOperands_cases activation.floor (a.toNat + 1) env <;> rw [same]
  | ret => exact sparing_bind (sparing_pop _) fun value => sparing_leaveFunction _ value
  | retUndefined => exact sparing_leaveFunction _ _

/-- The topmost operand goes into a variable. -/
theorem storeLocal_cases (activation : Activation) (index : UInt16) (env : Environment) :
    (activation.varCount ≤ index.toNat ∨ env.stack.size ≤ activation.floor) ∧
        (∃ fault, storeLocal activation index env = (.error fault, env)) ∨
      ∃ value heap, index.toNat < activation.varCount ∧ activation.floor < env.stack.size ∧
        env.stack.back? = some value ∧
          storeLocal activation index env = (.ok (), { env with
            stack := env.stack.setIfInBounds (activation.base + index.toNat) value
            heap }) := by
  unfold storeLocal Activation.localPlace
  split
  · rename_i inside
    rw [pure_bind, action_bind]
    obtain ⟨few, failed⟩ | ⟨value, enough, there, done⟩ := peek_cases activation.floor 0 env
    · rw [failed]
      exact .inl ⟨.inr few, _, rfl⟩
    rw [done]
    simp only
    rw [action_bind_ok (action_lift _ _), action_bind]
    obtain ⟨gone, -⟩ | ⟨old, -, done⟩ := replaceSlot_cases (activation.base + index.toNat) value
      (retain value env).2
    · have low : activation.base + index.toNat < env.stack.size := by
        change activation.base + activation.varCount + 0 < _ at enough
        omega
      exact absurd (Array.getElem?_eq_none_iff.mp gone) (Nat.not_le.mpr low)
    · rw [done]
      exact .inr ⟨value, _, inside, enough, by rw [Array.back?_eq_getElem?]; exact there, rfl⟩
  · exact .inl ⟨.inl (Nat.le_of_not_lt ‹_›), _, rfl⟩

/-- A variable that is boxed moves into a new cell. -/
theorem makeCell_cases (sound : env.heap.blocks.Sound) :
    (∃ fault after, makeCell activation index env = (.error fault, after) ∧
      Spares env after) ∨
    ∃ value block heap, index.toNat < activation.varCount ∧
      env.stack[activation.base + index.toNat]? = some value ∧
        env.heap.get? block = none ∧ Heap.Writes block (.cell value) env.heap heap ∧
          makeCell activation index env = (.ok (), { env with
            stack := env.stack.setIfInBounds (activation.base + index.toNat) (.cell block)
            heap }) := by
  unfold makeCell Activation.localPlace
  split
  · rename_i inside
    rw [pure_bind, action_bind]
    obtain ⟨-, failed⟩ | ⟨value, there, done⟩ :=
      replaceSlot_cases (activation.base + index.toNat) .undefined env
    · rw [failed]
      exact .inl ⟨_, _, rfl, .refl env.heap⟩
    rw [done]
    simp only
    rw [action_bind]
    unfold onHeap
    simp only [Heap.allocCell, Heap.asValue]
    obtain ⟨fault, heap, failed, spares⟩ | ⟨block, heap, got, fresh, writes⟩ :=
      Heap.alloc_cases sound (.cell value)
    · rw [failed]
      exact .inl ⟨_, _, rfl, spares⟩
    rw [got]
    refine .inr ⟨value, block, heap, inside, there, fresh, writes, ?_⟩
    obtain ⟨place, -⟩ := Array.getElem?_eq_some_iff.mp there
    simp only [Except.map]
    rw [action_discard]
    obtain ⟨gone, -⟩ | ⟨old, -, done⟩ := replaceSlot_cases (activation.base + index.toNat)
      (.cell block) { env with
        stack := env.stack.setIfInBounds (activation.base + index.toNat) .undefined
        heap }
    · simp [place] at gone
    · rw [done]
      simp only [Except.map, Array.setIfInBounds_setIfInBounds]
  · exact .inl ⟨_, _, rfl, .refl env.heap⟩

/-- The topmost operand goes into a cell. -/
theorem storeInCell_cases (sound : env.heap.blocks.Sound) (cell : Handle) :
    (∃ fault after, storeInCell activation cell env = (.error fault, after) ∧
      Spares env after ∧ (env.stack.size ≤ activation.floor ∨
        env.heap.cellGet? cell = none)) ∨
    ∃ value old heap, activation.floor < env.stack.size ∧
      env.stack.back? = some value ∧ env.heap.cellGet? cell = some old ∧
        Heap.Writes cell (.cell value) env.heap heap ∧
          storeInCell activation cell env = (.ok (), { env with heap }) := by
  unfold storeInCell
  rw [action_bind]
  obtain ⟨few, failed⟩ | ⟨value, enough, there, done⟩ := peek_cases activation.floor 0 env
  · rw [failed]
    exact .inl ⟨_, _, rfl, .refl env.heap, .inl few⟩
  rw [done]
  simp only
  rw [action_bind_ok (action_lift _ _)]
  have less := Heap.shrinks_retain env.heap value
  unfold onHeap
  obtain ⟨fault, heap, failed, spares, none⟩ | ⟨heap, old, stored, held, writes⟩ :=
    Heap.cellSet_cases (less.sound sound) cell value
  · rw [Heap.cellGet?_retain sound] at none
    refine .inl ⟨fault, { env with heap }, ?_, (Heap.spares_of_shrinks less).trans spares,
      .inr none⟩
    exact congrArg (fun outcome => (outcome.1, { env with heap := outcome.2 })) failed
  · refine .inr ⟨value, old, heap, enough, ?_, ?_, ⟨writes.sound, fun other content found => ?_⟩, ?_⟩
    · rw [Array.back?_eq_getElem?]
      exact there
    · exact (Heap.spares_of_shrinks less).cellGet? sound held
    · have kept := writes.kept other content found
      split at kept
      · rwa [if_pos ‹_›]
      · rw [if_neg ‹_›]
        exact less.kept sound other content kept
    · exact congrArg (fun outcome => (outcome.1, { env with heap := outcome.2 })) stored

theorem localCell_cases (activation : Activation) (index : UInt16) (env : Environment) :
    localCell activation index env = (.error .invalidOperand, env) ∨
      ∃ block, index.toNat < activation.varCount ∧
        env.stack[activation.base + index.toNat]? = some (.cell block) ∧
          localCell activation index env = (.ok block, env) := by
  unfold localCell Activation.localPlace
  split
  · rename_i inside
    rw [pure_bind, action_bind]
    cases there : env.stack[activation.base + index.toNat]? with
    | none =>
        rw [slot_eq_error there]
        exact .inl rfl
    | some value =>
        rw [slot_eq_ok there]
        cases value with
        | cell block => exact .inr ⟨block, inside, rfl, rfl⟩
        | _ => exact .inl rfl
  · exact .inl rfl

theorem upvalueCell_cases (activation : Activation) (index : UInt16) (env : Environment) :
    upvalueCell activation index env = (.error .invalidOperand, env) ∨
      ∃ closure block, activation.closure = some closure ∧
        env.heap.closureCell? closure index.toNat = some (.cell block) ∧
          upvalueCell activation index env = (.ok block, env) := by
  unfold upvalueCell
  cases activation.closure with
  | none => exact .inl rfl
  | some closure =>
      rw [action_bind_ok (found_some _ _), action_bind_ok (action_view _ _)]
      cases there : env.heap.closureCell? closure index.toNat with
      | none => exact .inl rfl
      | some value =>
          cases value with
          | cell block => exact .inr ⟨closure, block, rfl, there, rfl⟩
          | _ => exact .inl rfl

/-- The cells on top of the stack move into a new closure. -/
theorem makeClosure_cases (sound : env.heap.blocks.Sound) (count : UInt16)
    (room : env.stack.size < env.config.stackSize + count.toNat) :
    (∃ fault after, makeClosure activation index count env = (.error fault, after) ∧
      Spares env after) ∨
    ∃ block heap, activation.floor + count.toNat ≤ env.stack.size ∧
      env.heap.get? block = none ∧
        Heap.Writes block (.closure ⟨activation.unit, index⟩
          (env.stack.extract (env.stack.size - count.toNat))) env.heap heap ∧
          makeClosure activation index count env = (.ok (), { env with
            stack := (env.stack.shrink (env.stack.size - count.toNat)).push
              (.closure block)
            heap }) := by
  unfold makeClosure
  rw [action_bind, action_discard]
  cases activation.program.function? index with
  | none => exact .inl ⟨_, _, rfl, .refl env.heap⟩
  | some function =>
  rw [found_some]
  simp only [Except.map]
  rw [action_bind]
  obtain ⟨-, failed⟩ | ⟨enough, done⟩ := popMany_cases activation.floor count.toNat env
  · rw [failed]
    exact .inl ⟨_, _, rfl, .refl env.heap⟩
  rw [done]
  simp only
  split
  rotate_left
  · rw [action_bind_ok (action_lift _ _)]
    exact .inl ⟨_, _, rfl, Heap.spares_of_shrinks (Heap.shrinks_releaseAll _ _)⟩
  rw [action_bind]
  unfold onHeap
  simp only [Heap.allocClosure, Heap.asValue, Array.toArray_toList]
  obtain ⟨fault, heap, failed, spares⟩ | ⟨block, heap, got, fresh, writes⟩ :=
    Heap.alloc_cases sound (.closure ⟨activation.unit, index⟩
      (env.stack.extract (env.stack.size - count.toNat)))
  · rw [failed]
    exact .inl ⟨_, _, rfl, spares⟩
  · rw [got]
    refine .inr ⟨block, heap, enough, fresh, writes, ?_⟩
    simp only [Except.map]
    rw [push_eq, if_pos]
    rw [Array.size_shrink]
    change min _ env.stack.size < env.config.stackSize
    omega

/-- An instruction that fails leaves cells and closures alone. -/
theorem spares_failed {instr : Instruction} {fault : Fault} (sound : env.heap.blocks.Sound)
    (room : instr.op = .makeClosure →
      env.stack.size < env.config.stackSize + instr.b.toNat)
    (failed : execute activation instr env = (.error fault, after)) :
    Spares env after := by
  by_cases aside : instr.op.handlesShared = false
  · have sparing : Spares env (execute activation instr env).2 :=
      sparing_execute aside env
    rwa [failed] at sparing
  -- Such an instruction either fails without a trace or does what it is to do.
  have only {action : Action Unit} (same : execute activation instr env = action env)
      (cases : (∃ fault after, action env = (.error fault, after) ∧ Spares env after) ∨
        ∃ after, action env = (.ok (), after)) : Spares env after := by
    rw [same] at failed
    obtain ⟨other, last, stops, spares⟩ | ⟨last, done⟩ := cases
    · cases failed.symm.trans stops
      exact spares
    · cases failed.symm.trans done
  have stores (cell : Handle) (same : execute activation instr env =
      storeInCell activation cell env) : Spares env after := by
    obtain ⟨other, last, stops, spares, -⟩ | ⟨value, old, heap, -, -, -, -, done⟩ :=
      @storeInCell_cases env activation sound cell
    · exact only same (.inl ⟨other, last, stops, spares⟩)
    · exact only same (.inr ⟨_, done⟩)
  obtain ⟨op, a, b⟩ := instr
  cases op with
  | makeCell =>
      refine only rfl ((makeCell_cases sound).imp id ?_)
      rintro ⟨value, block, heap, -, -, -, -, done⟩
      exact ⟨_, done⟩
  | makeClosure =>
      refine only rfl ((makeClosure_cases sound b (room rfl)).imp id ?_)
      rintro ⟨block, heap, -, -, -, done⟩
      exact ⟨_, done⟩
  | storeCell =>
      obtain stops | ⟨cell, -, -, found⟩ := localCell_cases activation a env
      · exact only rfl (.inl ⟨_, env, action_bind_error stops, .refl env.heap⟩)
      · exact stores cell (action_bind_ok found)
  | storeUpvalue =>
      obtain stops | ⟨closure, cell, -, -, found⟩ := upvalueCell_cases activation a env
      · exact only rfl (.inl ⟨_, env, action_bind_error stops, .refl env.heap⟩)
      · exact stores cell (action_bind_ok found)
  | _ => exact absurd rfl aside

end Environment

end PocketScript
