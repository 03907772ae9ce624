import PocketScript.Proofs.Environment.Accounts

/-!
# What an instruction does with the accounts

An instruction that finds its operands on the stack, and what its own operand refers to, keeps the
accounts balanced: it puts its results in the place of the operands, or fails in an ordinary way and
has released all that it had taken (`Environment.Ground.Turns`). The operands below the ones
it needs stay what they are, and of the variables only the one it stores in is another.
-/

namespace PocketScript

/-- The value is neither on the heap nor a function of a program. -/
structure Value.IsPlain (value : Value) : Prop where
  block : value.block? = none
  function : ∀ target, value ≠ .function target

theorem Value.IsPlain.knows {value : Value} {trusted : Prop} (plain : value.IsPlain)
    (env : Environment) : env.Knows trusted value where
  live block leads := absurd (plain.block.symm.trans leads) (Option.some_ne_none _).symm
  function target same := by
    injection same with same
    exact absurd same (plain.function target)

/-- Numbers are plain. -/
theorem plain_ofNumber (number : Number) : (Value.ofNumber number).IsPlain := by
  unfold Value.ofNumber
  split
  · exact ⟨rfl, by simp⟩
  · exact ⟨rfl, by simp⟩

namespace Environment

variable {trusted : Prop} {env : Environment} {outside : List Reference} {value : Value}

theorem plain_applyUnary (env : Environment) (op : UnaryOp) (value : Value) :
    (env.applyUnary op value).IsPlain := by
  unfold applyUnary
  split
  · exact plain_ofNumber _
  all_goals exact ⟨rfl, by simp⟩

theorem plain_onValues (op : BinaryOp) (left right : Value) : (op.onValues left right).IsPlain := by
  unfold BinaryOp.onValues
  split
  · exact plain_ofNumber _
  · exact ⟨rfl, by simp⟩

/-! ## Globals -/

/-- What is kept once a global has another value. -/
theorem kept_setGlobal (slot : Nat) (value : Value) (env : Environment) :
    (setGlobal slot value env).2.kept =
      ((env.globals.toList.map (·.2)).set slot value).map .value ++
        env.timers.timers.flatMap Timer.references := by
  change List.map _ ((env.globals.modify slot fun binding => (binding.1, value)).toList.map _) ++
    _ = _
  congr 2
  apply List.ext_getElem?
  intro index
  rw [List.getElem?_map, Array.getElem?_toList, Array.getElem?_modify, List.getElem?_set,
    List.length_map, Array.length_toList, List.getElem?_map, Array.getElem?_toList]
  by_cases here : slot = index
  · subst here
    rw [if_pos rfl, if_pos rfl]
    by_cases inside : slot < env.globals.size
    · rw [if_pos inside, Array.getElem?_eq_getElem inside]
      rfl
    · rw [if_neg inside, Array.getElem?_eq_none (Nat.le_of_not_lt inside)]
      rfl
  · rw [if_neg here, if_neg here]

/-- A global takes a value over and gives up the one from before. -/
theorem balanced_setGlobal {slot : Nat} (inside : slot < env.globals.size)
    (balanced : env.Balanced trusted (.value value :: outside)) :
    (setGlobal slot value env).2.Balanced trusted outside := by
  have there : (env.globals.toList.map (·.2))[slot]? = some env.globals[slot].2 := by
    rw [List.getElem?_map, Array.getElem?_toList, Array.getElem?_eq_getElem inside]
    rfl
  unfold Balanced
  rw [kept_setGlobal]
  change Heap.Balanced _ (env.heap.releaseAll
    (env.globals[slot]?.map (·.2)).toList) _
  rw [Array.getElem?_eq_getElem inside]
  refine Heap.Balanced.releaseAll (Heap.Balanced.perm balanced (perm_of_count fun reference => ?_))
  have same := ((Heap.set_perm there value).map Reference.value).count_eq reference
  simp only [kept, Option.map_some, Option.toList_some, List.map_cons, List.map_nil,
    List.cons_append, List.nil_append, List.count_append, List.count_cons] at same ⊢
  omega

theorem balanced_defineGlobal (name : String)
    (balanced : env.Balanced trusted (.value value :: outside)) :
    (defineGlobal name value env).2.Balanced trusted outside := by
  cases known : env.globalSlot? name with
  | some slot =>
      rw [defineGlobal_known value known]
      exact balanced_setGlobal (globalSlot?_lt known) balanced
  | none =>
      rw [defineGlobal_new value known]
      refine Heap.Balanced.perm balanced (perm_of_count fun reference => ?_)
      simp only [kept, Array.toList_push, List.map_append, List.map_cons, List.map_nil,
        List.cons_append, List.count_append, List.count_cons, List.count_nil]
      omega

namespace Ground

variable {ground : Ground} {window : List Value}

/-- The activation stands on the ground: its variables begin there, and its program is loaded. -/
structure Hosts (ground : Ground) (activation : Activation) : Prop where
  base : activation.base = ground.lower.length
  program : ground.programs[activation.unit]? = some activation.program

variable {activation : Activation}

/-! ## Parts of instructions -/

variable {loose : List Value} {failed : Environment → Prop}

/-- Values that take no block are not counted. -/
theorem Bears.add (bears : ground.Bears window loose env) (plain : value.block? = none)
    (able : ∀ target, value = .function target → Offers ground.trusted ground.programs target 0) :
    ground.Bears window (value :: loose) env := by
  refine { bears with balanced := Heap.Balanced.add bears.balanced plain ⟨fun block leads => ?_, ?_⟩ }
  · exact absurd (plain.symm.trans leads) (Option.some_ne_none _).symm
  · intro target same
    injection same with same
    rw [bears.programs]
    exact able target same

theorem Bears.addPlain (bears : ground.Bears window loose env) (plain : value.IsPlain) :
    ground.Bears window (value :: loose) env :=
  bears.add plain.block fun target same => absurd same (plain.function target)

/-- A constant that is there is found. -/
theorem returns_found {α : Type} {before : Environment → Prop} (result : α) :
    Returns before (found (some result)) result before :=
  fun env holds => ⟨env, rfl, holds⟩

theorem returns_discardFound {α : Type} {before : Environment → Prop} (result : α) :
    Returns before (discard (found (some result))) () before :=
  fun env holds => ⟨env, rfl, holds⟩

theorem returns_localPlace (hosts : ground.Hosts activation) {index : UInt16}
    (inside : index.toNat < activation.varCount) {before : Environment → Prop} :
    Returns before (activation.localPlace index) (ground.lower.length + index.toNat) before := by
  intro env holds
  refine ⟨env, ?_, holds⟩
  rw [Activation.localPlace, if_pos inside, hosts.base]
  rfl

/-- Values that are released afterwards in any case. -/
theorem ensures_releasingAfter {α : Type} {action : Action α} {values : List Value}
    {results : α → List Value}
    (inner : Ensures ground.trusted (ground.Bears window (values ++ loose)) action
      (fun result => ground.Bears window (results result ++ (values ++ loose)))
      (ground.Bears window (values ++ loose))) :
    Ensures ground.trusted (ground.Bears window (values ++ loose)) (releasingAfter values action)
      (fun result => ground.Bears window (results result ++ loose)) (ground.Bears window loose) := by
  unfold releasingAfter
  refine ensures_bind (ensures_tryCatch inner returns_releaseAll) fun result => ?_
  refine Returns.bind (returns_releaseAll.weaken (fun env bears => ?_) fun _ => id)
    (ensures_pure fun _ => id)
  refine bears.perm (List.perm_iff_count.mpr fun value => ?_)
  simp only [List.count_append]
  omega

/-- A result that is pushed. -/
theorem ensures_thenPush {before : Environment → Prop} {action : Action Value}
    (inner : Ensures ground.trusted before action (fun result => ground.Bears window [result])
      (ground.Bears window []))
    (room : ground.lower.length + window.length < ground.config.stackSize) :
    Ensures ground.trusted before (action >>= push)
      (fun _ env => ∃ values, values.length = 1 ∧
        ground.Bears (window ++ values) [] env) ground.Rests := by
  refine ensures_bind (inner.weaken (fun _ => id) (fun _ _ => id) fun _ bears => ⟨window, bears⟩)
    fun result => ?_
  have pushed : Returns (ground.Bears window [result]) (push result) ()
      (ground.Bears (window ++ [result]) []) := returns_push room
  exact Returns.ensures (pushed.weaken (fun _ => id) fun env bears => ⟨[result], rfl, bears⟩)

/-! ## Operands -/

/-- The outcome of an instruction: other values in the place of its operands, or nothing but what
lies on the stack. -/
def Turns (ground : Ground) (window taken : List Value) (action : Action Unit) (given : Nat) : Prop :=
  Ensures ground.trusted (ground.Bears (window ++ taken) []) action
    (fun _ env => ∃ values, values.length = given ∧
      ground.Bears (window ++ values) [] env) ground.Rests

theorem turns_of_returns {taken values : List Value} {action : Action Unit} {given : Nat}
    (returns : Returns (ground.Bears (window ++ taken) []) action ()
      (ground.Bears (window ++ values) [])) (many : values.length = given) :
    ground.Turns window taken action given :=
  Returns.ensures (returns.weaken (fun _ => id) fun _ bears => ⟨values, many, bears⟩)

/-- A value that takes no block is simply pushed. -/
theorem turns_push (plain : value.block? = none)
    (able : ∀ target, value = .function target → Offers ground.trusted ground.programs target 0)
    (room : ground.lower.length + window.length < ground.config.stackSize) :
    ground.Turns window [] (push value) 1 := by
  refine turns_of_returns ((returns_push room).weaken (fun env bears => ?_) fun _ => id) rfl
  rw [List.append_nil] at bears
  exact bears.add plain able

theorem turns_pushPlain (plain : value.IsPlain)
    (room : ground.lower.length + window.length < ground.config.stackSize) :
    ground.Turns window [] (push value) 1 :=
  turns_push plain.block (fun target same => absurd same (plain.function target)) room

/-- A number constant is pushed. -/
theorem turns_pushNumber {index : UInt16}
    (inside : index.toNat < activation.program.numbers.size)
    (room : ground.lower.length + window.length < ground.config.stackSize) :
    ground.Turns window [] (pushNumber activation index) 1 := by
  unfold pushNumber Program.number?
  rw [Array.getElem?_eq_getElem inside]
  exact (returns_found _).bind (turns_pushPlain (plain_ofNumber _) room)

/-- A string constant is pushed. -/
theorem turns_pushString {index : UInt16}
    (inside : index.toNat < activation.program.strings.size)
    (room : ground.lower.length + window.length < ground.config.stackSize) :
    ground.Turns window [] (pushString activation index) 1 := by
  unfold pushString Program.string?
  rw [Array.getElem?_eq_getElem inside]
  exact (returns_discardFound _).bind (turns_pushPlain ⟨rfl, by simp⟩ room)

/-- A function that needs no captures is pushed. -/
theorem turns_pushFunction {index : UInt16}
    (inside : index.toNat < activation.program.functions.size)
    (able : Offers ground.trusted ground.programs ⟨activation.unit, index⟩ 0)
    (room : ground.lower.length + window.length < ground.config.stackSize) :
    ground.Turns window [] (pushFunction activation index) 1 := by
  unfold pushFunction Program.function?
  rw [Array.getElem?_eq_getElem inside]
  refine (returns_discardFound _).bind (turns_push rfl (fun target same => ?_) room)
  injection same with same
  exact same ▸ able

/-- An operand is taken and released. -/
theorem turns_pop (low : activation.floor ≤ ground.lower.length + window.length) :
    ground.Turns window [value] (do release (← pop activation.floor)) 0 := by
  refine @turns_of_returns _ _ _ [] _ _ ?_ rfl
  rw [List.append_nil]
  exact (returns_pop low).then returns_release

/-- An operand is shared with a second place. -/
theorem turns_dup (low : activation.floor ≤ ground.lower.length + window.length)
    (room : ground.lower.length + window.length + 2 ≤ ground.config.stackSize) :
    ground.Turns window [value] (do pushShared (← peek activation.floor 0)) 2 := by
  refine @turns_of_returns _ _ _ [value, value] _ _ ?_ rfl
  refine (@returns_peek ground window [] value activation.floor [] low).then ?_
  have room' : ground.lower.length + (window ++ [value]).length < ground.config.stackSize := by
    rw [List.length_append, List.length_singleton]
    omega
  refine (returns_pushShared room' fun env bears => bears.knows ?_).weaken (fun _ => id)
    fun env bears => ?_
  · exact .inr (List.mem_append_right _ List.mem_cons_self)
  · rw [List.append_assoc] at bears
    exact bears

/-- And so are two operands at once. -/
theorem turns_dup2 {first second : Value}
    (low : activation.floor ≤ ground.lower.length + window.length)
    (room : ground.lower.length + window.length + 4 ≤ ground.config.stackSize) :
    ground.Turns window [first, second] (do
      let first ← peek activation.floor 1
      let second ← peek activation.floor 0
      pushShared first
      pushShared second) 4 := by
  refine @turns_of_returns _ _ _ [first, second, first, second] _ _ ?_ rfl
  have split : window ++ [first, second] = (window ++ [first]) ++ [second] := by
    rw [List.append_assoc]
    rfl
  have length : (window ++ [first, second]).length = window.length + 2 := List.length_append
  refine (@returns_peek ground window [] first activation.floor [second] low).then ?_
  have top := @returns_peek ground (window ++ [first]) [] second activation.floor [] (by
    rw [List.length_append, List.length_singleton]
    omega)
  rw [← split] at top
  refine top.then ?_
  refine (returns_pushShared (by omega) fun env bears => bears.knows (.inr ?_)).then ?_
  · simp
  · refine (returns_pushShared ?_ fun env bears => bears.knows (.inr ?_)).weaken
      (fun _ => id) fun env bears => ?_
    · rw [List.length_append, List.length_singleton]
      omega
    · simp
    · simpa using bears

theorem turns_makeClosure {index count : UInt16} {taken : List Value}
    (low : activation.floor ≤ ground.lower.length + window.length)
    (many : taken.length = count.toNat) (cells : ∀ value ∈ taken, value.isCell = true)
    (inside : index.toNat < activation.program.functions.size)
    (able : Offers ground.trusted ground.programs ⟨activation.unit, index⟩ count.toNat)
    (room : ground.lower.length + window.length < ground.config.stackSize) :
    ground.Turns window taken (makeClosure activation index count) 1 := by
  have all : taken.all (·.isCell) = true := List.all_eq_true.mpr cells
  unfold makeClosure Program.function?
  rw [Array.getElem?_eq_getElem inside]
  refine (returns_discardFound _).bind ?_
  refine (returns_popMany low many).bind ?_
  simp only [all, if_true]
  refine ensures_thenPush (ensures_onHeap taken (fun result => [result])
    fun heap outside balanced => ?_) room
  have able' : Offers ground.trusted ground.programs ⟨activation.unit, index⟩ taken.toArray.size := by
    rw [List.size_toArray, many]
    exact able
  exact Heap.Balanced.allocClosure balanced able' fun cell member => cells cell (by simpa using member)

/-- Elements turn into an array. -/
theorem turns_makeArray {count : UInt16} {taken : List Value}
    (low : activation.floor ≤ ground.lower.length + window.length)
    (many : taken.length = count.toNat)
    (room : ground.lower.length + window.length < ground.config.stackSize) :
    ground.Turns window taken (makeArray activation count) 1 := by
  refine (returns_popMany low many).bind ?_
  exact ensures_thenPush (ensures_onHeap taken (fun result => [result])
    fun heap outside balanced => Heap.Balanced.allocArray balanced) room

/-- Keys and values that alternate are all released. -/
theorem bears_releaseUnkeyed : ∀ (values : List Value) (env : Environment),
    values.length % 2 = 0 → ground.Bears window (values ++ loose) env →
      ground.Bears window loose (takeProperties.releaseUnkeyed values env).2
  | [], _, _, bears => bears
  | [_], _, even, _ => by cases even
  | key :: value :: rest, env, even, bears => by
      have swapped : ground.Bears window (value :: key :: (rest ++ loose)) env :=
        bears.perm (List.Perm.swap _ _ _)
      refine bears_releaseUnkeyed rest _ ?_ swapped.release.release
      simp only [List.length_cons] at even
      omega

/-- Of keys and values that alternate the keys are released, and the values become properties;
otherwise nothing is left. -/
theorem bears_takeProperties : ∀ (values : List Value) (properties : Array (String × Value))
    (env : Environment), values.length % 2 = 0 →
    ground.Bears window (values ++ (Heap.valuesOf properties ++ loose)) env →
      match takeProperties properties values env with
      | (some properties, after) => ground.Bears window (Heap.valuesOf properties ++ loose) after
      | (none, after) => ground.Bears window loose after
  | [], _, _, _, bears => bears
  | [_], _, _, even, _ => by cases even
  | key :: value :: rest, properties, env, even, bears => by
      have few : rest.length % 2 = 0 := by
        simp only [List.length_cons] at even
        omega
      rw [takeProperties, update_bind, update_view]
      cases named : env.string? key with
      | some name =>
          simp only
          rw [update_bind]
          refine bears_takeProperties rest (properties.push (name, value)) _ few ?_
          have released : ground.Bears window (value :: (rest ++ (Heap.valuesOf properties ++ loose)))
            (release key env).2 := Bears.release bears
          refine released.perm (List.perm_iff_count.mpr fun other => ?_)
          simp only [Heap.valuesOf, Array.toList_push, List.map_append, List.map_cons, List.map_nil,
            List.count_append, List.count_cons, List.count_nil]
          omega
      | none =>
          have released := bears_releaseUnkeyed (key :: value :: rest) env even bears
          exact released.releaseAll

/-- Keys and values turn into an object. -/
theorem turns_makeObject {count : UInt16} {taken : List Value}
    (low : activation.floor ≤ ground.lower.length + window.length)
    (many : taken.length = 2 * count.toNat)
    (room : ground.lower.length + window.length < ground.config.stackSize) :
    ground.Turns window taken (makeObject activation count) 1 := by
  refine (returns_popMany low many).bind fun env bears => ?_
  have told := @bears_takeProperties ground window [] taken #[] env (by omega) bears
  rw [action_bind, action_lift]
  generalize takeProperties #[] taken env = outcome at told
  obtain ⟨none | properties, after⟩ := outcome
  · exact ⟨fun _ => rfl, window, told⟩
  · exact ensures_thenPush (ensures_onHeap (Heap.valuesOf properties) (fun result => [result])
      fun heap outside balanced => Heap.Balanced.allocObject balanced) room after told

/-! ## Operators and elements -/

theorem turns_unary {op : UnaryOp} (low : activation.floor ≤ ground.lower.length + window.length)
    (room : ground.lower.length + window.length < ground.config.stackSize) :
    ground.Turns window [value] (unary activation op) 1 := by
  refine (returns_pop low).bind fun env bears => ?_
  rw [action_bind_ok (action_view _ _)]
  have pushed := turns_pushPlain (plain_applyUnary env op value) room
  unfold Turns at pushed
  rw [List.append_nil] at pushed
  exact returns_release.bind pushed env bears

/-- What a step gives that makes a new value of known ones. -/
def Makes (ground : Ground) (window loose : List Value) (action : Action Value) : Prop :=
  Ensures ground.trusted (ground.Bears window loose) action
    (fun result => ground.Bears window (result :: loose)) (ground.Bears window loose)

/-- A plain result is made at once. -/
theorem makes_pure (plain : value.IsPlain) : ground.Makes window loose (pure value) :=
  ensures_pure fun _ bears => bears.addPlain plain

theorem makes_view {α : Type} {tell : Environment → α} {next : α → Action Value}
    (rest : ∀ told, ground.Makes window loose (next told)) :
    ground.Makes window loose ((view tell : Action α) >>= next) :=
  ensures_view fun told env given => rest told env given.1

theorem makes_throw {fault : Fault} (ordinary : ground.trusted → fault.isOrdinary = true) :
    ground.Makes window loose (throw fault) :=
  ensures_throw ordinary fun _ => id

theorem makes_allocString (text : String) :
    ground.Makes window loose (onHeap (·.allocString text)) :=
  ensures_onHeap [] (fun result => [result]) fun _ _ balanced =>
    Heap.Balanced.allocString balanced text

/-- The result of a binary operation is made. -/
theorem makes_applyBinary (op : BinaryOp) (left right : Value) :
    ground.Makes window loose (applyBinary op left right) := by
  unfold applyBinary
  split
  case h_7 =>
    split
    · exact makes_view fun text => makes_allocString text
    · exact makes_pure (plain_onValues _ _ _)
  case h_8 => exact makes_pure (plain_onValues _ _ _)
  all_goals exact makes_view fun _ => makes_pure ⟨rfl, by simp⟩

/-- The operands of a binary instruction, one by one. -/
theorem append_two (window : List Value) (left right : Value) :
    window ++ [left, right] = (window ++ [left]) ++ [right] := by
  rw [List.append_assoc]
  rfl

/-- Two operands turn into it. -/
theorem turns_binary {op : BinaryOp} {left right : Value}
    (low : activation.floor ≤ ground.lower.length + window.length)
    (room : ground.lower.length + window.length < ground.config.stackSize) :
    ground.Turns window [left, right] (binary activation op) 1 := by
  unfold Turns
  rw [append_two]
  refine (returns_pop (Nat.le_trans low (by simp))).bind ((returns_pop low).bind ?_)
  exact ensures_thenPush (@ensures_releasingAfter ground window [] _ _ [left, right]
    (fun result => [result]) (makes_applyBinary op left right)) room

/-! Reading and writing elements -/

/-- An index is told, or the key is none. -/
theorem ensures_elementIndex {before : Environment → Prop} (key : Value) :
    Ensures ground.trusted before (elementIndex key) (fun _ => before) before := by
  unfold elementIndex
  split
  · exact ensures_pure fun _ => id
  · exact ensures_throw (fun _ => rfl) fun _ => id

theorem ensures_propertyKey {before : Environment → Prop} (key : Value) :
    Ensures ground.trusted before (propertyKey key) (fun _ => before) before := by
  unfold propertyKey
  refine ensures_view fun name => ?_
  split
  · exact ensures_pure fun _ => And.left
  · exact ensures_throw (fun _ => rfl) fun _ => And.left

theorem makes_lengthOr (key : Value) (length : Environment → Nat) :
    ground.Makes window loose (lengthOr key length) := by
  unfold lengthOr
  refine makes_view fun name => ?_
  split
  · exact makes_view fun _ => makes_pure ⟨rfl, by simp [Value.ofNat]⟩
  · exact makes_pure ⟨rfl, by simp⟩

/-- A new reference to what was found, when that is known. -/
theorem makes_readElement {tell : Environment → Option Value}
    (knows : ∀ env value, ground.Bears window loose env →
      tell env = some value → env.Knows ground.trusted value) :
    ground.Makes window loose ((view tell : Action _) >>= readElement) := by
  intro env bears
  rw [action_bind_ok (action_view _ _)]
  refine bears.retain ?_
  cases found : tell env with
  | none => exact Value.IsPlain.knows ⟨rfl, by simp⟩ env
  | some value => exact knows env value bears found

/-- The length of a string or one of its characters. -/
theorem makes_character (container key : Value) :
    ground.Makes window loose (character container key) := by
  unfold character
  split
  · exact makes_lengthOr key _
  · refine ensures_bind (ensures_elementIndex key) fun index => makes_view fun text => ?_
    split
    · exact makes_allocString _
    · exact makes_pure ⟨rfl, by simp⟩

/-- An element is made of its container and its key. -/
theorem makes_getElement (container key : Value) :
    ground.Makes window loose (getElement container key) := by
  cases container with
  | array block =>
      unfold getElement
      dsimp only
      split
      · exact makes_lengthOr key _
      · exact ensures_bind (ensures_elementIndex key) fun index =>
          makes_readElement fun env value bears found => bears.balanced.knowsItem found
  | object block =>
      exact ensures_bind (ensures_propertyKey key) fun name =>
        makes_readElement fun env value bears found => bears.balanced.knowsProperty found
  | constant | string | foreign =>
      rw [getElement_of_isString rfl]
      exact makes_character _ key
  | _ => exact makes_throw fun _ => rfl

/-- These two turn into it. -/
theorem turns_pushElement {container key : Value}
    (low : activation.floor ≤ ground.lower.length + window.length)
    (room : ground.lower.length + window.length < ground.config.stackSize) :
    ground.Turns window [container, key] (pushElement activation) 1 := by
  unfold Turns
  rw [append_two]
  refine (returns_pop (Nat.le_trans low (by simp))).bind ((returns_pop low).bind ?_)
  exact ensures_thenPush (@ensures_releasingAfter ground window [] _ _ [container, key]
    (fun result => [result]) (makes_getElement container key)) room

/-- A store of a known value, which stays loose. -/
theorem ensures_setElement (container key : Value) (member : value ∈ loose) :
    Ensures ground.trusted (ground.Bears window loose) (setElement container key value)
      (fun _ => ground.Bears window loose) (ground.Bears window loose) := by
  have stored {operation : Heap → Heap.Outcome Unit}
      (gives : ∀ heap outside, Heap.Balanced (.typed (Offers ground.trusted ground.programs)) heap
        (.value value :: outside) →
          Heap.Gives (.typed (Offers ground.trusted ground.programs)) outside (fun _ => [])
            (operation heap)) :
      Ensures ground.trusted (ground.Bears window loose) (do
        retain value
        onHeap operation) (fun _ => ground.Bears window loose) (ground.Bears window loose) :=
    (returns_retain fun _ bears => bears.knows (.inl member)).bind
      (ensures_onHeap [value] (fun _ => []) gives)
  unfold setElement
  split
  · exact ensures_bind (ensures_elementIndex key) fun index =>
      stored fun _ _ balanced => Heap.Balanced.arraySet balanced _ index
  · exact ensures_bind (ensures_propertyKey key) fun name =>
      stored fun _ _ balanced => Heap.Balanced.objectSet balanced _ name
  · exact ensures_throw (fun _ => rfl) fun _ => id

theorem turns_storeElement {container key : Value}
    (low : activation.floor ≤ ground.lower.length + window.length)
    (room : ground.lower.length + window.length < ground.config.stackSize) :
    ground.Turns window [container, key, value] (storeElement activation) 1 := by
  have split : window ++ [container, key, value] = ((window ++ [container]) ++ [key]) ++ [value] := by
    simp
  unfold Turns
  rw [split]
  refine (returns_pop (Nat.le_trans low (by simp))).bind ?_
  refine (returns_pop (Nat.le_trans low (by simp))).bind ((returns_pop low).bind ?_)
  refine ensures_bind (ensures_tryCatch (@ensures_releasingAfter ground window [value] _ _
    [container, key] (fun _ => []) (ensures_setElement container key ?_))
    (returns_release.weaken (fun _ => id) fun _ bears => ⟨window, bears⟩)) fun _ => ?_
  · simp
  · have pushed : Returns (ground.Bears window [value]) (push value) ()
      (ground.Bears (window ++ [value]) []) := returns_push room
    exact Returns.ensures (pushed.weaken (fun _ => id) fun _ bears => ⟨[value], rfl, bears⟩)

/-! ## Variables -/

variable {index : UInt16}

/-- The value of a variable is shared. -/
theorem turns_loadLocal (hosts : ground.Hosts activation)
    (inside : index.toNat < activation.varCount) (there : window[index.toNat]? = some value)
    (room : ground.lower.length + window.length < ground.config.stackSize) :
    ground.Turns window [] (do pushShared (← slot (← activation.localPlace index))) 1 := by
  refine @turns_of_returns _ _ _ [value] _ _ ?_ rfl
  rw [List.append_nil]
  refine (returns_localPlace hosts inside).then ((returns_slot there).then ?_)
  exact returns_pushShared room fun _ bears => bears.knows (.inr (List.mem_of_getElem? there))

/-- A variable takes the topmost operand over as a new reference. -/
theorem returns_storeLocal {old : Value} (hosts : ground.Hosts activation)
    (low : activation.floor ≤ ground.lower.length + window.length)
    (inside : index.toNat < activation.varCount) (there : window[index.toNat]? = some old) :
    Returns (ground.Bears (window ++ [value]) []) (storeLocal activation index) ()
      (ground.Bears (window.set index.toNat value ++ [value]) []) := by
  have present : (window ++ [value])[index.toNat]? = some old := by
    rw [List.getElem?_append_left (List.getElem?_eq_some_iff.mp there).1, there]
  have changed : (window ++ [value]).set index.toNat value =
      window.set index.toNat value ++ [value] :=
    List.set_append_left _ _ (List.getElem?_eq_some_iff.mp there).1
  refine (returns_localPlace hosts inside).then ?_
  refine (@returns_peek ground window [] value activation.floor [] low).then ?_
  refine (returns_retain fun _ bears => bears.knows (.inr ?_)).then ?_
  · exact List.mem_append_right _ List.mem_cons_self
  · refine (returns_replaceSlot present).then ?_
    rw [changed]
    exact returns_release

/-- A value that takes no block need not be released. -/
theorem Bears.omit (bears : ground.Bears window (value :: loose) env)
    (plain : value.block? = none) : ground.Bears window loose env :=
  { bears with balanced := Heap.Balanced.omit bears.balanced plain }

/-- A variable is boxed: its value moves into a new cell. -/
theorem ensures_makeCell {old : Value} (hosts : ground.Hosts activation)
    (inside : index.toNat < activation.varCount) (there : window[index.toNat]? = some old) :
    Ensures ground.trusted (ground.Bears window []) (makeCell activation index)
      (fun _ env => ∃ cell, ground.Bears (window.set index.toNat (.cell cell)) [] env)
      ground.Rests := by
  have emptied : Returns (ground.Bears window [])
      (replaceSlot (ground.lower.length + index.toNat) .undefined) old
      (ground.Bears (window.set index.toNat .undefined) [old]) :=
    (returns_replaceSlot there).weaken (fun _ bears => bears.addPlain ⟨rfl, by simp⟩) fun _ => id
  have boxed : Ensures ground.trusted (ground.Bears (window.set index.toNat .undefined) [old])
      (onHeap (·.allocCell old))
      (fun cell => ground.Bears (window.set index.toNat .undefined) [cell])
      (ground.Bears (window.set index.toNat .undefined) []) :=
    ensures_onHeap [old] (fun cell => [cell]) fun _ _ => Heap.Balanced.allocCell
  refine (returns_localPlace hosts inside).bind (emptied.bind ?_)
  refine ensures_bind ((boxed.with (fun result => ∃ block, result = .cell block)
    fun env result after done => ?_).weaken (fun _ => id) (fun _ _ => id)
    fun _ bears => ⟨_, bears⟩) fun cell => ?_
  · have same : (env.heap.allocCell old).1 = .ok result := congrArg Prod.fst done
    unfold Heap.allocCell Heap.asValue at same
    generalize env.heap.alloc (.cell old) = outcome at same
    obtain ⟨fault | block, heap⟩ := outcome
    · cases same
    · injection same with same
      exact ⟨block, same.symm⟩
  · rintro env ⟨⟨block, rfl⟩, bears⟩
    have again : (window.set index.toNat .undefined)[index.toNat]? = some .undefined := by
      rw [List.getElem?_set_self (List.getElem?_eq_some_iff.mp there).1]
    obtain ⟨after, done, bears⟩ := returns_replaceSlot again env bears
    rw [action_discard, done]
    rw [List.set_set] at bears
    exact ⟨block, bears.omit rfl⟩

/-! ## Cells -/

/-- An action that finds a cell. -/
def Finds (ground : Ground) (window : List Value) (action : Action Handle) : Prop :=
  Ensures ground.trusted (ground.Bears window []) action
    (fun cell env => ground.Bears window [] env ∧
      env.Knows ground.trusted (.cell cell)) ground.Rests

theorem finds_localCell (cell : Handle) (hosts : ground.Hosts activation)
    (inside : index.toNat < activation.varCount)
    (there : window[index.toNat]? = some (.cell cell)) :
    ground.Finds window (localCell activation index) := by
  intro env bears
  have place : activation.localPlace index env =
      (.ok (ground.lower.length + index.toNat), env) := by
    rw [Activation.localPlace, if_pos inside, hosts.base]
    rfl
  unfold localCell
  rw [action_bind_ok place, action_bind_ok (bears.slot there)]
  exact ⟨bears, bears.knows (.inr (List.mem_of_getElem? there))⟩

/-- Among trusted functions, the cells of the running closure are kept by its callee on the stack. -/
theorem finds_upvalueCell (able : ground.trusted → ∃ closure target cells,
      activation.closure = some closure ∧
        Reference.callee closure target cells ∈ ground.below ∧ index.toNat < cells) :
    ground.Finds window (upvalueCell activation index) := by
  intro env bears
  -- Without a cell there would have been no trust.
  have missing (none : ∀ closure, activation.closure = some closure → ∀ cell,
      env.heap.closureCell? closure index.toNat ≠ some (.cell cell)) : ¬ ground.trusted := by
    intro trusted
    obtain ⟨closure, target, cells, runs, callee, inside⟩ := able trusted
    have fits : (Reference.callee closure target cells).Fits
        (.typed (Offers ground.trusted env.programs)) env.heap := by
      refine Heap.Balanced.mem bears.balanced ?_
      exact List.mem_append_left _ (List.mem_append_right _ (List.mem_append_right _ callee))
    obtain ⟨kind, there, suits⟩ := fits.live closure rfl
    obtain ⟨content, found, rfl⟩ := Heap.get?_of_kind? there
    cases content with
    | closure target' captured =>
        have suits : Kind.closure target' captured.size = .closure target cells := suits
        injection suits with _ same
        subst same
        have present : captured[index.toNat]? = some captured[index.toNat] :=
          Array.getElem?_eq_getElem inside
        have proper := bears.balanced.proper _ (PoolSet.mem_contents found)
        have isCell := proper.2 _ (Array.mem_of_getElem? present)
        have told : env.heap.closureCell? closure index.toNat =
            some captured[index.toNat] := by
          rw [Heap.closureCell?, found]
          exact present
        generalize captured[index.toNat] = value at told isCell
        cases value with
        | cell block => exact none closure runs block told
        | _ => cases isCell
    | _ => cases suits
  unfold upvalueCell
  cases runs : activation.closure with
  | none =>
      refine ⟨fun trusted => absurd trusted (missing fun closure there => ?_), window, bears⟩
      rw [runs] at there
      cases there
  | some closure =>
      rw [action_bind_ok (found_some _ _), action_bind_ok (action_view _ _)]
      cases told : env.heap.closureCell? closure index.toNat with
      | none =>
          refine ⟨fun trusted => absurd trusted (missing fun other there cell => ?_), window, bears⟩
          obtain rfl : closure = other := Option.some.inj (runs.symm.trans there)
          rw [told]
          exact Option.some_ne_none _ |>.symm
      | some value =>
          cases value with
          | cell block => exact ⟨bears, bears.balanced.knowsCaptured told⟩
          | _ =>
              refine ⟨fun trusted => absurd trusted (missing fun other there cell => ?_), window,
                bears⟩
              obtain rfl : closure = other := Option.some.inj (runs.symm.trans there)
              rw [told]
              simp

/-- The value of the cell that is found is shared. -/
theorem turns_pushCellValue {action : Action Handle} (finds : ground.Finds window action)
    (room : ground.lower.length + window.length < ground.config.stackSize) :
    ground.Turns window [] (do pushCellValue (← action)) 1 := by
  unfold Turns
  rw [List.append_nil]
  refine ensures_bind finds fun cell env given => ?_
  obtain ⟨bears, knows⟩ := given
  obtain ⟨value, boxed⟩ := knows.boxed
  unfold pushCellValue
  rw [action_bind_ok (action_view _ _), boxed, action_bind_ok (found_some _ _)]
  have retained := bears.retain (bears.balanced.knowsBoxed boxed)
  obtain ⟨after, pushed, bears⟩ := returns_push room _ retained
  unfold pushShared
  rw [action_bind_ok (action_lift _ _), pushed]
  exact ⟨[value], rfl, bears⟩

/-- The cell itself is pushed, for a closure. -/
theorem ensures_pushCell {action : Action Handle} (finds : ground.Finds window action)
    (room : ground.lower.length + window.length < ground.config.stackSize) :
    Ensures ground.trusted (ground.Bears window []) (do pushShared (.cell (← action)))
      (fun _ env => ∃ cell, ground.Bears (window ++ [.cell cell]) [] env)
      ground.Rests := by
  refine ensures_bind finds fun cell env given => ?_
  obtain ⟨after, pushed, bears⟩ := returns_push room _ (given.1.retain given.2)
  unfold pushShared
  rw [action_bind_ok (action_lift _ _), pushed]
  exact ⟨cell, bears⟩

theorem turns_storeInCell {action : Action Handle} (finds : ground.Finds (window ++ [value]) action)
    (low : activation.floor ≤ ground.lower.length + window.length) :
    ground.Turns window [value] (do storeInCell activation (← action)) 1 := by
  refine ensures_bind finds fun cell env given => ?_
  refine Returns.bind (@returns_peek ground window [] value activation.floor [] low)
    (Returns.bind (returns_retain fun _ bears => bears.knows (.inr ?_)) ?_) env given.1
  · exact List.mem_append_right _ List.mem_cons_self
  · exact (ensures_onHeap [value] (fun _ => []) fun _ _ balanced => balanced.cellSet cell).weaken
      (fun _ => id) (fun _ _ bears => ⟨[value], rfl, bears⟩) fun _ bears => ⟨_, bears⟩

/-! ## Named globals -/

theorem defineGlobal_changes (name : String) (value : Value) (env : Environment) :
    ∃ globals heap, (defineGlobal name value env).2 =
      { env with globals, heap } := by
  cases known : env.globalSlot? name with
  | some slot =>
      rw [defineGlobal_known value known]
      exact ⟨_, _, rfl⟩
  | none =>
      rw [defineGlobal_new value known]
      exact ⟨_, _, rfl⟩

/-- Looking up a global leaves the accounts. -/
theorem bears_namedSlot (bears : ground.Bears window loose env) :
    ground.Bears window loose (namedSlot activation index env).2 := by
  have programs := (@confined_namedSlot 0 activation index).programs env
  have settled := @settled_namedSlot 0 activation index env (Nat.zero_le _)
  have notes := settled.notes bears.notes
  obtain ⟨units, changed⟩ := namedSlot_changes activation index env
  rw [changed] at programs notes ⊢
  refine { bears with programs := programs.trans bears.programs, notes, balanced := ?_ }
  unfold Balanced
  rw [programs]
  exact bears.balanced

/-- The slot of a named global is one that there is. -/
theorem ensures_namedSlot (inside : index.toNat < activation.program.strings.size) :
    Ensures ground.trusted (ground.Bears window loose) (namedSlot activation index)
      (fun slot env => ground.Bears window loose env ∧
        ∀ place, slot = some place → place < env.globals.size) failed := by
  intro env bears
  have kept := @bears_namedSlot env ground window activation loose index bears
  have below := fun slot => @namedSlot_inBounds env activation index slot bears.notes
  obtain ⟨units, changed⟩ := namedSlot_changes activation index env
  have succeeds : ∃ slot, (namedSlot activation index env).1 = .ok slot := by
    unfold namedSlot Program.string?
    rw [action_bind_ok (action_view _ _), Array.getElem?_eq_getElem inside]
    cases env.notedSlot? activation.unit index with
    | some slot => exact ⟨_, rfl⟩
    | none =>
        simp only
        rw [action_bind_ok (found_some _ _), action_bind_ok (action_view _ _)]
        cases env.globalSlot? _ with
        | none => exact ⟨_, rfl⟩
        | some slot => exact ⟨_, rfl⟩
  obtain ⟨slot, done⟩ := succeeds
  generalize namedSlot activation index env = outcome at kept below changed done
  obtain ⟨result, after⟩ := outcome
  subst done changed
  refine ⟨kept, fun place same => below place (congrArg _ same)⟩

/-- A global takes a loose value over, whether it is new or not. -/
theorem ensures_assignGlobal (inside : index.toNat < activation.program.strings.size) :
    Ensures ground.trusted (ground.Bears window (value :: loose)) (assignGlobal activation index value)
      (fun _ => ground.Bears window loose) (ground.Bears window loose) := by
  unfold assignGlobal
  refine ensures_bind (ensures_tryCatch (ensures_namedSlot inside) returns_release)
    fun slot env given => ?_
  obtain ⟨bears, below⟩ := given
  cases slot with
  | some place =>
      have size := Nat.le_of_eq (size_setGlobal place value env).symm
      exact { bears with
        notes := bears.notes.mono rfl size
        balanced := balanced_setGlobal (below place rfl) bears.balanced }
  | none =>
      have settled := @settled_defineGlobal 0 (nameText activation index) value env
        (Nat.zero_le _)
      have balanced := balanced_defineGlobal (nameText activation index) bears.balanced
      have notes := settled.notes bears.notes
      obtain ⟨globals, heap, changed⟩ :=
        defineGlobal_changes (nameText activation index) value env
      rw [action_lift, changed] at notes
      rw [changed] at balanced
      simp only
      rw [action_lift, changed]
      exact { bears with notes, balanced }

theorem turns_loadGlobal (inside : index.toNat < activation.program.strings.size)
    (room : ground.lower.length + window.length < ground.config.stackSize) :
    ground.Turns window [] (loadGlobal activation index) 1 := by
  unfold Turns
  rw [List.append_nil]
  refine ensures_bind (ensures_namedSlot inside) fun slot env given => ?_
  obtain ⟨bears, below⟩ := given
  cases slot with
  | none => exact ⟨fun _ => rfl, window, bears⟩
  | some place =>
      have there := Array.getElem?_eq_getElem (below place rfl)
      simp only
      rw [action_bind_ok (action_view _ _), there, action_bind_ok (found_some _ _)]
      obtain ⟨after, pushed, bears⟩ :=
        returns_push room _ (bears.retain (bears.balanced.knowsGlobal there))
      unfold pushShared
      rw [action_bind_ok (action_lift _ _), pushed]
      exact ⟨[_], rfl, bears⟩

theorem turns_storeGlobal (low : activation.floor ≤ ground.lower.length + window.length)
    (inside : index.toNat < activation.program.strings.size) :
    ground.Turns window [value] (storeGlobal activation index) 1 := by
  refine Returns.bind (@returns_peek ground window [] value activation.floor [] low)
    (Returns.bind (returns_retain fun _ bears => bears.knows (.inr ?_)) ?_)
  · exact List.mem_append_right _ List.mem_cons_self
  · exact (ensures_assignGlobal inside).weaken (fun _ => id) (fun _ _ bears => ⟨[value], rfl, bears⟩)
      fun _ bears => ⟨_, bears⟩

/-- A definition takes its value from the stack. -/
theorem turns_defineNamed (low : activation.floor ≤ ground.lower.length + window.length)
    (inside : index.toNat < activation.program.strings.size) :
    ground.Turns window [value] (defineNamed activation index) 0 := by
  refine (returns_pop low).bind ((ensures_assignGlobal inside).weaken (fun _ => id)
    (fun _ _ bears => ⟨[], rfl, ?_⟩) fun _ bears => ⟨_, bears⟩)
  rw [List.append_nil]
  exact bears

/-- To declare a global takes nothing. -/
theorem turns_declareGlobal (inside : index.toNat < activation.program.strings.size) :
    ground.Turns window [] (declareGlobal activation index) 0 := by
  unfold Turns
  rw [List.append_nil]
  refine ensures_bind (ensures_namedSlot inside) fun slot env given => ?_
  have nothing : ∀ env, ground.Bears window [] env → ∃ values : List Value,
      values.length = 0 ∧ ground.Bears (window ++ values) [] env :=
    fun env bears => ⟨[], rfl, by rw [List.append_nil]; exact bears⟩
  by_cases none : slot.isNone = true
  · rw [if_pos none]
    refine Ensures.weaken (ensures_assignGlobal inside)
      (fun _ bears => Bears.addPlain bears ⟨rfl, by simp⟩) (fun _ => nothing)
      (fun _ bears => ⟨_, bears⟩) env given.1
  · rw [if_neg none]
    exact nothing env given.1

end Ground

end Environment

end PocketScript
