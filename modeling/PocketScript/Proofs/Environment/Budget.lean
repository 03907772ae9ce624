import PocketScript.Proofs.Environment.Accounted
import PocketScript.Proofs.Environment.Entering
import PocketScript.Proofs.Heap.Fitting

/-!
# Instructions keep to the budget

Whatever instruction is executed, whether it suits the stack or not, an environment stays as small as
its configuration says (`Environment.Modest`). For the blocks of elements this needs accounts: nobody
may give up what somebody else owns. So the values on the stack are counted as references, and so are
the loose ones that an instruction has taken from it (`Environment.Solvent`). An instruction that fails
may forget some of them, and the blocks of these are never given back, but it gives up nothing that it
does not own (`Environment.Spends`).
-/

namespace PocketScript

namespace Environment

variable {α β : Type} {config : Config} {env : Environment} {loose taken given : List Reference}
  {value : Value} {failed : Environment → Prop}

/-- Everything is as small as the configuration says. -/
structure Modest (config : Config) (env : Environment) : Prop where
  configured : env.config = config
  stack : env.stack.size ≤ config.stackSize
  frames : env.frames.size ≤ config.maxCallDepth
  used : env.codeUsed = sumOver Program.footprint env.programs.toList
  code : env.codeUsed ≤ config.codeSpace
  pools : env.heap.blocks.shape = (Heap.new config.pools).blocks.shape
  fitting : env.heap.Fitting

/-- Everything is small, and the heap is balanced with the loose references, the values on the stack,
and others that may have been forgotten. -/
structure Solvent (config : Config) (loose : List Reference) (env : Environment) : Prop where
  modest : env.Modest config
  balanced : ∃ lost, env.Balanced False
    (loose ++ (env.stack.toList.map .value ++ lost))

namespace Solvent

theorem perm (solvent : env.Solvent config loose) {other : List Reference}
    (same : loose.Perm other) : env.Solvent config other := by
  obtain ⟨modest, lost, balanced⟩ := solvent
  exact ⟨modest, lost, balanced.perm (same.append_right _)⟩

/-- References may be forgotten. -/
theorem forget (solvent : env.Solvent config (taken ++ loose)) :
    env.Solvent config loose := by
  obtain ⟨modest, lost, balanced⟩ := solvent
  refine ⟨modest, taken ++ lost, balanced.perm (perm_of_count fun reference => ?_)⟩
  simp only [List.count_append]
  omega

/-- Something that leads to no block may be called known. -/
theorem knowsBlockless (blockless : value.block? = none) : env.Knows False value where
  live _ leads := absurd (blockless.symm.trans leads) (Option.some_ne_none _).symm
  function _ _ never := never.elim

theorem knows (solvent : env.Solvent config loose)
    (member : .value value ∈ loose ∨ value ∈ env.stack ∨ .value value ∈ env.kept ∨
      value.block? = none) : env.Knows False value := by
  obtain ⟨-, lost, balanced⟩ := solvent
  rcases member with here | there | kept | blockless
  · exact balanced.knows (List.mem_append_left _ here)
  · exact balanced.knows (List.mem_append_right _ (List.mem_append_left _
      (List.mem_map_of_mem (Array.mem_toList_iff.mpr there))))
  · exact Heap.Balanced.mem balanced (List.mem_append_right _ kept)
  · exact knowsBlockless blockless

/-- Only the heap is another one. -/
theorem onHeap {heap : Heap} {other : List Reference} (solvent : env.Solvent config loose)
    (refits : env.heap.Refits heap)
    (balanced : ∀ outside,
      env.heap.Balanced (.typed (Offers False env.programs)) (loose ++ outside) →
        heap.Balanced (.typed (Offers False env.programs)) (other ++ outside)) :
    { env with heap }.Solvent config other := by
  obtain ⟨modest, lost, before⟩ := solvent
  refine ⟨{ modest with pools := refits.shape.trans modest.pools, fitting := refits.fitting }, lost, ?_⟩
  unfold Balanced at before ⊢
  rw [List.append_assoc] at before ⊢
  exact balanced _ before

theorem sound (solvent : env.Solvent config loose) : env.heap.blocks.Sound := by
  obtain ⟨-, lost, balanced⟩ := solvent
  exact Heap.Balanced.sound balanced

theorem shrinks (solvent : env.Solvent config loose) {heap : Heap}
    (shrinks : PoolSet.Shrinks env.heap.blocks heap.blocks) : env.heap.Refits heap :=
  solvent.modest.fitting.refits solvent.sound shrinks

theorem retain (solvent : env.Solvent config loose) (knows : env.Knows False value) :
    (Environment.retain value env).2.Solvent config (.value value :: loose) :=
  solvent.onHeap (solvent.shrinks (Heap.shrinks_retain _ _)) fun _ balanced =>
    Heap.Balanced.retainValue balanced knows

/-- A loose reference may be released. -/
theorem release (solvent : env.Solvent config (.value value :: loose)) :
    (Environment.release value env).2.Solvent config loose :=
  solvent.onHeap (solvent.shrinks (Heap.shrinks_release _ _)) fun _ balanced =>
    Heap.Balanced.release balanced

/-- And so may several. -/
theorem releaseAll {values : List Value}
    (solvent : env.Solvent config (values.map .value ++ loose)) :
    (Environment.releaseAll values env).2.Solvent config loose := by
  refine solvent.onHeap (solvent.shrinks (Heap.shrinks_releaseAll _ _)) fun _ balanced =>
    Heap.Balanced.releaseAll ?_
  rwa [List.append_assoc] at balanced

/-- Something that leads to no block may be added. -/
theorem add (solvent : env.Solvent config loose) (blockless : value.block? = none) :
    env.Solvent config (.value value :: loose) := by
  obtain ⟨modest, lost, balanced⟩ := solvent
  exact ⟨modest, lost, Heap.Balanced.add balanced blockless (knowsBlockless blockless)⟩

/-- Values go from the stack to the loose references, or from these to the stack. -/
theorem setStack {stack : Array Value} {other : List Reference}
    (solvent : env.Solvent config loose) (size : stack.size ≤ config.stackSize)
    (same : (loose ++ env.stack.toList.map Reference.value).Perm
      (other ++ stack.toList.map Reference.value)) :
    { env with stack }.Solvent config other := by
  obtain ⟨modest, lost, balanced⟩ := solvent
  refine ⟨{ modest with stack := size }, lost, balanced.perm ?_⟩
  rw [← List.append_assoc, ← List.append_assoc]
  exact same.append_right lost

theorem setFrames (solvent : env.Solvent config loose) {frames : Array Frame}
    (size : frames.size ≤ config.maxCallDepth) :
    { env with frames }.Solvent config loose :=
  ⟨{ solvent.modest with frames := size }, solvent.balanced⟩

theorem setPosition (solvent : env.Solvent config loose) (pc : Nat) :
    (Environment.setPosition pc env).2.Solvent config loose :=
  solvent.setFrames (Nat.le_trans (Nat.le_of_eq Array.size_modify) solvent.modest.frames)

theorem noteSlot (solvent : env.Solvent config loose) (unit : Nat) (name : UInt16)
    (slot : Nat) : (Environment.noteSlot unit name slot env).2.Solvent config loose := by
  have same := programs_noteSlot unit name slot env
  obtain ⟨modest, lost, balanced⟩ := solvent
  refine ⟨{ modest with used := ?_ }, lost, ?_⟩
  · rw [same]
    exact modest.used
  · unfold Balanced at balanced ⊢
    rw [same]
    exact balanced

/-- A global takes a value over; a value for a global that is not there is forgotten. -/
theorem setGlobal (solvent : env.Solvent config (.value value :: loose)) (slot : Nat) :
    (Environment.setGlobal slot value env).2.Solvent config loose := by
  have refits := solvent.shrinks
    (Heap.shrinks_releaseAll env.heap (env.globals[slot]?.map (·.2)).toList)
  obtain ⟨modest, lost, balanced⟩ := solvent
  have modest' : (Environment.setGlobal slot value env).2.Modest config :=
    { modest with pools := refits.shape.trans modest.pools, fitting := refits.fitting }
  by_cases inside : slot < env.globals.size
  · exact ⟨modest', lost, balanced_setGlobal inside balanced⟩
  · have none : env.globals[slot]? = none := Array.getElem?_eq_none (Nat.le_of_not_lt inside)
    have same : (Environment.setGlobal slot value env).2 = env := by
      rw [setGlobal_eq, none]
      have unchanged : (env.globals.modify slot fun binding => (binding.1, value)) =
          env.globals := by
        rw [Array.modify, Array.modifyM, dif_neg inside]
        rfl
      rw [unchanged]
      rfl
    rw [same]
    exact forget (⟨modest, lost, balanced⟩ : env.Solvent config ([.value value] ++ loose))

/-- A global takes a loose reference over. -/
theorem defineGlobal (solvent : env.Solvent config (.value value :: loose)) (name : String) :
    (Environment.defineGlobal name value env).2.Solvent config loose := by
  cases known : env.globalSlot? name with
  | some slot =>
      rw [defineGlobal_known value known]
      exact solvent.setGlobal slot
  | none =>
      obtain ⟨modest, lost, balanced⟩ := solvent
      have defined := balanced_defineGlobal name balanced
      rw [defineGlobal_new value known] at defined ⊢
      exact ⟨{ modest with }, lost, defined⟩

end Solvent

/-! ## What actions spend -/

/-- The action takes references over and gives others, whatever else is loose; when it fails, it may
have forgotten what it took over. -/
def Spends (config : Config) (loose taken : List Reference) (action : Action α)
    (given : α → List Reference) : Prop :=
  Ensures False (Solvent config (taken ++ loose)) action
    (fun result => Solvent config (given result ++ loose)) (Solvent config loose)

/-- The values may be kept once more. -/
def Supplied (loose : List Reference) (values : List Value) (env : Environment) : Prop :=
  ∀ value ∈ values, .value value ∈ loose ∨ value ∈ env.stack ∨
    .value value ∈ env.kept ∨ value.block? = none

/-- What one action gives the next one may take. -/
theorem spends_bind {given : β → List Reference} {between : α → List Reference} {first : Action α}
    {next : α → Action β} (one : Spends config loose taken first between)
    (two : ∀ result, Spends config loose (between result) (next result) given) :
    Spends config loose taken (first >>= next) given :=
  ensures_bind one two

theorem spends_view {given : β → List Reference} {tell : Environment → α} {next : α → Action β}
    (rest : ∀ told, Spends config loose taken (next told) given) :
    Spends config loose taken ((view tell : Action α) >>= next) given :=
  ensures_view fun told => (rest told).weaken (fun _ holds => holds.1) (fun _ _ => id) fun _ => id

theorem spends_pure {given : α → List Reference} {result : α} (same : taken = given result) :
    Spends config loose taken (pure result : Action α) given :=
  ensures_pure fun _ solvent => same ▸ solvent

theorem spends_throw {given : α → List Reference} {fault : Fault} :
    Spends config loose taken (throw fault : Action α) given :=
  ensures_throw (fun never => never.elim) fun _ solvent => solvent.forget

theorem spends_found {found : Option α} :
    Spends config loose taken (Environment.found found) fun _ => taken := by
  cases found with
  | none => exact spends_throw
  | some result => exact spends_pure rfl

/-- A result that is not wanted gives nothing. -/
theorem spends_discard {action : Action α} (spends : Spends config loose taken action fun _ => given) :
    Spends config loose taken (discard action) fun _ => given := by
  intro env solvent
  have here := spends env solvent
  rw [action_discard]
  generalize action env = outcome at here ⊢
  obtain ⟨fault | result, after⟩ := outcome <;> exact here

theorem spends_update {update : Update Unit}
    (solvent : ∀ env, env.Solvent config (taken ++ loose) →
      (update env).2.Solvent config (given ++ loose)) :
    Spends config loose taken (liftM update : Action Unit) fun _ => given :=
  fun env holds => solvent env holds

theorem spends_release : Spends config loose [.value value] (release value : Action Unit) fun _ => [] :=
  spends_update fun _ solvent => solvent.release

theorem spends_releaseAll {values : List Value} :
    Spends config loose (values.map .value) (releaseAll values : Action Unit) fun _ => [] :=
  fun _ solvent => Solvent.releaseAll solvent

/-- A position takes no reference. -/
theorem spends_setPosition (pc : Nat) :
    Spends config loose taken (setPosition pc : Action Unit) fun _ => taken :=
  spends_update fun _ solvent => solvent.setPosition pc

/-- An operation of the heap. -/
theorem spends_onHeap {operation : Heap → Heap.Outcome α} {given : α → List Reference}
    (gives : ∀ programs heap outside,
      Heap.Balanced (.typed (Offers False programs)) heap (taken ++ outside) →
        Heap.Gives (.typed (Offers False programs)) outside given (operation heap))
    (refits : ∀ programs heap outside, heap.Fitting →
      Heap.Balanced (.typed (Offers False programs)) heap (taken ++ outside) →
        heap.Refits (operation heap).2) :
    Spends config loose taken (onHeap operation) given := by
  intro env solvent
  have told := gives env.programs env.heap
  have fits : env.heap.Refits (operation env.heap).2 := by
    obtain ⟨modest, lost, balanced⟩ := solvent
    unfold Balanced at balanced
    simp only [List.append_assoc] at balanced
    exact refits _ _ _ modest.fitting balanced
  unfold Environment.onHeap
  generalize operation env.heap = outcome at told fits
  obtain ⟨fault | result, heap⟩ := outcome
  · refine ⟨fun never => never.elim, solvent.onHeap fits fun outside balanced => ?_⟩
    rw [List.append_assoc] at balanced
    exact (told _ balanced).2
  · refine solvent.onHeap fits fun outside balanced => ?_
    rw [List.append_assoc] at balanced ⊢
    exact told _ balanced

/-- Values that are released afterwards in any case. -/
theorem spends_releasingAfter {given : α → List Reference} {values : List Value} {action : Action α}
    (inner : Spends config (values.map .value ++ loose) [] action given) :
    Spends config loose (values.map .value) (releasingAfter values action) given := by
  have released : Returns (Solvent config (values.map .value ++ loose))
      (releaseAll values : Action Unit) () (Solvent config loose) :=
    fun env solvent => ⟨_, rfl, solvent.releaseAll⟩
  refine ensures_bind (ensures_tryCatch inner released) fun result => ?_
  refine ensures_bind (fun env solvent => ?_) fun _ => spends_pure rfl
  refine Solvent.releaseAll (Solvent.perm solvent (perm_of_count fun reference => ?_))
  simp only [List.count_append]
  omega

theorem spends_releasingTwo {given : α → List Reference} {first second : Value} {action : Action α}
    (inner : Spends config (.value first :: .value second :: loose) [] action given) :
    Spends config loose [.value first, .value second] (releasingAfter [first, second] action) given :=
  @spends_releasingAfter _ config loose given [first, second] action inner

/-! ## The stack -/

theorem spends_push : Spends config loose [.value value] (push value) fun _ => [] := by
  intro env solvent
  rw [push_eq]
  by_cases room : env.stack.size < env.config.stackSize
  · rw [if_pos room]
    refine solvent.setStack ?_ (perm_of_count fun reference => ?_)
    · rw [Array.size_push, ← solvent.modest.configured]
      exact room
    · simp only [Array.toList_push, List.map_append, List.map_cons, List.map_nil, List.count_append,
        List.count_cons, List.count_nil]
      omega
  · rw [if_neg room]
    exact ⟨fun never => never.elim, solvent.release⟩

/-- What takes no block is simply pushed. -/
theorem spends_pushBlockless (blockless : value.block? = none) :
    Spends config loose [] (push value) fun _ => [] :=
  Ensures.weaken spends_push (fun _ solvent => solvent.add blockless) (fun _ _ => id) fun _ => id

/-- A known value may be retained. -/
theorem ensures_retain :
    Ensures False (fun env => env.Solvent config loose ∧
        env.Knows False value) (retain value : Action Unit)
      (fun _ => Solvent config (.value value :: loose)) failed :=
  fun _ holds => holds.1.retain holds.2

/-- And it may be shared with the stack. -/
theorem ensures_pushShared :
    Ensures False (fun env => env.Solvent config loose ∧
        env.Knows False value) (pushShared value)
      (fun _ => Solvent config loose) (Solvent config loose) :=
  ensures_bind ensures_retain fun _ => spends_push

/-- What is on the stack is still there when something is pushed. -/
theorem ensures_pushSupplied {others : List Value} :
    Ensures False (fun env => env.Solvent config loose ∧
        env.Supplied loose (value :: others)) (pushShared value)
      (fun _ env => env.Solvent config loose ∧ env.Supplied loose others)
      (Solvent config loose) := by
  intro env ⟨solvent, supplied⟩
  have pushed := ensures_pushShared env
    ⟨solvent, solvent.knows (supplied value List.mem_cons_self)⟩
  have same : ∀ result after, pushShared value env = (.ok result, after) →
      after.stack = env.stack.push value ∧ after.kept = env.kept := by
    intro result after done
    unfold pushShared at done
    rw [action_bind_ok (action_lift _ _), push_eq] at done
    split at done
    · cases done
      exact ⟨rfl, rfl⟩
    · cases done
  generalize pushShared value env = outcome at pushed same
  obtain ⟨fault | result, after⟩ := outcome
  · exact pushed
  · refine ⟨pushed, fun other member => ?_⟩
    obtain ⟨stack, kept⟩ := same result after rfl
    rw [stack, kept]
    exact (supplied other (List.mem_cons_of_mem _ member)).imp id
      (Or.imp (fun there => Array.mem_push_of_mem _ there) id)

/-- To count the operands changes nothing. -/
theorem spends_requireOperands (floor count : Nat) :
    Spends config loose taken (requireOperands floor count) fun _ => taken := by
  refine spends_view fun depth => ?_
  split
  · exact spends_throw
  · exact spends_pure rfl

/-- A value that is seen on the stack. -/
theorem ensures_slot (place : Nat) :
    Ensures False (Solvent config loose) (slot place)
      (fun value env => env.Solvent config loose ∧ value ∈ env.stack)
      (Solvent config loose) := by
  intro env solvent
  cases there : env.stack[place]? with
  | none =>
      rw [slot_eq_error there]
      exact ⟨fun never => never.elim, solvent⟩
  | some value =>
      rw [slot_eq_ok there]
      exact ⟨solvent, Array.mem_of_getElem? there⟩

theorem ensures_peek (floor below : Nat) :
    Ensures False (Solvent config loose) (peek floor below)
      (fun value env => env.Solvent config loose ∧ value ∈ env.stack)
      (Solvent config loose) := by
  intro env solvent
  obtain ⟨-, failed⟩ | ⟨value, -, there, done⟩ := peek_cases floor below env
  · rw [failed]
    exact ⟨fun never => never.elim, solvent⟩
  · rw [done]
    exact ⟨solvent, Array.mem_of_getElem? there⟩

/-- Seen on the stack, a value is known. -/
theorem ensures_seen {behind : β → Environment → Prop} {next : Value → Action β}
    {first : Action Value}
    (seen : Ensures False (Solvent config loose) first
      (fun value env => env.Solvent config loose ∧ value ∈ env.stack) failed)
    (rest : ∀ value, Ensures False (fun env => env.Solvent config loose ∧
      env.Knows False value) (next value) behind failed) :
    Ensures False (Solvent config loose) (first >>= next) behind failed :=
  ensures_bind seen fun value => (rest value).weaken
    (fun _ holds => ⟨holds.1, holds.1.knows (.inr (.inl holds.2))⟩) (fun _ _ => id) fun _ => id

/-- An operand that is taken becomes loose. -/
theorem spends_pop (floor : Nat) :
    Spends config loose taken (pop floor) fun value => .value value :: taken := by
  intro env solvent
  obtain ⟨-, failed⟩ | ⟨value, -, there, done⟩ := pop_cases floor env
  · rw [failed]
    exact ⟨fun never => never.elim, solvent.forget⟩
  · rw [done]
    have stack := solvent.modest.stack
    refine solvent.setStack ?_ (perm_of_count fun reference => ?_)
    · rw [Array.size_pop]
      omega
    · obtain ⟨below, same⟩ := Array.back?_eq_some_iff.mp there
      rw [same, Array.pop_push, Array.toList_push]
      simp only [List.map_append, List.map_cons, List.map_nil, List.cons_append, List.count_append,
        List.count_cons, List.count_nil]
      omega

/-- The stack consists of what lies below a place and what lies above. -/
theorem toList_shrink_append (stack : Array Value) (place : Nat) :
    (stack.shrink place).toList ++ (stack.extract place).toList = stack.toList := by
  rw [Array.toList_shrink, toList_extract_from, List.take_append_drop]

/-- What lies above a place is taken from the stack. -/
theorem Solvent.takeFrom (solvent : env.Solvent config loose) (place : Nat) :
    { env with stack := env.stack.shrink place }.Solvent config
      ((env.stack.extract place).toList.map Reference.value ++ loose) := by
  refine solvent.setStack ?_ (perm_of_count fun reference => ?_)
  · have stack := solvent.modest.stack
    rw [Array.size_shrink]
    omega
  · rw [← toList_shrink_append env.stack place]
    simp only [List.map_append, List.count_append]
    omega

/-- And so do several that are taken at once. -/
theorem spends_popMany (floor count : Nat) :
    Spends config loose [] (popMany floor count) fun values => values.map .value := by
  intro env solvent
  obtain ⟨-, failed⟩ | ⟨-, done⟩ := popMany_cases floor count env
  · rw [failed]
    exact ⟨fun never => never.elim, solvent⟩
  · rw [done]
    exact Solvent.takeFrom solvent _

/-- A slot takes a loose reference and gives the one it had. -/
theorem spends_replaceSlot (place : Nat) :
    Spends config loose [.value value] (replaceSlot place value) fun old => [.value old] := by
  intro env solvent
  obtain ⟨-, failed⟩ | ⟨old, there, done⟩ := replaceSlot_cases place value env
  · rw [failed]
    exact ⟨fun never => never.elim, solvent.forget⟩
  · rw [done]
    refine solvent.setStack ?_ (perm_of_count fun reference => ?_)
    · rw [Array.size_setIfInBounds]
      exact solvent.modest.stack
    · have there' : env.stack.toList[place]? = some old := by
        rw [Array.getElem?_toList, there]
      have same := ((Heap.set_perm there' value).map Reference.value).count_eq reference
      rw [Array.toList_setIfInBounds]
      simp only [List.map_cons, List.cons_append, List.nil_append, List.count_append,
        List.count_cons] at same ⊢
      omega

/-! ## Variables -/

variable {activation : Activation} {index : UInt16}

theorem spends_localPlace :
    Spends config loose taken (activation.localPlace index) fun _ => taken := by
  unfold Activation.localPlace
  split
  · exact spends_pure rfl
  · exact spends_throw

theorem ensures_localCell :
    Ensures False (Solvent config loose) (localCell activation index)
      (fun block env => env.Solvent config loose ∧
        env.Knows False (.cell block)) (Solvent config loose) := by
  refine ensures_bind (@spends_localPlace config loose [] activation index) fun place => ?_
  refine ensures_seen (ensures_slot place) fun value => ?_
  split
  · exact ensures_pure fun _ => id
  · exact ensures_throw (fun never => never.elim) fun _ holds => holds.1

theorem ensures_upvalueCell :
    Ensures False (Solvent config loose) (upvalueCell activation index)
      (fun block env => env.Solvent config loose ∧
        env.Knows False (.cell block)) (Solvent config loose) := by
  refine ensures_bind (@spends_found _ config loose [] activation.closure) fun closure => ?_
  refine ensures_view fun told => ?_
  split
  · refine ensures_pure fun env holds => ⟨holds.1, ?_⟩
    obtain ⟨⟨-, lost, balanced⟩, captured⟩ := holds
    exact balanced.knowsCaptured captured
  · exact ensures_throw (fun never => never.elim) fun _ holds => holds.1

/-- What a cell holds is known and may be shared. -/
theorem spends_pushCellValue (cell : Handle) :
    Spends config loose [] (pushCellValue cell) fun _ => [] := by
  refine ensures_view fun told => ?_
  cases told with
  | none => exact ensures_throw (fun never => never.elim) fun _ holds => holds.1
  | some value =>
      refine Ensures.weaken ensures_pushShared (fun env holds => ⟨holds.1, ?_⟩)
        (fun _ _ => id) fun _ => id
      obtain ⟨⟨-, lost, balanced⟩, boxed⟩ := holds
      exact balanced.knowsBoxed boxed

theorem spends_storeInCell (cell : Handle) :
    Spends config loose [] (storeInCell activation cell) fun _ => [] := by
  refine ensures_seen (ensures_peek _ 0) fun value => ensures_bind ensures_retain fun _ => ?_
  exact @spends_onHeap _ config loose [.value value] _ (fun _ => [])
    (fun _ _ _ balanced => balanced.cellSet cell)
    fun _ _ _ fitting balanced => fitting.cellSet balanced.sound cell value

theorem spends_storeLocal : Spends config loose [] (storeLocal activation index) fun _ => [] := by
  refine spends_bind spends_localPlace fun place => ?_
  refine ensures_seen (ensures_peek _ 0) fun value => ensures_bind ensures_retain fun _ => ?_
  exact ensures_bind (spends_replaceSlot place) fun old => spends_release

/-- The value of a slot is loose while its cell is made. -/
theorem spends_makeCell : Spends config loose [] (makeCell activation index) fun _ => [] := by
  refine spends_bind spends_localPlace fun place => ?_
  refine spends_bind (Ensures.weaken (spends_replaceSlot place) (fun _ solvent => solvent.add rfl)
    (fun _ _ => id) fun _ => id) fun value => ?_
  refine spends_bind (spends_onHeap (fun _ _ _ balanced => Heap.Balanced.allocCell balanced)
    fun _ _ _ fitting balanced => fitting.allocCell balanced.sound value) fun cell => ?_
  refine spends_discard (Ensures.weaken (spends_replaceSlot place) (fun _ => id)
    (fun old _ solvent => ?_) fun _ => id)
  exact Solvent.forget solvent

/-! ## Globals -/

theorem spends_namedSlot : Spends config loose taken (namedSlot activation index) fun _ => taken := by
  refine spends_view fun noted => ?_
  split
  · exact spends_pure rfl
  · refine spends_bind spends_found fun text => spends_view fun slot => ?_
    split
    · exact spends_pure rfl
    · exact spends_bind (spends_update fun _ solvent => solvent.noteSlot _ _ _) fun _ => spends_pure rfl

theorem spends_assignGlobal :
    Spends config loose [.value value] (assignGlobal activation index value) fun _ => [] := by
  have released : Returns (Solvent config (.value value :: loose)) (release value : Action Unit) ()
      (Solvent config loose) := fun env solvent => ⟨_, rfl, solvent.release⟩
  have named : Spends config (.value value :: loose) [] (namedSlot activation index) fun _ => [] :=
    spends_namedSlot
  refine ensures_bind (ensures_tryCatch named released) fun slot => ?_
  split
  · exact fun _ solvent => Solvent.setGlobal solvent _
  · exact fun _ solvent => Solvent.defineGlobal solvent _

/-- The value of a global is known and may be shared. -/
theorem spends_loadGlobal : Spends config loose [] (loadGlobal activation index) fun _ => [] := by
  refine spends_bind spends_namedSlot fun slot => ?_
  split
  · exact spends_throw
  · refine ensures_view fun told => ?_
    cases told with
    | none => exact ensures_throw (fun never => never.elim) fun _ holds => holds.1
    | some binding =>
        refine Ensures.weaken ensures_pushShared (fun env holds => ⟨holds.1, ?_⟩)
          (fun _ _ => id) fun _ => id
        obtain ⟨⟨-, lost, balanced⟩, there⟩ := holds
        exact balanced.knowsGlobal there

theorem spends_storeGlobal : Spends config loose [] (storeGlobal activation index) fun _ => [] :=
  ensures_seen (ensures_peek _ 0) fun _ => ensures_bind ensures_retain fun _ => spends_assignGlobal

theorem spends_defineNamed : Spends config loose [] (defineNamed activation index) fun _ => [] :=
  spends_bind (spends_pop _) fun _ => spends_assignGlobal

theorem spends_declareGlobal : Spends config loose [] (declareGlobal activation index) fun _ => [] := by
  refine spends_bind spends_namedSlot fun slot => ?_
  split
  · exact Ensures.weaken spends_assignGlobal (fun _ solvent => solvent.add rfl) (fun _ _ => id)
      fun _ => id
  · exact spends_pure rfl

/-! ## Literals -/

/-- A number takes no block. -/
theorem spends_pushNumber : Spends config loose [] (pushNumber activation index) fun _ => [] :=
  spends_bind spends_found fun number => spends_pushBlockless (plain_ofNumber number).block

/-- Nor does a string constant. -/
theorem spends_pushString : Spends config loose [] (pushString activation index) fun _ => [] :=
  spends_bind (spends_discard spends_found) fun _ => spends_pushBlockless rfl

theorem spends_pushFunction : Spends config loose [] (pushFunction activation index) fun _ => [] :=
  spends_bind (spends_discard spends_found) fun _ => spends_pushBlockless rfl

theorem spends_makeClosure (count : UInt16) :
    Spends config loose [] (makeClosure activation index count) fun _ => [] := by
  refine spends_bind (spends_discard spends_found) fun _ => ?_
  refine spends_bind (spends_popMany _ _) fun cells => ?_
  split
  · rename_i boxes
    refine spends_bind (spends_onHeap (fun _ _ _ balanced => ?_) fun _ _ _ fitting balanced =>
      fitting.allocClosure balanced.sound _ _) fun closure => spends_push
    refine Heap.Balanced.allocClosure balanced (fun never => never.elim) fun cell member => ?_
    exact List.all_eq_true.mp boxes cell (by simpa using member)
  · exact spends_bind spends_releaseAll fun _ => spends_throw

/-- The elements are owned by the new array. -/
theorem spends_makeArray (count : UInt16) :
    Spends config loose [] (makeArray activation count) fun _ => [] := by
  refine spends_bind (spends_popMany _ _) fun items => ?_
  refine spends_bind (spends_onHeap (fun _ _ _ balanced => Heap.Balanced.allocArray balanced)
    fun _ _ _ fitting balanced => ?_) fun array => spends_push
  exact Heap.Fitting.allocArray fitting balanced

/-- Keys and values are released, or forgotten when there is one without the other. -/
theorem Solvent.releaseUnkeyed : ∀ {values : List Value} {env : Environment},
    env.Solvent config (values.map .value ++ loose) →
      (takeProperties.releaseUnkeyed values env).2.Solvent config loose
  | [], _, solvent => solvent
  | [_], _, solvent => Solvent.forget solvent
  | key :: value :: rest, env, solvent => by
      have swapped : env.Solvent config
          (.value value :: .value key :: (rest.map .value ++ loose)) :=
        solvent.perm (List.Perm.swap _ _ _)
      exact @Solvent.releaseUnkeyed rest _ swapped.release.release

/-- What properties own. -/
def valuesOf (properties : Array (String × Value)) : List Reference :=
  (properties.toList.map (·.2)).map .value

/-- The keys are released, and the values become properties; otherwise all are released. -/
theorem Solvent.takeProperties : ∀ {values : List Value} {properties : Array (String × Value)}
    {env : Environment},
    env.Solvent config (values.map .value ++ (valuesOf properties ++ loose)) →
      (Environment.takeProperties properties values env).2.Solvent config
        (((Environment.takeProperties properties values env).1.map valuesOf).getD [] ++ loose)
  | [], _, _, solvent => solvent
  | [_], _, _, solvent => Solvent.forget solvent
  | key :: value :: rest, properties, env, solvent => by
      unfold Environment.takeProperties
      rw [update_bind, update_view]
      simp only
      cases env.string? key with
      | some name =>
          have left : (Environment.release key env).2.Solvent config
              (.value value :: (rest.map .value ++ (valuesOf properties ++ loose))) :=
            Solvent.release solvent
          refine @Solvent.takeProperties rest (properties.push (name, value)) _
            (left.perm (perm_of_count fun reference => ?_))
          simp only [valuesOf, Array.toList_push, List.map_append, List.map_cons, List.map_nil,
            List.count_append, List.count_cons, List.count_nil]
          omega
      | none =>
          exact Solvent.releaseAll (@Solvent.releaseUnkeyed _ _ (key :: value :: rest) _ solvent)

theorem spends_makeObject (count : UInt16) :
    Spends config loose [] (makeObject activation count) fun _ => [] := by
  refine spends_bind (spends_popMany _ _) fun values => ?_
  have taken : Spends config loose (values.map .value)
      (Environment.takeProperties #[] values : Action _) fun properties =>
        (properties.map valuesOf).getD [] :=
    fun env solvent => Solvent.takeProperties solvent
  refine spends_bind taken fun properties => ?_
  cases properties with
  | none => exact spends_throw
  | some properties =>
      refine spends_bind (spends_onHeap (fun _ _ _ balanced => Heap.Balanced.allocObject balanced)
        fun _ _ _ fitting balanced => ?_) fun object => spends_push
      exact Heap.Fitting.allocObject fitting balanced

/-! ## Operators and elements -/

/-- A new string is a loose reference. -/
theorem spends_allocString (text : String) :
    Spends config loose [] (Environment.onHeap (·.allocString text)) fun value => [.value value] :=
  spends_onHeap (fun _ _ _ balanced => balanced.allocString text)
    fun _ _ _ fitting balanced => fitting.allocString balanced.sound text

/-- A result that takes no block. -/
theorem spends_returnBlockless (blockless : value.block? = none) :
    Spends config loose [] (pure value : Action Value) fun value => [.value value] :=
  ensures_pure fun _ solvent => solvent.add blockless

theorem spends_applyBinary (op : BinaryOp) (left right : Value) :
    Spends config loose [] (applyBinary op left right) fun value => [.value value] := by
  have values : Spends config loose [] (pure (op.onValues left right) : Action Value)
      fun value => [.value value] := spends_returnBlockless (plain_onValues op left right).block
  unfold applyBinary
  cases op with
  | add =>
      dsimp only
      split
      · exact spends_view fun text => spends_allocString text
      · exact values
  | eq | ne | lt | le | gt | ge => exact spends_view fun _ => spends_returnBlockless rfl
  | _ => exact values

theorem spends_elementIndex (key : Value) :
    Spends config loose taken (elementIndex key) fun _ => taken := by
  unfold elementIndex
  split
  · exact spends_pure rfl
  · exact spends_throw

theorem spends_propertyKey (key : Value) :
    Spends config loose taken (propertyKey key) fun _ => taken := by
  refine spends_view fun name => ?_
  split
  · exact spends_pure rfl
  · exact spends_throw

/-- A length leads to no block. -/
theorem spends_lengthOr (key : Value) (length : Environment → Nat) :
    Spends config loose [] (lengthOr key length) fun value => [.value value] := by
  refine spends_view fun name => ?_
  split
  · exact spends_view fun count => spends_returnBlockless rfl
  · exact spends_returnBlockless rfl

/-- A new reference to what was found. -/
theorem ensures_readElement (found : Option Value) :
    Ensures False (fun env => env.Solvent config loose ∧
        ∀ value, found = some value → env.Knows False value) (readElement found)
      (fun value => Solvent config (.value value :: loose)) (Solvent config loose) := by
  refine ensures_bind (Ensures.weaken ensures_retain (fun env holds => ⟨holds.1, ?_⟩)
    (fun _ _ => id) fun _ => id) fun _ => ensures_pure fun _ => id
  cases found with
  | none => exact Solvent.knowsBlockless rfl
  | some value => exact holds.2 value rfl

/-- A character is a new string. -/
theorem spends_character (container key : Value) :
    Spends config loose [] (character container key) fun value => [.value value] := by
  unfold character
  split
  · exact spends_lengthOr key _
  · refine spends_bind (spends_elementIndex key) fun index => spends_view fun text => ?_
    split
    · exact spends_allocString _
    · exact spends_returnBlockless rfl

/-- An element is retained before its container is released. -/
theorem spends_getElement (container key : Value) :
    Spends config loose [] (getElement container key) fun value => [.value value] := by
  cases container with
  | array block =>
      unfold getElement
      dsimp only
      split
      · exact spends_lengthOr key _
      · refine spends_bind (spends_elementIndex key) fun index => ensures_view fun found => ?_
        refine (ensures_readElement found).weaken (fun env holds => ⟨holds.1, ?_⟩)
          (fun _ _ => id) fun _ => id
        rintro value rfl
        obtain ⟨⟨-, lost, balanced⟩, there⟩ := holds
        exact balanced.knowsItem there
  | object block =>
      refine spends_bind (spends_propertyKey key) fun name => ensures_view fun found => ?_
      refine (ensures_readElement found).weaken (fun env holds => ⟨holds.1, ?_⟩)
        (fun _ _ => id) fun _ => id
      rintro value rfl
      obtain ⟨⟨-, lost, balanced⟩, there⟩ := holds
      exact balanced.knowsProperty there
  | constant | string | foreign =>
      rw [getElement_of_isString rfl]
      exact spends_character _ key
  | _ => exact spends_throw

/-- What is stored counts once more. -/
theorem spends_setElement {container key : Value} (member : .value value ∈ loose) :
    Spends config loose [] (setElement container key value) fun _ => [] := by
  have retained : Spends config loose [] (retain value : Action Unit) fun _ => [.value value] :=
    spends_update fun _ solvent => Solvent.retain solvent (Solvent.knows solvent (.inl member))
  unfold setElement
  cases container with
  | array block =>
      refine spends_bind (spends_elementIndex key) fun index => spends_bind retained fun _ => ?_
      exact spends_onHeap (fun _ _ _ balanced => balanced.arraySet block index)
        fun _ _ _ fitting balanced => fitting.arraySet balanced block index
  | object block =>
      refine spends_bind (spends_propertyKey key) fun name => spends_bind retained fun _ => ?_
      exact spends_onHeap (fun _ _ _ balanced => balanced.objectSet block name)
        fun _ _ _ fitting balanced => fitting.objectSet balanced block name
  | _ => exact spends_throw

/-- A unary operation takes its operand. -/
theorem spends_unary (op : UnaryOp) :
    Spends config loose [] (unary activation op) fun _ => [] := by
  refine spends_bind (spends_pop _) fun value => ensures_view fun result => ?_
  have released : Ensures False (fun env =>
      env.Solvent config ([.value value] ++ loose) ∧ env.applyUnary op value = result)
      (release value : Action Unit) (fun _ env => env.Solvent config loose ∧
        result.block? = none) (Solvent config loose) := by
    rintro env ⟨solvent, rfl⟩
    exact ⟨solvent.release, (plain_applyUnary env op value).block⟩
  refine ensures_bind released fun _ env holds => ?_
  exact spends_pushBlockless holds.2 env holds.1

theorem spends_binary (op : BinaryOp) :
    Spends config loose [] (binary activation op) fun _ => [] := by
  refine spends_bind (spends_pop _) fun right => spends_bind (spends_pop _) fun left => ?_
  exact spends_bind (spends_releasingTwo (spends_applyBinary op left right)) fun _ => spends_push

theorem spends_pushElement : Spends config loose [] (pushElement activation) fun _ => [] := by
  refine spends_bind (spends_pop _) fun key => spends_bind (spends_pop _) fun container => ?_
  exact spends_bind (spends_releasingTwo (spends_getElement container key)) fun _ => spends_push

theorem spends_storeElement : Spends config loose [] (storeElement activation) fun _ => [] := by
  refine spends_bind (spends_pop _) fun value => spends_bind (spends_pop _) fun key =>
    spends_bind (spends_pop _) fun container => ?_
  have stored : Spends config (.value value :: loose) [.value container, .value key]
      (releasingAfter [container, key] (setElement container key value)) fun _ => [] :=
    spends_releasingTwo (spends_setElement (by simp))
  have released : Returns (Solvent config (.value value :: loose)) (release value : Action Unit) ()
      (Solvent config loose) := fun env solvent => ⟨_, rfl, solvent.release⟩
  exact ensures_bind (ensures_tryCatch stored released) fun _ => spends_push

theorem spends_jumpIf (wanted : Bool) (target : Nat) :
    Spends config loose [] (jumpIf activation wanted target) fun _ => [] := by
  refine spends_bind (spends_pop _) fun value => spends_view fun truthy => ?_
  refine spends_bind spends_release fun _ => ?_
  split
  · exact spends_setPosition target
  · exact spends_pure rfl

theorem spends_jumpOrPop (wanted : Bool) (target : Nat) :
    Spends config loose [] (jumpOrPop activation wanted target) fun _ => [] := by
  refine ensures_seen (ensures_peek _ 0) fun value => ?_
  refine Ensures.weaken (spends_view fun truthy => ?_) (fun _ holds => holds.1) (fun _ _ => id)
    fun _ => id
  split
  · exact spends_setPosition target
  · exact spends_bind (spends_pop _) fun value => spends_release

/-! ## The end of a function -/

theorem Solvent.dropped (solvent : env.Solvent config loose) (place : Nat) :
    (env.dropped place).Solvent config loose :=
  (solvent.takeFrom place).releaseAll

theorem spends_leaveFunction (base : Nat) :
    Spends config loose [.value value] (leaveFunction base value) fun _ => [] := by
  intro env solvent
  rw [leaveFunction_eq]
  refine spends_push _ (Solvent.setFrames (Solvent.dropped solvent (base - 1)) ?_)
  have frames := solvent.modest.frames
  rw [Array.size_pop]
  omega

/-! ## All instructions -/

/-- No instruction gives up what it does not own. -/
theorem spends_execute (activation : Activation) (instr : Instruction) :
    Spends config loose [] (execute activation instr) fun _ => [] := by
  obtain ⟨op, a, b⟩ := instr
  cases op with
  | nop => exact spends_pure rfl
  | pushUndefined | pushNaN | pushTrue | pushFalse | pushZero | pushInt =>
      exact spends_pushBlockless rfl
  | pushNumber => exact spends_pushNumber
  | pushString => exact spends_pushString
  | pushFunction => exact spends_pushFunction
  | makeClosure => exact spends_makeClosure b
  | makeArray => exact spends_makeArray a
  | makeObject => exact spends_makeObject a
  | pop => exact spends_bind (spends_pop _) fun value => spends_release
  | dup => exact ensures_seen (ensures_peek _ 0) fun value => ensures_pushShared
  | dup2 =>
      refine ensures_bind (ensures_peek _ 1) fun first => ?_
      intro env ⟨solvent, here⟩
      obtain ⟨-, failed⟩ | ⟨second, -, there, done⟩ := peek_cases activation.floor 0 env
      · rw [action_bind_error failed]
        exact ⟨fun never => never.elim, solvent⟩
      · rw [action_bind_ok done]
        have supplied : env.Supplied loose [first, second] := by
          intro value member
          rcases List.mem_cons.mp member with rfl | last
          · exact .inr (.inl here)
          · obtain rfl := List.mem_singleton.mp last
            exact .inr (.inl (Array.mem_of_getElem? there))
        exact ensures_bind ensures_pushSupplied (fun _ => Ensures.weaken ensures_pushSupplied
          (fun _ => id) (fun _ _ holds => holds.1) fun _ => id) env ⟨solvent, supplied⟩
  | loadLocal =>
      exact spends_bind spends_localPlace fun place =>
        ensures_seen (ensures_slot place) fun value => ensures_pushShared
  | storeLocal => exact spends_storeLocal
  | loadCell =>
      exact ensures_bind (Ensures.weaken ensures_localCell (fun _ => id) (fun _ _ holds => holds.1)
        fun _ => id) fun cell => spends_pushCellValue cell
  | storeCell =>
      exact ensures_bind (Ensures.weaken ensures_localCell (fun _ => id) (fun _ _ holds => holds.1)
        fun _ => id) fun cell => spends_storeInCell cell
  | makeCell => exact spends_makeCell
  | pushCell => exact ensures_bind ensures_localCell fun cell => ensures_pushShared
  | loadUpvalue =>
      exact ensures_bind (Ensures.weaken ensures_upvalueCell (fun _ => id) (fun _ _ holds => holds.1)
        fun _ => id) fun cell => spends_pushCellValue cell
  | storeUpvalue =>
      exact ensures_bind (Ensures.weaken ensures_upvalueCell (fun _ => id) (fun _ _ holds => holds.1)
        fun _ => id) fun cell => spends_storeInCell cell
  | pushUpvalue => exact ensures_bind ensures_upvalueCell fun cell => ensures_pushShared
  | loadGlobal => exact spends_loadGlobal
  | storeGlobal => exact spends_storeGlobal
  | defineGlobal => exact spends_defineNamed
  | declareGlobal => exact spends_declareGlobal
  | getElem => exact spends_pushElement
  | setElem => exact spends_storeElement
  | neg => exact spends_unary .neg
  | not => exact spends_unary .not
  | bitNot => exact spends_unary .bitNot
  | add => exact spends_binary .add
  | sub => exact spends_binary .sub
  | mul => exact spends_binary .mul
  | div => exact spends_binary .div
  | mod => exact spends_binary .mod
  | bitAnd => exact spends_binary .bitAnd
  | bitOr => exact spends_binary .bitOr
  | bitXor => exact spends_binary .bitXor
  | shl => exact spends_binary .shl
  | shr => exact spends_binary .shr
  | eq => exact spends_binary .eq
  | ne => exact spends_binary .ne
  | lt => exact spends_binary .lt
  | le => exact spends_binary .le
  | gt => exact spends_binary .gt
  | ge => exact spends_binary .ge
  | jump => exact spends_setPosition _
  | jumpIfFalse => exact spends_jumpIf false _
  | jumpIfTrue => exact spends_jumpIf true _
  | jumpIfFalseOrPop => exact spends_jumpOrPop false _
  | jumpIfTrueOrPop => exact spends_jumpOrPop true _
  | call => exact spends_requireOperands _ _
  | ret => exact spends_bind (spends_pop _) fun value => spends_leaveFunction _
  | retUndefined =>
      exact Ensures.weaken (spends_leaveFunction _) (fun _ solvent => solvent.add rfl)
        (fun _ _ => id) fun _ => id

theorem spends_fetch : Spends config loose [] fetch fun _ => [] := by
  refine spends_view fun last => spends_bind spends_found fun frame => spends_view fun program => ?_
  refine spends_bind spends_found fun program => spends_bind spends_found fun function => ?_
  split
  · exact spends_throw
  · exact spends_bind (spends_setPosition _) fun _ => spends_pure rfl

/-- The next instruction, whatever it is. -/
theorem spends_executeNext : Spends config loose [] executeNext fun _ => [] :=
  spends_bind spends_fetch fun _ => spends_bind (spends_execute _ _) fun _ => spends_pure rfl

end Environment

end PocketScript
