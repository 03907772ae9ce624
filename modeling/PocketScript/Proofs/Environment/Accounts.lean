import PocketScript.Proofs.Code.Verified
import PocketScript.Proofs.Environment.Continuing
import PocketScript.Proofs.Heap.Storing

/-!
# The accounts of a running function

An environment is balanced with the references that the globals and the timers keep, and with those
from outside: the values on the stack, and the ones that an instruction has taken from it and not yet
released. A running function finds its variables and operands on top of a part of the stack that it
leaves alone (`Environment.Ground.Bears`); what each access to the stack does with them and with the
loose values is said in the form of a triple (`Environment.Ensures`), which also says that a failure
is an ordinary one.
-/

namespace PocketScript

/-- What a timer owns. -/
def Timer.references (timer : Timer) : List Reference :=
  [.value timer.callback, .value timer.param, .timer timer.block]

/-- The functions of loaded programs, with as many captured variables as they use. When the functions
that values refer to are not trusted to be there, any may be called. -/
def Offers (trusted : Prop) (programs : Array Program) : Callable := fun target cells =>
  trusted → ∃ program function, programs[target.unit]? = some program ∧
    program.function? target.index = some function ∧ function.UsesBelow cells

namespace Environment

variable {α β : Type} {trusted : Prop} {env after : Environment} {outside : List Reference}

/-- What an environment keeps apart from the values on its stack. -/
def kept (env : Environment) : List Reference :=
  (env.globals.toList.map (·.2)).map .value ++
    env.timers.timers.flatMap Timer.references

/-- The heap is balanced with what the environment keeps and with further references. -/
def Balanced (env : Environment) (trusted : Prop) (outside : List Reference) : Prop :=
  env.heap.Balanced (.typed (Offers trusted env.programs))
    (outside ++ env.kept)

/-- A value leads to a block of its kind, or to a function that may be called. -/
def Knows (env : Environment) (trusted : Prop) (value : Value) : Prop :=
  (Reference.value value).Fits (.typed (Offers trusted env.programs)) env.heap

theorem Balanced.perm (balanced : env.Balanced trusted outside) {other : List Reference}
    (same : outside.Perm other) : env.Balanced trusted other :=
  Heap.Balanced.perm balanced (same.append_right _)

theorem Balanced.knows (balanced : env.Balanced trusted outside) {value : Value}
    (member : .value value ∈ outside) : env.Knows trusted value :=
  Heap.Balanced.mem balanced (List.mem_append_left _ member)

theorem Balanced.knowsGlobal (balanced : env.Balanced trusted outside) {slot : Nat}
    {binding : String × Value} (found : env.globals[slot]? = some binding) :
    env.Knows trusted binding.2 := by
  refine Heap.Balanced.mem balanced (List.mem_append_right _ (List.mem_append_left _ ?_))
  refine List.mem_map_of_mem (List.mem_map_of_mem ?_)
  exact Array.mem_toList_iff.mpr (Array.mem_of_getElem? found)

/-- What a block holds is known. -/
theorem Balanced.knowsHeld (balanced : env.Balanced trusted outside) {block : Handle}
    {content : Content} (found : env.heap.get? block = some content) {value : Value}
    (member : value ∈ content.heldReversed) : env.Knows trusted value := by
  refine Heap.Balanced.fits balanced _ (List.mem_append_left _ (List.mem_flatMap.mpr ?_))
  exact ⟨content, PoolSet.mem_contents found,
    List.mem_append_right _ (List.mem_map_of_mem member)⟩

/-- A property of an object is known. -/
theorem Balanced.knowsProperty (balanced : env.Balanced trusted outside) {block : Handle}
    {key : String} {value : Value} (found : env.heap.objectGet? block key = some value) :
    env.Knows trusted value := by
  unfold Heap.objectGet? Heap.objectProperties? at found
  split at found
  · rename_i properties _ _ there
    refine balanced.knowsHeld there (List.mem_reverse.mpr ?_)
    simp only [bind, Option.bind_some, Option.bind_eq_some_iff, pure, Option.some.injEq] at found
    obtain ⟨property, member, rfl⟩ := found
    exact List.mem_map_of_mem (Array.mem_toList_iff.mpr (Array.mem_of_find?_eq_some member))
  · cases found

/-- An item of an array is known. -/
theorem Balanced.knowsItem (balanced : env.Balanced trusted outside) {block : Handle}
    {index : Nat} {value : Value} (found : env.heap.arrayGet? block index = some value) :
    env.Knows trusted value := by
  unfold Heap.arrayGet? Heap.arrayItems? at found
  split at found
  · rename_i there
    exact balanced.knowsHeld there
      (List.mem_reverse.mpr (Array.mem_toList_iff.mpr (Array.mem_of_getElem? found)))
  · cases found

/-- The value in a cell is known. -/
theorem Balanced.knowsBoxed (balanced : env.Balanced trusted outside) {block : Handle}
    {value : Value} (found : env.heap.cellGet? block = some value) :
    env.Knows trusted value := by
  unfold Heap.cellGet? at found
  split at found
  · rename_i there
    injection found with same
    subst same
    exact balanced.knowsHeld there List.mem_cons_self
  · cases found

/-- What a closure has captured is known. -/
theorem Balanced.knowsCaptured (balanced : env.Balanced trusted outside) {block : Handle}
    {index : Nat} {value : Value} (found : env.heap.closureCell? block index = some value) :
    env.Knows trusted value := by
  unfold Heap.closureCell? at found
  split at found
  · rename_i there
    exact balanced.knowsHeld there
      (List.mem_reverse.mpr (Array.mem_toList_iff.mpr (Array.mem_of_getElem? found)))
  · cases found

/-- In the block of a cell there is a value. -/
theorem Knows.boxed {block : Handle} (knows : env.Knows trusted (.cell block)) :
    ∃ value, env.heap.cellGet? block = some value := by
  obtain ⟨kind, there, suits⟩ := knows.live block rfl
  obtain ⟨content, found, rfl⟩ := Heap.get?_of_kind? there
  cases content with
  | cell value => exact ⟨value, by rw [Heap.cellGet?, found]⟩
  | _ => cases suits

/-! ## Triples -/

/-- From an environment as described before, an action comes to an environment as described for its
result, or to a fault and an environment as described for failures. Among trusted functions the fault
is an ordinary one. -/
def Ensures (trusted : Prop) (before : Environment → Prop) (action : Action α)
    (behind : α → Environment → Prop) (failed : Environment → Prop) : Prop :=
  ∀ env, before env →
    match action env with
    | (.ok result, after) => behind result after
    | (.error fault, after) => (trusted → fault.isOrdinary = true) ∧ failed after

/-- An action succeeds with a certain result. -/
def Returns (before : Environment → Prop) (action : Action α) (result : α)
    (behind : Environment → Prop) : Prop :=
  ∀ env, before env →
    ∃ after, action env = (.ok result, after) ∧ behind after

variable {before middle last failed failed' : Environment → Prop} {behind : β → Environment → Prop}

/-- What one action ensures the next one may rely on. -/
theorem ensures_bind {between : α → Environment → Prop} {first : Action α} {next : α → Action β}
    (one : Ensures trusted before first between failed)
    (two : ∀ result, Ensures trusted (between result) (next result) behind failed) :
    Ensures trusted before (first >>= next) behind failed := by
  intro env holds
  have here := one env holds
  rw [action_bind]
  generalize first env = outcome at here
  obtain ⟨fault | result, after⟩ := outcome
  · exact here
  · exact two result after here

theorem Returns.bind {first : Action α} {next : α → Action β} {result : α}
    (one : Returns before first result middle)
    (two : Ensures trusted middle (next result) behind failed) :
    Ensures trusted before (first >>= next) behind failed := by
  intro env holds
  obtain ⟨after, done, here⟩ := one env holds
  rw [action_bind_ok done]
  exact two after here

theorem Returns.then {first : Action α} {next : α → Action β} {result : α} {value : β}
    (one : Returns before first result middle) (two : Returns middle (next result) value last) :
    Returns before (first >>= next) value last := by
  intro env holds
  obtain ⟨after, done, here⟩ := one env holds
  rw [action_bind_ok done]
  exact two after here

/-- What returns ensures what it leaves. -/
theorem Returns.ensures {action : Action β} {result : β}
    (returns : Returns before action result (behind result)) :
    Ensures trusted before action behind failed := by
  intro env holds
  obtain ⟨after, done, here⟩ := returns env holds
  rw [done]
  exact here

theorem Returns.weaken {before' behind' : Environment → Prop} {action : Action α} {result : α}
    (returns : Returns before' action result behind')
    (stronger : ∀ env, before env → before' env)
    (weaker : ∀ env, behind' env → middle env) :
    Returns before action result middle := by
  intro env holds
  obtain ⟨after, done, here⟩ := returns env (stronger env holds)
  exact ⟨after, done, weaker after here⟩

theorem Ensures.weaken {before' : Environment → Prop} {behind' : β → Environment → Prop}
    {action : Action β} (ensures : Ensures trusted before' action behind' failed')
    (stronger : ∀ env, before env → before' env)
    (weaker : ∀ result env, behind' result env → behind result env)
    (failing : ∀ env, failed' env → failed env) :
    Ensures trusted before action behind failed := by
  intro env holds
  have here := ensures env (stronger env holds)
  generalize action env = outcome at here ⊢
  obtain ⟨fault | result, after⟩ := outcome
  · exact ⟨here.1, failing after here.2⟩
  · exact weaker result after here

theorem ensures_pure {result : β} (holds : ∀ env, before env →
    behind result env) : Ensures trusted before (pure result : Action β) behind failed := holds

theorem ensures_throw {fault : Fault} (ordinary : trusted → fault.isOrdinary = true)
    (holds : ∀ env, before env → failed env) :
    Ensures trusted before (throw fault : Action β) behind failed :=
  fun env given => ⟨ordinary, holds env given⟩

/-- A look at the environment. -/
theorem ensures_view {tell : Environment → α} {next : α → Action β}
    (rest : ∀ told, Ensures trusted (fun env => before env ∧ tell env = told)
      (next told) behind failed) :
    Ensures trusted before ((view tell : Action α) >>= next) behind failed :=
  fun env holds => rest _ env ⟨holds, rfl⟩

/-- What is known of each result of an action. -/
theorem Ensures.with (fact : β → Prop) {action : Action β}
    (ensures : Ensures trusted before action behind failed)
    (known : ∀ env result after, action env = (.ok result, after) → fact result) :
    Ensures trusted before action (fun result env => fact result ∧ behind result env)
      failed := by
  intro env holds
  have here := ensures env holds
  have told := known env
  generalize action env = outcome at here told ⊢
  obtain ⟨fault | result, after⟩ := outcome
  · exact here
  · exact ⟨told result after rfl, here⟩

/-- When an action fails, what it has not dealt with is dealt with before the fault is passed on. -/
theorem ensures_tryCatch {first : Action β} {handle : Action Unit}
    (one : Ensures trusted before first behind middle) (two : Returns middle handle () failed) :
    Ensures trusted before (tryCatch first fun fault => do
      handle
      throw fault : Action β) behind failed := by
  intro env holds
  have here := one env holds
  rw [action_tryCatch]
  generalize first env = outcome at here
  obtain ⟨fault | result, after⟩ := outcome
  · obtain ⟨last, done, settled⟩ := two after here.2
    simp only
    rw [action_bind_ok done]
    exact ⟨here.1, settled⟩
  · exact here

/-! ## The stack of a running function -/

/-- What a running function leaves alone: the programs, the configuration, the native functions and
the frames, and the part of the stack below its variables with the references that it stands for; and
whether the functions that values refer to are trusted. -/
structure Ground where
  trusted : Prop
  programs : Array Program
  config : Config
  natives : Array Native
  frames : Array Frame
  lower : List Value
  below : List Reference

namespace Ground

/-- On the ground lie the variables and operands of the running function, and some further values
that have been taken from them are not yet released. -/
structure Bears (ground : Ground) (window loose : List Value) (env : Environment) : Prop where
  programs : env.programs = ground.programs
  config : env.config = ground.config
  natives : env.natives = ground.natives
  frames : env.frames = ground.frames
  notes : env.NotesInBounds
  stack : env.stack.toList = ground.lower ++ window
  balanced : env.Balanced ground.trusted
    (loose.map .value ++ (window.map .value ++ ground.below))

/-- Something lies on the ground, and nothing is loose. -/
def Rests (ground : Ground) (env : Environment) : Prop :=
  ∃ window, ground.Bears window [] env

variable {ground : Ground} {window loose : List Value} {value : Value}

/-- The window lies on what is below. -/
theorem Bears.size (bears : ground.Bears window loose env) :
    env.stack.size = ground.lower.length + window.length := by
  rw [← Array.length_toList, bears.stack, List.length_append]

theorem Bears.perm (bears : ground.Bears window loose env) {other : List Value}
    (same : loose.Perm other) : ground.Bears window other env :=
  { bears with balanced := bears.balanced.perm ((same.map _).append_right _) }

/-- What lies on the stack above the ground is known, and so is what was taken from there. -/
theorem Bears.knows (bears : ground.Bears window loose env)
    (member : value ∈ loose ∨ value ∈ window) : env.Knows ground.trusted value := by
  apply bears.balanced.knows
  rcases member with here | there
  · exact List.mem_append_left _ (List.mem_map_of_mem here)
  · exact List.mem_append_right _ (List.mem_append_left _ (List.mem_map_of_mem there))

/-- Only the heap is another one. -/
theorem Bears.onHeap {heap : Heap} {other : List Value}
    (bears : ground.Bears window loose env)
    (balanced : heap.Balanced (.typed (Offers ground.trusted env.programs))
      ((other.map .value ++ (window.map .value ++ ground.below)) ++ env.kept)) :
    ground.Bears window other { env with heap } :=
  { bears with balanced }

theorem Bears.retain (bears : ground.Bears window loose env)
    (knows : env.Knows ground.trusted value) :
    ground.Bears window (value :: loose) (Environment.retain value env).2 :=
  bears.onHeap (Heap.Balanced.retainValue bears.balanced knows)

theorem returns_retain (knows : ∀ env, ground.Bears window loose env →
      env.Knows ground.trusted value) :
    Returns (ground.Bears window loose) (retain value) () (ground.Bears window (value :: loose)) :=
  fun env bears => ⟨_, rfl, bears.retain (knows env bears)⟩

/-- A loose value may be released. -/
theorem Bears.release (bears : ground.Bears window (value :: loose) env) :
    ground.Bears window loose (Environment.release value env).2 :=
  bears.onHeap (Heap.Balanced.release bears.balanced)

/-- And so may several. -/
theorem Bears.releaseAll {values : List Value}
    (bears : ground.Bears window (values ++ loose) env) :
    ground.Bears window loose (Environment.releaseAll values env).2 := by
  refine bears.onHeap (Heap.Balanced.releaseAll ?_)
  have balanced := bears.balanced
  unfold Balanced at balanced
  simpa only [List.map_append, List.append_assoc] using balanced

theorem returns_release :
    Returns (ground.Bears window (value :: loose)) (release value) () (ground.Bears window loose) :=
  fun _ bears => ⟨_, rfl, bears.release⟩

theorem returns_releaseAll {values : List Value} :
    Returns (ground.Bears window (values ++ loose)) (releaseAll values) ()
      (ground.Bears window loose) :=
  fun _ bears => ⟨_, rfl, bears.releaseAll⟩

/-- An operation of the heap gives values, and takes over the ones it is given. -/
theorem ensures_onHeap {operation : Heap → Heap.Outcome α} (given : List Value)
    (values : α → List Value)
    (gives : ∀ heap outside, Heap.Balanced (.typed (Offers ground.trusted ground.programs)) heap
        (given.map .value ++ outside) →
      Heap.Gives (.typed (Offers ground.trusted ground.programs)) outside
        (fun result => (values result).map .value) (operation heap)) :
    Ensures ground.trusted (ground.Bears window (given ++ loose)) (onHeap operation)
      (fun result => ground.Bears window (values result ++ loose)) (ground.Bears window loose) := by
  intro env bears
  have balanced := bears.balanced
  unfold Environment.Balanced at balanced
  rw [bears.programs, List.map_append, List.append_assoc, List.append_assoc] at balanced
  have told := gives env.heap _ balanced
  unfold Environment.onHeap
  generalize operation env.heap = outcome at told
  obtain ⟨fault | result, heap⟩ := outcome
  · refine ⟨fun _ => told.1, bears.onHeap ?_⟩
    rw [bears.programs, List.append_assoc]
    exact told.2
  · refine bears.onHeap ?_
    rw [bears.programs, List.map_append, List.append_assoc, List.append_assoc]
    exact told

/-- A loose value moves to the window where there is room. -/
theorem returns_push (room : ground.lower.length + window.length < ground.config.stackSize) :
    Returns (ground.Bears window (value :: loose)) (push value) ()
      (ground.Bears (window ++ [value]) loose) := by
  intro env bears
  refine ⟨{ env with stack := env.stack.push value }, ?_, ?_⟩
  · have fits : env.stack.size < env.config.stackSize := by
      rw [bears.size, bears.config]
      exact room
    unfold push
    rw [action_bind_ok (action_view _ _), action_bind_ok (action_view _ _), if_pos fits]
    rfl
  · refine { bears with stack := ?_, balanced := bears.balanced.perm ?_ }
    · rw [Array.toList_push, bears.stack, List.append_assoc]
    · apply perm_of_count
      intro reference
      simp only [List.map_append, List.map_cons, List.map_nil, List.count_append, List.count_cons,
        List.count_nil]
      omega

/-- A known value is shared with the window. -/
theorem returns_pushShared (room : ground.lower.length + window.length < ground.config.stackSize)
    (knows : ∀ env, ground.Bears window loose env →
      env.Knows ground.trusted value) :
    Returns (ground.Bears window loose) (pushShared value) ()
      (ground.Bears (window ++ [value]) loose) :=
  (returns_retain knows).then (returns_push room)

/-- Operands that lie in the window are enough. -/
theorem returns_requireOperands {floor count : Nat}
    (enough : floor + count ≤ ground.lower.length + window.length) :
    Returns (ground.Bears window loose) (requireOperands floor count) ()
      (ground.Bears window loose) := by
  intro env bears
  obtain ⟨few, -⟩ | ⟨-, same⟩ := requireOperands_cases floor count env
  · rw [bears.size] at few
    omega
  · exact ⟨env, same, bears⟩

/-- A variable or an operand in its place. -/
theorem Bears.slot (bears : ground.Bears window loose env) {index : Nat}
    (there : window[index]? = some value) :
    Environment.slot (ground.lower.length + index) env = (.ok value, env) := by
  apply slot_eq_ok
  rw [← Array.getElem?_toList, bears.stack, List.getElem?_append_right (Nat.le_add_right _ _),
    Nat.add_sub_cancel_left, there]

/-- A slot of the window is seen. -/
theorem returns_slot {index : Nat} (there : window[index]? = some value) :
    Returns (ground.Bears window loose) (slot (ground.lower.length + index)) value
      (ground.Bears window loose) :=
  fun env bears => ⟨env, bears.slot there, bears⟩

/-- An operand, seen from the top. -/
theorem Bears.peek {floor : Nat} {above : List Value}
    (bears : ground.Bears (window ++ value :: above) loose env)
    (low : floor ≤ ground.lower.length + window.length) :
    Environment.peek floor above.length env = (.ok value, env) := by
  have size := bears.size
  rw [List.length_append, List.length_cons] at size
  obtain ⟨few, -⟩ | ⟨other, -, there, same⟩ := peek_cases floor above.length env
  · omega
  · rw [← Array.getElem?_toList, bears.stack, size, show ground.lower.length +
      (window.length + (above.length + 1)) - 1 - above.length = ground.lower.length + window.length by
        omega, List.getElem?_append_right (Nat.le_add_right _ _), Nat.add_sub_cancel_left,
      List.getElem?_append_right (Nat.le_refl _), Nat.sub_self] at there
    injection there with there
    rw [same, there]

/-- And so is an operand in it. -/
theorem returns_peek {floor : Nat} {above : List Value}
    (low : floor ≤ ground.lower.length + window.length) :
    Returns (ground.Bears (window ++ value :: above) loose) (peek floor above.length) value
      (ground.Bears (window ++ value :: above) loose) :=
  fun env bears => ⟨env, bears.peek low, bears⟩

/-- The topmost operand is taken. -/
theorem returns_pop {floor : Nat} (low : floor ≤ ground.lower.length + window.length) :
    Returns (ground.Bears (window ++ [value]) loose) (pop floor) value
      (ground.Bears window (value :: loose)) := by
  intro env bears
  refine ⟨{ env with stack := env.stack.pop }, ?_, ?_⟩
  · have there : Environment.peek floor 0 env = (.ok value, env) :=
      @Bears.peek env ground window loose value floor [] bears low
    unfold pop
    rw [action_bind_ok there]
    rfl
  · refine { bears with stack := ?_, balanced := bears.balanced.perm ?_ }
    · rw [Array.toList_pop, bears.stack, ← List.append_assoc, List.dropLast_concat]
    · apply perm_of_count
      intro reference
      simp only [List.map_append, List.map_cons, List.map_nil, List.count_append, List.count_cons,
        List.count_nil]
      omega

/-- Everything behind some values is taken. -/
theorem bears_shrink {taken : List Value} {place : Nat}
    (bears : ground.Bears (window ++ taken) loose env)
    (same : place = ground.lower.length + window.length) :
    (env.stack.extract place).toList = taken ∧
      ground.Bears window (taken ++ loose)
        { env with stack := env.stack.shrink place } := by
  have split : env.stack.toList = (ground.lower ++ window) ++ taken := by
    rw [bears.stack, List.append_assoc]
  have length : place = (ground.lower ++ window).length := by
    rw [same, List.length_append]
  refine ⟨?_, { bears with stack := ?_, balanced := bears.balanced.perm ?_ }⟩
  · rw [Array.toList_extract, List.extract_eq_take_drop, split, length, List.drop_left,
      List.take_of_length_le]
    rw [← Array.length_toList, split, List.length_append]
    omega
  · change (env.stack.shrink place).toList = _
    rw [Array.toList_shrink, split, length, List.take_left]
  · apply perm_of_count
    intro reference
    simp only [List.map_append, List.count_append]
    omega

/-- The topmost operands are taken. -/
theorem returns_popMany {floor count : Nat} {taken : List Value}
    (low : floor ≤ ground.lower.length + window.length) (many : taken.length = count) :
    Returns (ground.Bears (window ++ taken) loose) (popMany floor count) taken
      (ground.Bears window (taken ++ loose)) := by
  intro env bears
  have size := bears.size
  rw [List.length_append] at size
  obtain ⟨few, -⟩ | ⟨-, same⟩ := popMany_cases floor count env
  · omega
  · have place : env.stack.size - count = ground.lower.length + window.length := by omega
    obtain ⟨values, bears⟩ := bears_shrink bears place
    rw [values] at same
    exact ⟨_, same, bears⟩

/-- Another value is put in the place of a variable. -/
theorem returns_replaceSlot {index : Nat} {old : Value} (there : window[index]? = some old) :
    Returns (ground.Bears window (value :: loose))
      (replaceSlot (ground.lower.length + index) value) old
      (ground.Bears (window.set index value) (old :: loose)) := by
  intro env bears
  refine ⟨{ env with
    stack := env.stack.setIfInBounds (ground.lower.length + index) value }, ?_, ?_⟩
  · unfold replaceSlot
    rw [action_bind_ok (bears.slot there)]
    rfl
  · refine { bears with stack := ?_, balanced := bears.balanced.perm ?_ }
    · rw [Array.toList_setIfInBounds, bears.stack, List.set_append_right _ _ (Nat.le_add_right _ _),
        Nat.add_sub_cancel_left]
    · apply perm_of_count
      intro reference
      have same := ((Heap.set_perm there value).map Reference.value).count_eq reference
      simp only [List.map_cons, List.count_append, List.count_cons] at same ⊢
      omega

end Ground

end Environment

end PocketScript
