import PocketScript.Proofs.Compile.Gathered
import PocketScript.Proofs.Environment.Accounted
import PocketScript.Proofs.Environment.Entering
import PocketScript.Proofs.Heap.Veiled

/-!
# Instructions keep cells out of sight

In an environment cells lie in certain places of the stack only, and whatever else scripts could get
hold of is visible: what the blocks of the heap hold, the globals and what the timers keep
(`Environment.Veiled`). An instruction whose operands lie above these places finds visible values
there, and leaves nothing else (`Environment.conceals_execute`). Apart from these stand the
instructions that handle cells: one that boxes a variable, those that push a cell, and the one that
makes a closure of what they have pushed.
-/

namespace PocketScript

variable {α β ε : Type}

/-! ## What host programs handle -/

/-- A value that comes out is visible. -/
def Shows (outcome : Except ε Value) : Prop := ∀ value, outcome = .ok value → value.Visible

namespace Request

/-- What is handed over with a request is visible, and programs are compiled ones. -/
def IsVisible : Request → Prop
  | .startTimer _ callback _ param => callback.Visible ∧ param.Visible
  | .load program => program.IsCompiled
  | _ => True

/-- The same of what it is answered with. -/
def Reveals : (request : Request) → request.Answer → Prop
  | .allocString _, answer => Shows answer
  | .takeDue _, due => ∀ timer ∈ due, timer.callback.Visible ∧ timer.param.Visible
  | .compile _, .ok program => program.IsCompiled
  | _, _ => True

end Request

/-- The program hands visible values over as long as it is given none but such, and what it ends with
is as described. -/
def Host.IsVisible (post : α → Prop) : Host α → Prop
  | .done result => post result
  | .ask request next =>
      request.IsVisible ∧ ∀ answer, request.Reveals answer → (next answer).IsVisible post
  | .call callee args next =>
      (∀ value ∈ callee :: args, value.Visible) ∧
        ∀ outcome, Shows outcome → (next outcome).IsVisible post

/-- Called with visible arguments, the function handles visible values only. -/
def NativeFunction.IsVisible (native : NativeFunction) : Prop :=
  ∀ args : List Value, (∀ arg ∈ args, arg.Visible) → (native args).run.IsVisible Shows

/-! ## Visible values -/

theorem Value.visible_iff {value : Value} : value.Visible ↔ ∀ block, value ≠ .cell block := by
  cases value <;> simp [Visible, isCell]

theorem Value.visible_of_blockless {value : Value} (blockless : value.block? = none) :
    value.Visible := by
  cases value <;> first | rfl | cases blockless

/-- A new block of a visible kind is shown. -/
theorem Heap.visible_asValue {kind : Handle → Value} (visible : ∀ block, (kind block).Visible)
    (outcome : Heap.Outcome Handle) : Shows (Heap.asValue kind outcome).1 := by
  obtain ⟨fault | block, heap⟩ := outcome
  · rintro _ ⟨⟩
  · rintro _ ⟨⟩
    exact visible block

/-- A new array is visible. -/
theorem Heap.visible_allocArray (heap : Heap) (items : Array Value) :
    Shows (heap.allocArray items).1 := by
  unfold Heap.allocArray
  dsimp only
  generalize heap.allocStorage (arrayStorageSize items.size) items.size = outcome
  obtain ⟨fault | storage, middle⟩ := outcome
  · rintro _ ⟨⟩
  · exact @visible_asValue .array (fun _ => rfl) _

/-- And so is a new object. -/
theorem Heap.visible_allocObject (heap : Heap) (properties : List (String × Value)) :
    Shows (heap.allocObject properties).1 := by
  unfold Heap.allocObject
  generalize properties.foldl putProperty (#[], []) = state
  obtain ⟨unique, replaced⟩ := state
  simp only
  generalize (heap.releaseAll replaced.reverse).allocStorage (objectStorageSize unique.size)
    unique.size = outcome
  obtain ⟨fault | storage, middle⟩ := outcome
  · rintro _ ⟨⟩
  · exact @visible_asValue .object (fun _ => rfl) _

namespace Environment

variable {env after : Environment} {hidden hidden' : Nat → Prop} {value : Value}
  {failed : Environment → Prop} {shows : α → Prop}

/-- Cells lie in hidden places of the stack only, and everything else is visible that the scripts, the
timers and the native functions have. The scripts were compiled. -/
structure Veiled (hidden : Nat → Prop) (env : Environment) : Prop where
  heap : env.heap.Veiled
  globals : ∀ binding ∈ env.globals, binding.2.Visible
  timers : ∀ timer ∈ env.timers.timers, timer.callback.Visible ∧ timer.param.Visible
  natives : ∀ native ∈ env.natives, native.run.IsVisible
  programs : ∀ program ∈ env.programs, program.IsCompiled
  stack : ∀ (place : Nat) block, env.stack[place]? = some (.cell block) → hidden place

namespace Veiled

theorem mono (veiled : env.Veiled hidden) (more : ∀ place, hidden place → hidden' place) :
    env.Veiled hidden' :=
  { veiled with stack := fun place block there => more place (veiled.stack place block there) }

/-- What lies elsewhere is visible. -/
theorem visible (veiled : env.Veiled hidden) {place : Nat}
    (there : env.stack[place]? = some value) (elsewhere : ¬ hidden place) : value.Visible := by
  refine Value.visible_iff.mpr fun block same => elsewhere (veiled.stack place block ?_)
  rw [there, same]

theorem onHeap (veiled : env.Veiled hidden) {heap : Heap} (kept : heap.Veiled) :
    { env with heap }.Veiled hidden :=
  { veiled with heap := kept }

/-- Less is counted. -/
theorem shrunk (veiled : env.Veiled hidden) {heap : Heap}
    (shrinks : PoolSet.Shrinks env.heap.blocks heap.blocks) :
    { env with heap }.Veiled hidden :=
  veiled.onHeap (veiled.heap.shrunk shrinks)

theorem retain (veiled : env.Veiled hidden) (value : Value) :
    (Environment.retain value env).2.Veiled hidden :=
  veiled.shrunk (Heap.shrinks_retain _ _)

theorem release (veiled : env.Veiled hidden) (value : Value) :
    (Environment.release value env).2.Veiled hidden :=
  veiled.shrunk (Heap.shrinks_release _ _)

theorem releaseAll (veiled : env.Veiled hidden) (values : List Value) :
    (Environment.releaseAll values env).2.Veiled hidden :=
  veiled.shrunk (Heap.shrinks_releaseAll _ _)

/-- A value is put on the stack. -/
theorem push (veiled : env.Veiled hidden)
    (shown : value.Visible ∨ hidden env.stack.size) :
    { env with stack := env.stack.push value }.Veiled hidden := by
  refine { veiled with stack := fun place block there => ?_ }
  rw [Array.getElem?_push] at there
  split at there
  · rename_i top
    subst top
    cases there
    exact shown.resolve_left fun visible => Value.visible_iff.mp visible block rfl
  · exact veiled.stack place block there

/-- Of the stack there is only what lies below a place. -/
theorem shrink (veiled : env.Veiled hidden) (height : Nat) :
    { env with stack := env.stack.shrink height }.Veiled fun place =>
      hidden place ∧ place < height := by
  refine { veiled with stack := fun place block there => ?_ }
  by_cases below : place < height
  · rw [getElem?_shrink below] at there
    exact ⟨veiled.stack place block there, below⟩
  · rw [Array.getElem?_eq_none (by rw [Array.size_shrink]; omega)] at there
    cases there

theorem dropped (veiled : env.Veiled hidden) (height : Nat) :
    (env.dropped height).Veiled fun place => hidden place ∧ place < height :=
  (veiled.shrink height).releaseAll _

/-- A cell may be put in a hidden place only. -/
theorem setSlot (veiled : env.Veiled hidden) {place : Nat}
    (shown : value.Visible ∨ hidden place) :
    { env with stack := env.stack.setIfInBounds place value }.Veiled hidden := by
  refine { veiled with stack := fun other block there => ?_ }
  rw [Array.getElem?_setIfInBounds] at there
  split at there
  · rename_i same
    subst same
    split at there
    · cases there
      exact shown.resolve_left fun visible => Value.visible_iff.mp visible block rfl
    · cases there
  · exact veiled.stack other block there

/-- Positions are no values. -/
theorem setPosition (veiled : env.Veiled hidden) (pc : Nat) :
    (Environment.setPosition pc env).2.Veiled hidden :=
  { veiled with }

/-- Nor are the slots that units note. -/
theorem noteSlot (veiled : env.Veiled hidden) (unit : Nat) (name : UInt16) (slot : Nat) :
    (Environment.noteSlot unit name slot env).2.Veiled hidden :=
  { veiled with
    programs := by
      rw [programs_noteSlot unit name slot env]
      exact veiled.programs }

/-- A global has to be given a visible value. -/
theorem setGlobal (veiled : env.Veiled hidden) (slot : Nat) (shown : value.Visible) :
    (Environment.setGlobal slot value env).2.Veiled hidden := by
  have changed : { env with
      globals := env.globals.modify slot fun binding => (binding.1, value) }.Veiled hidden := by
    refine { veiled with globals := fun binding member => ?_ }
    obtain ⟨index, there⟩ := Array.mem_iff_getElem?.mp member
    rw [Array.getElem?_modify] at there
    split at there
    · obtain ⟨old, -, rfl⟩ := Option.map_eq_some_iff.mp there
      exact shown
    · exact veiled.globals binding (Array.mem_of_getElem? there)
  exact changed.releaseAll _

/-- And so has a new one. -/
theorem defineGlobal (veiled : env.Veiled hidden) (name : String) (shown : value.Visible) :
    (Environment.defineGlobal name value env).2.Veiled hidden := by
  cases known : env.globalSlot? name with
  | some slot =>
      rw [defineGlobal_known value known]
      exact veiled.setGlobal slot shown
  | none =>
      rw [defineGlobal_new value known]
      refine { veiled with globals := fun binding member => ?_ }
      rcases Array.mem_push.mp member with old | rfl
      · exact veiled.globals binding old
      · exact shown

end Veiled

/-! ## What actions conceal -/

/-- The action leaves cells in hidden places only, and what it results in is as described. -/
def Conceals (hidden : Nat → Prop) (action : Action α) (shows : α → Prop) : Prop :=
  Ensures False (Veiled hidden) action
    (fun result env => shows result ∧ env.Veiled hidden) (Veiled hidden)

/-- Whatever comes of the action. -/
theorem outcome_concealed {action : Action α} {before : Environment → Prop}
    (ensures : Ensures False before action
      (fun result env => shows result ∧ env.Veiled hidden) (Veiled hidden))
    (holds : before env) :
    (action env).2.Veiled hidden ∧
      ∀ result, (action env).1 = .ok result → shows result := by
  have here := ensures env holds
  generalize action env = outcome at here
  obtain ⟨fault | result, after⟩ := outcome
  · exact ⟨here.2, nofun⟩
  · refine ⟨here.2, fun other same => ?_⟩
    cases same
    exact here.1

theorem conceals_bind {first : Action α} {next : α → Action β} {last : β → Prop}
    (one : Conceals hidden first shows)
    (two : ∀ result, shows result → Conceals hidden (next result) last) :
    Conceals hidden (first >>= next) last :=
  ensures_bind one fun result env holds => two result holds.1 env holds.2

theorem conceals_view {tell : Environment → α} {next : α → Action β} {last : β → Prop}
    (tells : ∀ env, env.Veiled hidden → shows (tell env))
    (rest : ∀ told, shows told → Conceals hidden (next told) last) :
    Conceals hidden ((view tell : Action α) >>= next) last :=
  ensures_view fun told env holds =>
    rest told (holds.2 ▸ tells env holds.1) env holds.1

/-- What is told may be anything. -/
theorem conceals_viewAny {tell : Environment → α} {next : α → Action β} {last : β → Prop}
    (rest : ∀ told, Conceals hidden (next told) last) :
    Conceals hidden ((view tell : Action α) >>= next) last :=
  @conceals_view _ _ hidden (fun _ => True) tell next last (fun _ _ => trivial) fun told _ => rest told

theorem conceals_pure {result : α} (shown : shows result) :
    Conceals hidden (pure result : Action α) shows :=
  ensures_pure fun _ veiled => ⟨shown, veiled⟩

/-- A fault shows nothing. -/
theorem conceals_throw {fault : Fault} : Conceals hidden (throw fault : Action α) shows :=
  ensures_throw (fun never => never.elim) fun _ => id

/-- What is found has to be as described. -/
theorem conceals_found {found : Option α} (shown : ∀ result, found = some result → shows result) :
    Conceals hidden (Environment.found found) shows := by
  cases found with
  | none => exact conceals_throw
  | some result => exact conceals_pure (shown result rfl)

theorem conceals_foundAny {found : Option α} :
    Conceals hidden (Environment.found found) fun _ => True :=
  conceals_found fun _ _ => trivial

theorem conceals_update {update : Update Unit}
    (keeps : ∀ env, env.Veiled hidden → (update env).2.Veiled hidden) :
    Conceals hidden (liftM update : Action Unit) fun _ => True :=
  fun env veiled => ⟨trivial, keeps env veiled⟩

theorem conceals_retain : Conceals hidden (retain value : Action Unit) fun _ => True :=
  conceals_update fun _ veiled => veiled.retain _

theorem conceals_release : Conceals hidden (release value : Action Unit) fun _ => True :=
  conceals_update fun _ veiled => veiled.release _

theorem conceals_releaseAll {values : List Value} :
    Conceals hidden (releaseAll values : Action Unit) fun _ => True :=
  conceals_update fun _ veiled => veiled.releaseAll _

/-- Positions are no values. -/
theorem conceals_setPosition (pc : Nat) :
    Conceals hidden (setPosition pc : Action Unit) fun _ => True :=
  conceals_update fun _ veiled => veiled.setPosition pc

theorem conceals_onHeap {operation : Heap → Heap.Outcome α}
    (keeps : ∀ heap : Heap, heap.Veiled → (operation heap).2.Veiled)
    (shown : ∀ heap result, (operation heap).1 = .ok result → shows result) :
    Conceals hidden (Environment.onHeap operation) shows := by
  intro env veiled
  have kept := keeps env.heap veiled.heap
  have told := shown env.heap
  unfold Environment.onHeap
  generalize operation env.heap = outcome at kept told
  obtain ⟨fault | result, heap⟩ := outcome
  · exact ⟨fun never => never.elim, veiled.onHeap kept⟩
  · exact ⟨told result rfl, veiled.onHeap kept⟩

theorem conceals_tryCatch {first : Action α} {handle : Fault → Action α}
    (one : Conceals hidden first shows) (two : ∀ fault, Conceals hidden (handle fault) shows) :
    Conceals hidden (tryCatch first handle : Action α) shows := by
  intro env veiled
  have here := one env veiled
  rw [action_tryCatch]
  generalize first env = outcome at here
  obtain ⟨fault | result, middle⟩ := outcome
  · exact two fault middle here.2
  · exact here

/-- A result that is not wanted is not shown. -/
theorem conceals_discard {action : Action α} (conceals : Conceals hidden action shows) :
    Conceals hidden (discard action) fun _ => True := by
  intro env veiled
  have here := conceals env veiled
  rw [action_discard]
  generalize action env = outcome at here ⊢
  obtain ⟨fault | result, middle⟩ := outcome
  · exact here
  · exact ⟨trivial, here.2⟩

theorem conceals_releasingAfter {values : List Value} {action : Action α}
    (conceals : Conceals hidden action shows) :
    Conceals hidden (releasingAfter values action) shows :=
  conceals_bind (conceals_tryCatch conceals fun _ => conceals_bind conceals_releaseAll fun _ _ =>
    conceals_throw) fun _ shown => conceals_bind conceals_releaseAll fun _ _ => conceals_pure shown

/-- An action that only looks changes nothing. -/
theorem ensures_look {before : Environment → Prop} {behind : β → Environment → Prop}
    {first : Action α} {next : α → Action β}
    (looks : ∀ env, (first env).2 = env)
    (fails : ∀ env, before env → failed env)
    (rest : ∀ result, Ensures False before (next result) behind failed) :
    Ensures False before (first >>= next) behind failed := by
  intro env holds
  have same := looks env
  rw [action_bind]
  generalize first env = outcome at same
  obtain ⟨outcome, middle⟩ := outcome
  obtain rfl : middle = env := same
  cases outcome with
  | error fault => exact ⟨fun never => never.elim, fails middle holds⟩
  | ok result => exact rest result middle holds

/-! ## The stack -/

theorem conceals_push (shown : value.Visible) : Conceals hidden (push value) fun _ => True := by
  intro env veiled
  rw [push_eq]
  by_cases room : env.stack.size < env.config.stackSize
  · rw [if_pos room]
    exact ⟨trivial, veiled.push (.inl shown)⟩
  · rw [if_neg room]
    exact ⟨fun never => never.elim, veiled.release _⟩

theorem conceals_pushShared (shown : value.Visible) :
    Conceals hidden (pushShared value) fun _ => True :=
  conceals_bind conceals_retain fun _ _ => conceals_push shown

theorem conceals_requireOperands (floor count : Nat) :
    Conceals hidden (requireOperands floor count) fun _ => True := by
  refine conceals_viewAny fun depth => ?_
  split
  · exact conceals_throw
  · exact conceals_pure trivial

/-- A value from a place that is not hidden. -/
theorem conceals_slot {place : Nat} (elsewhere : ¬ hidden place) :
    Conceals hidden (slot place) Value.Visible := by
  intro env veiled
  cases there : env.stack[place]? with
  | none =>
      rw [slot_eq_error there]
      exact ⟨fun never => never.elim, veiled⟩
  | some value =>
      rw [slot_eq_ok there]
      exact ⟨veiled.visible there elsewhere, veiled⟩

theorem conceals_replaceSlot {place : Nat} (elsewhere : ¬ hidden place) (shown : value.Visible) :
    Conceals hidden (replaceSlot place value) Value.Visible := by
  intro env veiled
  obtain ⟨-, failed⟩ | ⟨old, there, done⟩ := replaceSlot_cases place value env
  · rw [failed]
    exact ⟨fun never => never.elim, veiled⟩
  · rw [done]
    exact ⟨veiled.visible there elsewhere, veiled.setSlot (.inl shown)⟩

section

variable {floor : Nat} (low : ∀ place, hidden place → place < floor)

include low

theorem conceals_peek (below : Nat) : Conceals hidden (peek floor below) Value.Visible := by
  intro env veiled
  obtain ⟨-, failed⟩ | ⟨value, enough, there, done⟩ := peek_cases floor below env
  · rw [failed]
    exact ⟨fun never => never.elim, veiled⟩
  · rw [done]
    refine ⟨veiled.visible there fun inside => ?_, veiled⟩
    have := low _ inside
    omega

theorem conceals_pop : Conceals hidden (pop floor) Value.Visible := by
  intro env veiled
  obtain ⟨-, failed⟩ | ⟨value, enough, there, done⟩ := pop_cases floor env
  · rw [failed]
    exact ⟨fun never => never.elim, veiled⟩
  · rw [done]
    rw [Array.back?_eq_getElem?] at there
    refine ⟨veiled.visible there fun inside => ?_, ?_⟩
    · have := low _ inside
      omega
    · refine { veiled with stack := fun place block found => ?_ }
      rw [Array.getElem?_pop] at found
      split at found
      · exact veiled.stack place block found
      · cases found

theorem conceals_popMany (count : Nat) :
    Conceals hidden (popMany floor count) fun values => ∀ value ∈ values, value.Visible := by
  intro env veiled
  obtain ⟨-, failed⟩ | ⟨enough, done⟩ := popMany_cases floor count env
  · rw [failed]
    exact ⟨fun never => never.elim, veiled⟩
  · rw [done]
    refine ⟨fun value member => ?_, (veiled.shrink _).mono fun _ holds => holds.1⟩
    obtain ⟨index, there⟩ := Array.mem_iff_getElem?.mp (Array.mem_toList_iff.mp member)
    rw [Array.getElem?_extract] at there
    split at there
    · refine veiled.visible there fun inside => ?_
      have := low _ inside
      omega
    · cases there

end

/-! ## Variables -/

section

variable {activation : Activation} {index : UInt16}

/-- The place of a variable is a fixed one. -/
theorem localPlace_cases (activation : Activation) (index : UInt16) :
    activation.localPlace index = throw .invalidOperand ∨
      activation.localPlace index = pure (activation.base + index.toNat) := by
  unfold Activation.localPlace
  split
  · exact .inr rfl
  · exact .inl rfl

theorem ensures_atLocal {before : Environment → Prop} {behind : β → Environment → Prop}
    {next : Nat → Action β} (fails : ∀ env, before env → failed env)
    (rest : Ensures False before (next (activation.base + index.toNat)) behind failed) :
    Ensures False before (activation.localPlace index >>= next) behind failed := by
  obtain stops | found := localPlace_cases activation index
  · rw [stops]
    exact ensures_throw (fun never => never.elim) fails
  · rw [found]
    exact rest

theorem localCell_looks (activation : Activation) (index : UInt16) (env : Environment) :
    (localCell activation index env).2 = env := by
  unfold localCell
  obtain stops | found := localPlace_cases activation index
  · rw [stops]
    rfl
  · rw [found, pure_bind, action_bind]
    cases there : env.stack[activation.base + index.toNat]? with
    | none => rw [slot_eq_error there]
    | some value =>
        rw [slot_eq_ok there]
        cases value <;> rfl

theorem upvalueCell_looks (activation : Activation) (index : UInt16) (env : Environment) :
    (upvalueCell activation index env).2 = env := by
  unfold upvalueCell
  cases activation.closure with
  | none => rfl
  | some closure =>
      rw [action_bind_ok (found_some _ _), action_bind_ok (action_view _ _)]
      generalize env.heap.closureCell? closure index.toNat = found
      obtain _ | value := found
      · rfl
      · cases value <;> rfl

theorem conceals_pushCellValue (cell : Handle) :
    Conceals hidden (pushCellValue cell) fun _ => True := by
  refine @conceals_view _ _ _ (fun told => ∀ value, told = some value → value.Visible) _ _ _
    (fun env veiled value found => veiled.heap.boxed found) fun told shown => ?_
  exact conceals_bind (conceals_found shown) fun value visible => conceals_pushShared visible

variable (low : ∀ place, hidden place → place < activation.floor)

include low

/-- A cell takes an operand, which is visible. -/
theorem conceals_storeInCell (cell : Handle) :
    Conceals hidden (storeInCell activation cell) fun _ => True :=
  conceals_bind (conceals_peek low 0) fun _ shown => conceals_bind conceals_retain fun _ _ =>
    conceals_onHeap (fun _ veiled => veiled.cellSet cell shown) fun _ _ _ => trivial

/-- A variable whose place may be hidden takes a visible value. -/
theorem conceals_storeLocal : Conceals hidden (storeLocal activation index) fun _ => True := by
  refine ensures_atLocal (fun _ => id) (conceals_bind (conceals_peek low 0) fun value shown =>
    conceals_bind conceals_retain fun _ _ => ?_)
  have replaced : Conceals hidden (replaceSlot (activation.base + index.toNat) value)
      fun _ => True := by
    intro env veiled
    obtain ⟨-, failed⟩ | ⟨old, -, done⟩ :=
      replaceSlot_cases (activation.base + index.toNat) value env
    · rw [failed]
      exact ⟨fun never => never.elim, veiled⟩
    · rw [done]
      exact ⟨trivial, veiled.setSlot (.inl shown)⟩
  exact conceals_bind replaced fun _ _ => conceals_release

/-! ## Globals -/

omit low in
/-- The slot of a global is no value. -/
theorem conceals_namedSlot : Conceals hidden (namedSlot activation index) fun _ => True := by
  refine conceals_viewAny fun noted => ?_
  split
  · exact conceals_pure trivial
  · refine conceals_bind conceals_foundAny fun text _ =>
      conceals_viewAny fun slot => ?_
    split
    · exact conceals_pure trivial
    · exact conceals_bind (conceals_update fun _ veiled => veiled.noteSlot _ _ _) fun _ _ =>
        conceals_pure trivial

omit low in
/-- A global takes a visible value. -/
theorem conceals_assignGlobal (shown : value.Visible) :
    Conceals hidden (assignGlobal activation index value) fun _ => True := by
  refine conceals_bind (conceals_tryCatch conceals_namedSlot fun _ =>
    conceals_bind conceals_release fun _ _ => conceals_throw) fun slot _ => ?_
  split
  · exact conceals_update fun _ veiled => veiled.setGlobal _ shown
  · exact conceals_update fun _ veiled => veiled.defineGlobal _ shown

omit low in
/-- And has one to give. -/
theorem conceals_loadGlobal : Conceals hidden (loadGlobal activation index) fun _ => True := by
  refine conceals_bind conceals_namedSlot fun slot _ => ?_
  split
  · exact conceals_throw
  · refine @conceals_view _ _ _ (fun told => ∀ binding, told = some binding → binding.2.Visible) _ _ _
      (fun env veiled binding found => veiled.globals binding (Array.mem_of_getElem? found))
      fun told shown => ?_
    exact conceals_bind (conceals_found shown) fun binding visible => conceals_pushShared visible

theorem conceals_storeGlobal : Conceals hidden (storeGlobal activation index) fun _ => True :=
  conceals_bind (conceals_peek low 0) fun _ shown => conceals_bind conceals_retain fun _ _ =>
    conceals_assignGlobal shown

theorem conceals_defineNamed : Conceals hidden (defineNamed activation index) fun _ => True :=
  conceals_bind (conceals_pop low) fun _ shown => conceals_assignGlobal shown

omit low in
/-- A global that is declared is undefined. -/
theorem conceals_declareGlobal : Conceals hidden (declareGlobal activation index) fun _ => True := by
  refine conceals_bind conceals_namedSlot fun slot _ => ?_
  split
  · exact conceals_assignGlobal rfl
  · exact conceals_pure trivial

/-! ## Literals -/

omit low in
/-- Numbers are visible. -/
theorem conceals_pushNumber : Conceals hidden (pushNumber activation index) fun _ => True :=
  conceals_bind conceals_foundAny fun number _ =>
    conceals_push (Value.visible_of_blockless (plain_ofNumber number).block)

omit low in
/-- String constants are visible. -/
theorem conceals_pushString : Conceals hidden (pushString activation index) fun _ => True :=
  conceals_bind (conceals_discard conceals_foundAny)
    fun _ _ => conceals_push rfl

omit low in
theorem conceals_pushFunction : Conceals hidden (pushFunction activation index) fun _ => True :=
  conceals_bind (conceals_discard conceals_foundAny)
    fun _ _ => conceals_push rfl

/-- The elements of a new array are operands. -/
theorem conceals_makeArray (count : UInt16) :
    Conceals hidden (makeArray activation count) fun _ => True := by
  refine conceals_bind (conceals_popMany low _) fun items shown => ?_
  refine conceals_bind (conceals_onHeap (fun heap veiled => veiled.allocArray fun item member => ?_)
    fun heap => heap.visible_allocArray _) fun array visible => conceals_push visible
  exact shown item (by simpa using member)

end

/-- Keys and values are released. -/
theorem Veiled.releaseUnkeyed : ∀ {values : List Value} {env : Environment},
    env.Veiled hidden →
      (takeProperties.releaseUnkeyed values env).2.Veiled hidden
  | [], _, veiled => veiled
  | [_], _, veiled => veiled
  | _ :: _ :: rest, _, veiled => @Veiled.releaseUnkeyed rest _ ((veiled.release _).release _)

/-- The properties that are taken have the visible values that were there. -/
theorem Veiled.takeProperties : ∀ {values : List Value} {properties : Array (String × Value)}
    {env : Environment}, env.Veiled hidden → (∀ value ∈ values, value.Visible) →
      (∀ property ∈ properties, property.2.Visible) →
      (∀ found, (Environment.takeProperties properties values env).1 = some found →
          ∀ property ∈ found, property.2.Visible) ∧
        (Environment.takeProperties properties values env).2.Veiled hidden
  | [], _, _, veiled, _, old => ⟨fun _ same => by cases same; exact old, veiled⟩
  | [_], _, _, veiled, _, old => ⟨fun _ same => by cases same; exact old, veiled⟩
  | key :: value :: rest, properties, env, veiled, shown, old => by
      unfold Environment.takeProperties
      rw [update_bind, update_view]
      simp only
      cases env.string? key with
      | some name =>
          refine @Veiled.takeProperties rest (properties.push (name, value)) _ (veiled.release key)
            (fun other member => shown other (List.mem_cons_of_mem _ (List.mem_cons_of_mem _ member)))
            fun property member => ?_
          rcases Array.mem_push.mp member with before | rfl
          · exact old property before
          · exact shown value (List.mem_cons_of_mem _ List.mem_cons_self)
      | none =>
          refine ⟨fun _ impossible => (by cases impossible), ?_⟩
          exact (@Veiled.releaseUnkeyed _ (key :: value :: rest) _ veiled).releaseAll _

section

variable {activation : Activation} {index : UInt16}
  (low : ∀ place, hidden place → place < activation.floor)

include low

/-- And so are the properties of a new object. -/
theorem conceals_makeObject (count : UInt16) :
    Conceals hidden (makeObject activation count) fun _ => True := by
  refine conceals_bind (conceals_popMany low _) fun values shown => ?_
  have taken : Conceals hidden (Environment.takeProperties #[] values : Action _)
      fun properties => ∀ found, properties = some found → ∀ property ∈ found, property.2.Visible :=
    fun env veiled => veiled.takeProperties shown fun property member =>
      absurd member (Array.not_mem_empty property)
  refine conceals_bind taken fun properties visible => ?_
  cases properties with
  | none => exact conceals_throw
  | some properties =>
      refine conceals_bind (conceals_onHeap (fun heap veiled => veiled.allocObject
        fun property member => ?_) fun heap => heap.visible_allocObject _) fun object => conceals_push
      exact visible properties rfl property (Array.mem_toList_iff.mp member)

end

/-! ## Operators and elements -/

/-- A new string is visible. -/
theorem conceals_allocString (text : String) :
    Conceals hidden (Environment.onHeap (·.allocString text)) Value.Visible :=
  conceals_onHeap (fun _ veiled => @Heap.Veiled.allocSized _ (.text text) veiled _ trivial)
    fun _ => @Heap.visible_asValue .string (fun _ => rfl) _

/-- The result of an operation is no cell. -/
theorem conceals_applyBinary (op : BinaryOp) (left right : Value) :
    Conceals hidden (applyBinary op left right) Value.Visible := by
  have values : Conceals hidden (pure (op.onValues left right) : Action Value) Value.Visible :=
    conceals_pure (Value.visible_of_blockless (plain_onValues op left right).block)
  unfold applyBinary
  cases op with
  | add =>
      dsimp only
      split
      · exact conceals_viewAny fun text => conceals_allocString text
      · exact values
  | eq | ne | lt | le | gt | ge => exact conceals_viewAny fun _ => conceals_pure rfl
  | _ => exact values

/-- An index is no value. -/
theorem conceals_elementIndex (key : Value) :
    Conceals hidden (elementIndex key) fun _ => True := by
  unfold elementIndex
  split
  · exact conceals_pure trivial
  · exact conceals_throw

/-- Nor is the name of a property. -/
theorem conceals_propertyKey (key : Value) :
    Conceals hidden (propertyKey key) fun _ => True := by
  refine conceals_viewAny fun name => ?_
  split
  · exact conceals_pure trivial
  · exact conceals_throw

/-- A length is a number. -/
theorem conceals_lengthOr (key : Value) (length : Environment → Nat) :
    Conceals hidden (lengthOr key length) Value.Visible := by
  refine conceals_viewAny fun name => ?_
  split
  · exact conceals_viewAny fun count => conceals_pure rfl
  · exact conceals_pure rfl

theorem conceals_readElement {found : Option Value}
    (shown : ∀ value, found = some value → value.Visible) :
    Conceals hidden (readElement found) Value.Visible := by
  refine conceals_bind conceals_retain fun _ _ => conceals_pure ?_
  cases found with
  | none => rfl
  | some value => exact shown value rfl

/-- A character is a string. -/
theorem conceals_character (container key : Value) :
    Conceals hidden (character container key) Value.Visible := by
  unfold character
  split
  · exact conceals_lengthOr key _
  · refine conceals_bind (conceals_elementIndex key) fun index _ => conceals_viewAny fun text => ?_
    split
    · exact conceals_allocString _
    · exact conceals_pure rfl

theorem conceals_getElement (container key : Value) :
    Conceals hidden (getElement container key) Value.Visible := by
  cases container with
  | array block =>
      unfold getElement
      dsimp only
      split
      · exact conceals_lengthOr key _
      · refine conceals_bind (conceals_elementIndex key) fun index _ => ?_
        exact conceals_view (fun env veiled value found => veiled.heap.item found)
          fun found => conceals_readElement
  | object block =>
      refine conceals_bind (conceals_propertyKey key) fun name _ => ?_
      exact conceals_view (fun env veiled value found => veiled.heap.property found)
        fun found => conceals_readElement
  | constant | string | foreign =>
      rw [getElement_of_isString rfl]
      exact conceals_character _ key
  | _ => exact conceals_throw

theorem conceals_setElement (container key : Value) (shown : value.Visible) :
    Conceals hidden (setElement container key value) fun _ => True := by
  unfold setElement
  cases container with
  | array block =>
      exact conceals_bind (conceals_elementIndex key) fun index _ =>
        conceals_bind conceals_retain fun _ _ =>
          conceals_onHeap (fun _ veiled => veiled.arraySet block index shown) fun _ _ _ => trivial
  | object block =>
      exact conceals_bind (conceals_propertyKey key) fun name _ =>
        conceals_bind conceals_retain fun _ _ =>
          conceals_onHeap (fun _ veiled => veiled.objectSet block name shown) fun _ _ _ => trivial
  | _ => exact conceals_throw

section

variable {activation : Activation} {index : UInt16}
  (low : ∀ place, hidden place → place < activation.floor)

include low

theorem conceals_unary (op : UnaryOp) : Conceals hidden (unary activation op) fun _ => True :=
  conceals_bind (conceals_pop low) fun value _ =>
    conceals_view (fun env _ =>
        Value.visible_of_blockless (plain_applyUnary env op value).block) fun _ shown =>
      conceals_bind conceals_release fun _ _ => conceals_push shown

theorem conceals_binary (op : BinaryOp) : Conceals hidden (binary activation op) fun _ => True :=
  conceals_bind (conceals_pop low) fun right _ => conceals_bind (conceals_pop low) fun left _ =>
    conceals_bind (conceals_releasingAfter (conceals_applyBinary op left right)) fun _ shown =>
      conceals_push shown

theorem conceals_pushElement : Conceals hidden (pushElement activation) fun _ => True :=
  conceals_bind (conceals_pop low) fun key _ => conceals_bind (conceals_pop low) fun container _ =>
    conceals_bind (conceals_releasingAfter (conceals_getElement container key)) fun _ shown =>
      conceals_push shown

theorem conceals_storeElement : Conceals hidden (storeElement activation) fun _ => True := by
  refine conceals_bind (conceals_pop low) fun value shown => conceals_bind (conceals_pop low)
    fun key _ => conceals_bind (conceals_pop low) fun container _ => ?_
  exact conceals_bind (conceals_tryCatch
    (conceals_releasingAfter (conceals_setElement container key shown)) fun _ =>
      conceals_bind conceals_release fun _ _ => conceals_throw) fun _ _ => conceals_push shown

/-- A jump takes a value away. -/
theorem conceals_jumpIf (wanted : Bool) (target : Nat) :
    Conceals hidden (jumpIf activation wanted target) fun _ => True := by
  refine conceals_bind (conceals_pop low) fun value _ => conceals_viewAny fun truthy =>
    conceals_bind conceals_release fun _ _ => ?_
  split
  · exact conceals_setPosition target
  · exact conceals_pure trivial

/-- Or leaves it where it is. -/
theorem conceals_jumpOrPop (wanted : Bool) (target : Nat) :
    Conceals hidden (jumpOrPop activation wanted target) fun _ => True := by
  refine conceals_bind (conceals_peek low 0) fun value _ => conceals_viewAny fun truthy => ?_
  split
  · exact conceals_setPosition target
  · exact conceals_bind (conceals_pop low) fun value _ => conceals_release

/-! ## Instructions -/

/-- An instruction that neither boxes a variable nor handles cells on top of the stack, nor leaves
the function; the variable that it copies, if it does, is not boxed. -/
theorem conceals_execute {instr : Instruction} (boxes : instr.op ≠ .makeCell)
    (pushes : instr.op.pushesCell = false) (captures : instr.op ≠ .makeClosure)
    (stays : instr.op.leaves = false)
    (copies : instr.op = .loadLocal → ¬ hidden (activation.base + instr.a.toNat)) :
    Conceals hidden (execute activation instr) fun _ => True := by
  obtain ⟨op, a, b⟩ := instr
  cases op with
  | nop => exact conceals_pure trivial
  | pushUndefined | pushNaN | pushTrue | pushFalse | pushZero | pushInt => exact conceals_push rfl
  | pushNumber => exact conceals_pushNumber
  | pushString => exact conceals_pushString
  | pushFunction => exact conceals_pushFunction
  | makeArray => exact conceals_makeArray low a
  | makeObject => exact conceals_makeObject low a
  | pop => exact conceals_bind (conceals_pop low) fun value _ => conceals_release
  | dup => exact conceals_bind (conceals_peek low 0) fun value shown => conceals_pushShared shown
  | dup2 =>
      exact conceals_bind (conceals_peek low 1) fun first one =>
        conceals_bind (conceals_peek low 0) fun second two =>
          conceals_bind (conceals_pushShared one) fun _ _ => conceals_pushShared two
  | loadLocal =>
      exact ensures_atLocal (fun _ => id) (conceals_bind (conceals_slot (copies rfl))
        fun value shown => conceals_pushShared shown)
  | storeLocal => exact conceals_storeLocal low
  | loadCell =>
      exact ensures_look (localCell_looks _ _) (fun _ => id) fun cell => conceals_pushCellValue cell
  | storeCell =>
      exact ensures_look (localCell_looks _ _) (fun _ => id) fun cell => conceals_storeInCell low cell
  | loadUpvalue =>
      exact ensures_look (upvalueCell_looks _ _) (fun _ => id) fun cell => conceals_pushCellValue cell
  | storeUpvalue =>
      exact ensures_look (upvalueCell_looks _ _) (fun _ => id) fun cell =>
        conceals_storeInCell low cell
  | makeCell => exact absurd rfl boxes
  | makeClosure => exact absurd rfl captures
  | pushCell | pushUpvalue => cases pushes
  | loadGlobal => exact conceals_loadGlobal
  | storeGlobal => exact conceals_storeGlobal low
  | defineGlobal => exact conceals_defineNamed low
  | declareGlobal => exact conceals_declareGlobal
  | getElem => exact conceals_pushElement low
  | setElem => exact conceals_storeElement low
  | neg => exact conceals_unary low .neg
  | not => exact conceals_unary low .not
  | bitNot => exact conceals_unary low .bitNot
  | add => exact conceals_binary low .add
  | sub => exact conceals_binary low .sub
  | mul => exact conceals_binary low .mul
  | div => exact conceals_binary low .div
  | mod => exact conceals_binary low .mod
  | bitAnd => exact conceals_binary low .bitAnd
  | bitOr => exact conceals_binary low .bitOr
  | bitXor => exact conceals_binary low .bitXor
  | shl => exact conceals_binary low .shl
  | shr => exact conceals_binary low .shr
  | eq => exact conceals_binary low .eq
  | ne => exact conceals_binary low .ne
  | lt => exact conceals_binary low .lt
  | le => exact conceals_binary low .le
  | gt => exact conceals_binary low .gt
  | ge => exact conceals_binary low .ge
  | jump => exact conceals_setPosition _
  | jumpIfFalse => exact conceals_jumpIf low false _
  | jumpIfTrue => exact conceals_jumpIf low true _
  | jumpIfFalseOrPop => exact conceals_jumpOrPop low false _
  | jumpIfTrueOrPop => exact conceals_jumpOrPop low true _
  | call => exact conceals_requireOperands _ _
  | ret | retUndefined => cases stays

omit low in
/-- What a function leaves behind lies below its callee. -/
theorem veiled_leaveFunction (base : Nat) (shown : value.Visible) :
    Ensures False (Veiled hidden) (leaveFunction base value)
      (fun _ => Veiled fun place => hidden place ∧ place < base - 1) (Veiled hidden) := by
  intro env veiled
  have left : { env.dropped (base - 1) with frames := env.frames.pop }.Veiled
      fun place => hidden place ∧ place < base - 1 := { veiled.dropped (base - 1) with }
  have pushed := conceals_push shown _ left
  rw [leaveFunction_eq]
  generalize push value _ = outcome at pushed
  obtain ⟨fault | _, after⟩ := outcome
  · exact ⟨pushed.1, pushed.2.mono fun _ => And.left⟩
  · exact pushed.2

/-- An instruction that leaves the function. -/
theorem veiled_leaving {instr : Instruction} (leaves : instr.op.leaves = true) :
    Ensures False (Veiled hidden) (execute activation instr)
      (fun _ => Veiled fun place => hidden place ∧ place < activation.base - 1) (Veiled hidden) := by
  obtain ⟨op, a, b⟩ := instr
  cases op with
  | ret =>
      exact ensures_bind (conceals_pop low) fun value env holds =>
        veiled_leaveFunction activation.base holds.1 env holds.2
  | retUndefined => exact veiled_leaveFunction activation.base rfl
  | _ => cases leaves

end

/-! ## Instructions that handle cells -/

section

variable {activation : Activation} {index : UInt16}

/-- A variable that is boxed has a cell in its place from then on. -/
theorem veiled_makeCell (elsewhere : ¬ hidden (activation.base + index.toNat)) :
    Ensures False (Veiled hidden) (makeCell activation index)
      (fun _ => Veiled fun place => hidden place ∨ place = activation.base + index.toNat)
      (Veiled hidden) := by
  refine ensures_atLocal (fun _ => id) (ensures_bind (conceals_replaceSlot elsewhere rfl)
    fun value env holds => ?_)
  have taken : Conceals hidden (Environment.onHeap (·.allocCell value)) fun _ => True :=
    conceals_onHeap (fun _ veiled => @Heap.Veiled.allocSized _ (.cell value) veiled _ holds.1)
      fun _ _ _ => trivial
  refine ensures_bind taken (fun cell env given => ?_) env holds.2
  have stored := replaceSlot_cases (activation.base + index.toNat) cell env
  rw [action_discard]
  obtain ⟨-, failed⟩ | ⟨old, -, done⟩ := stored
  · rw [failed]
    exact ⟨fun never => never.elim, given.2⟩
  · rw [done]
    exact (given.2.mono fun _ => .inl).setSlot (.inr (.inr rfl))

/-- A cell is put on top of the stack. -/
theorem veiled_pushCell {action : Action Handle} {top : Nat} (hides : hidden top)
    (looks : ∀ env, (action env).2 = env) :
    Ensures False (fun env => env.Veiled hidden ∧ env.stack.size = top)
      (do pushShared (.cell (← action)))
      (fun _ env => env.Veiled hidden ∧ env.stack.size = top + 1)
      (Veiled hidden) := by
  refine ensures_look looks (fun _ => And.left) fun cell env holds => ?_
  obtain ⟨veiled, rfl⟩ := holds
  have retained := veiled.retain (.cell cell)
  have size : (Environment.retain (.cell cell) env).2.stack.size =
      env.stack.size := rfl
  unfold pushShared
  rw [action_bind_ok (action_lift _ _), push_eq]
  generalize (Environment.retain (.cell cell) env).2 = middle at retained size
  rw [← size] at hides ⊢
  by_cases room : middle.stack.size < middle.config.stackSize
  · rw [if_pos room]
    exact ⟨retained.push (.inr hides), Array.size_push _⟩
  · rw [if_neg room]
    exact ⟨fun never => never.elim, retained.release _⟩

theorem veiled_pushing {instr : Instruction} {top : Nat} (hides : hidden top)
    (pushes : instr.op.pushesCell = true) :
    Ensures False (fun env => env.Veiled hidden ∧ env.stack.size = top)
      (execute activation instr)
      (fun _ env => env.Veiled hidden ∧ env.stack.size = top + 1)
      (Veiled hidden) := by
  obtain ⟨op, a, b⟩ := instr
  cases op with
  | pushCell => exact veiled_pushCell hides (localCell_looks activation a)
  | pushUpvalue => exact veiled_pushCell hides (upvalueCell_looks activation a)
  | _ => cases pushes

/-- The cells on top of the stack go into a closure, and are gone from the stack. -/
theorem veiled_makeClosure {top : Nat} (count : UInt16) :
    Ensures False
      (fun env => env.Veiled (fun place => hidden place ∨ top ≤ place) ∧
        env.stack.size = top + count.toNat)
      (makeClosure activation index count)
      (fun _ => Veiled hidden) (Veiled fun place => hidden place ∨ top ≤ place) := by
  refine ensures_look (fun env => ?_) (fun _ => And.left) fun _ env holds => ?_
  · rw [action_discard]
    cases activation.program.function? index <;> rfl
  obtain ⟨veiled, height⟩ := holds
  rw [action_bind]
  obtain ⟨-, failed⟩ | ⟨-, done⟩ := popMany_cases activation.floor count.toNat env
  · rw [failed]
    exact ⟨fun never => never.elim, veiled⟩
  rw [done]
  simp only
  generalize (env.stack.extract (env.stack.size - count.toNat)).toList = cells
  rw [height, Nat.add_sub_cancel]
  have left : { env with stack := env.stack.shrink top }.Veiled hidden :=
    (veiled.shrink top).mono fun _ holds => holds.1.resolve_right (Nat.not_le.mpr holds.2)
  have closes : Conceals hidden (Environment.onHeap (·.allocClosure ⟨activation.unit, index⟩
      cells.toArray) >>= push) fun _ => True :=
    conceals_bind (conceals_onHeap (fun _ veiled => @Heap.Veiled.allocSized _
      (.closure _ cells.toArray) veiled _ trivial)
        fun _ => @Heap.visible_asValue .closure (fun _ => rfl) _) fun _ => conceals_push
  have captures : Conceals hidden (do
      unless cells.all (·.isCell) do
        releaseAll cells
        throw .invalidOperand
      push (← Environment.onHeap (·.allocClosure ⟨activation.unit, index⟩ cells.toArray)))
        fun _ => True := by
    split
    · exact closes
    · exact conceals_bind conceals_releaseAll fun _ _ => conceals_throw
  exact captures.weaken (fun _ => id) (fun _ _ => And.right)
    (fun _ kept => kept.mono fun _ => Or.inl) _ left

end

end Environment

end PocketScript
