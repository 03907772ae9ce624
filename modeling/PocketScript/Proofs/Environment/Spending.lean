import PocketScript.Proofs.Environment.Budget
import PocketScript.Proofs.Environment.Requests

/-!
# Requests and calls keep to the budget

Whoever asks something of an environment, or calls a function, needs to know of the values that they
hand over that somebody keeps them. Then the environment stays as small as its configuration says, and
is balanced with what they own afterwards (`Environment.Solvent.answer`,
`Environment.ensures_enterHostCall`). Programs may be loaded that no compiler has made.
-/

namespace PocketScript

namespace Environment

variable {α β : Type} {config : Config} {env before middle after : Environment}
  {loose taken rest : List Reference} {value : Value}

/-! ## Requests and the heap -/

/-- The pools are the same, everything in them fits if it did before, and no program was loaded. -/
structure Contained (before after : Environment) : Prop where
  sound : before.heap.blocks.Sound → after.heap.blocks.Sound
  refits : before.heap.blocks.Sound → before.heap.Fitting → before.heap.Refits after.heap
  units : after.units = before.units
  used : after.codeUsed = before.codeUsed

theorem Contained.refl (env : Environment) : Contained env env :=
  ⟨id, fun _ fitting => ⟨rfl, fitting⟩, rfl, rfl⟩

theorem Contained.trans (one : Contained before middle) (two : Contained middle after) :
    Contained before after where
  sound := two.sound ∘ one.sound
  refits sound fitting :=
    have first := one.refits sound fitting
    first.trans (two.refits (one.sound sound) first.fitting)
  units := two.units.trans one.units
  used := two.used.trans one.used

/-- Nothing but the timers, the clock and what is written down is new. -/
theorem Contained.of_eq {timers : TimerList} {ticks : UInt32} {output : String}
    {log : Option (Array String)} : Contained before { before with timers, ticks, output, log } :=
  ⟨id, fun _ fitting => ⟨rfl, fitting⟩, rfl, rfl⟩

/-- The operation leaves the pools and the programs as they are. -/
def Containing (update : Update α) : Prop :=
  ∀ env, Contained env (update env).2

theorem containing_bind {first : Update α} {next : α → Update β} (one : Containing first)
    (two : ∀ value, Containing (next value)) : Containing (first >>= next) :=
  fun env => (one env).trans (two _ _)

theorem containing_pure (value : α) : Containing (pure value : Update α) := fun _ => .refl _

theorem containing_view {tell : Environment → α} : Containing (view tell : Update α) :=
  fun _ => .refl _

theorem containing_logLine (line : String) : Containing (logLine line) := fun _ => .of_eq

/-- Something is given up, or counted once more. -/
theorem containing_shrinks {change : Heap → Heap}
    (shrinks : ∀ heap, PoolSet.Shrinks heap.blocks (change heap).blocks) :
    Containing (updateHeap change) := fun env =>
  ⟨(shrinks env.heap).sound, fun sound fitting => fitting.refits sound (shrinks _), rfl, rfl⟩

theorem containing_forM {items : List α} {each : α → Update Unit}
    (one : ∀ item, Containing (each item)) : Containing (items.forM each) := by
  induction items with
  | nil => exact containing_pure ()
  | cons first rest ih => exact containing_bind (one first) fun _ => ih

/-- A timer gives up its block. -/
theorem containing_releaseTimer (timer : Timer) : Containing (releaseTimer timer) :=
  containing_bind (containing_shrinks fun _ => Heap.shrinks_release _ _) fun _ =>
    containing_bind (containing_shrinks fun _ => Heap.shrinks_release _ _) fun _ =>
      containing_shrinks fun _ => Heap.shrinks_releaseBlock _ _

/-- And so does one that is stopped. -/
theorem containing_stopTimer (id : UInt32) : Containing (stopTimer id) := by
  refine containing_bind containing_view fun timers => containing_bind (fun _ => .of_eq) fun _ => ?_
  split
  · exact containing_pure false
  · exact containing_bind (containing_releaseTimer _) fun _ =>
      containing_bind (containing_logLine _) fun _ => containing_pure true

/-- Or all of them. -/
theorem containing_stopTimers : Containing stopTimers := by
  refine containing_bind containing_view fun timers => containing_bind (fun _ => .of_eq) fun _ =>
    containing_bind (containing_forM containing_releaseTimer) fun _ => ?_
  split
  · exact containing_pure _
  · exact containing_bind (containing_logLine _) fun _ => containing_pure _

/-- Those that are due take no more room. -/
theorem containing_takeDue (now : UInt32) : Containing (takeDue now) := by
  refine containing_bind containing_view fun timers => containing_bind (fun _ => .of_eq) fun _ =>
    containing_bind (containing_forM fun due => ?_) fun _ => containing_pure _
  unfold retainDue
  split
  · exact containing_bind (containing_shrinks fun _ => Heap.shrinks_retain _ _) fun _ =>
      containing_shrinks fun _ => Heap.shrinks_retain _ _
  · exact containing_pure ()

/-- Nor when they are settled. -/
theorem containing_settle (due : DueTimer) : Containing (settle due) :=
  containing_bind (containing_shrinks fun _ => Heap.shrinks_release _ _) fun _ =>
    containing_bind (containing_shrinks fun _ => Heap.shrinks_release _ _) fun _ =>
      containing_forM fun _ => containing_shrinks fun _ => Heap.shrinks_releaseBlock _ _

/-- A block is taken, or it is noted in the log that there is none. -/
theorem contained_notingFullHeap {operation : Heap → Heap.Outcome α}
    (sound : ∀ heap : Heap, heap.blocks.Sound → (operation heap).2.blocks.Sound)
    (refits : ∀ heap : Heap, heap.blocks.Sound → heap.Fitting → heap.Refits (operation heap).2) :
    Contained env (notingFullHeap (onHeap operation) env).2 := by
  have here : Contained env (onHeap operation env).2 :=
    ⟨sound _, refits _, rfl, rfl⟩
  unfold notingFullHeap
  rw [action_tryCatch]
  generalize onHeap operation env = outcome at here
  obtain ⟨fault | result, after⟩ := outcome
  · exact here.trans ⟨id, fun _ fitting => ⟨rfl, fitting⟩, rfl, rfl⟩
  · exact here

theorem contained_allocString (text : String) :
    Contained env (Environment.allocString text env).2 :=
  contained_notingFullHeap (fun _ sound => Heap.sound_allocSized sound _ _)
    fun _ sound fitting => fitting.allocString sound text

theorem contained_startTimer (wait : UInt32) (callback : Value) (repeats : Bool) (param : Value) :
    Contained env (Environment.startTimer wait callback repeats param env).2 := by
  unfold Environment.startTimer
  split
  · have taken : Contained env
        (notingFullHeap (onHeap (·.allocTimer)) env).2 :=
      contained_notingFullHeap (fun _ sound => Heap.sound_allocSized sound _ _)
        fun _ sound fitting => fitting.allocTimer sound
    simp only
    rw [action_bind]
    generalize notingFullHeap (onHeap (·.allocTimer)) env = outcome at taken
    obtain ⟨fault | block, after⟩ := outcome
    · exact taken
    · refine taken.trans ?_
      have first := containing_shrinks (fun heap => Heap.shrinks_retain heap callback) after
      exact first.trans ((containing_shrinks (fun heap => Heap.shrinks_retain heap param) _).trans
        ⟨id, fun _ fitting => ⟨rfl, fitting⟩, rfl, rfl⟩)
  · exact .refl env

/-- A request that loads nothing. -/
theorem contained_answer (request : Request) (loads : ∀ program, request ≠ .load program) :
    Contained env (Environment.answer request env).2 := by
  cases request with
  | retain value => exact containing_shrinks (fun _ => Heap.shrinks_retain _ _) env
  | release value => exact containing_shrinks (fun _ => Heap.shrinks_release _ _) env
  | allocString text => exact contained_allocString text
  | startTimer wait callback repeats param => exact contained_startTimer wait callback repeats param
  | stopTimer id => exact containing_stopTimer id env
  | stopTimers => exact containing_stopTimers env
  | takeDue now => exact containing_takeDue now env
  | settle due => exact containing_settle due env
  | print | log => exact .of_eq
  | load program => exact absurd rfl (loads program)
  | textOf | display | ticks | hasTimer | compile => exact .refl env

theorem Modest.of_contained (modest : env.Modest config)
    (sound : env.heap.blocks.Sound) (contained : Contained env after)
    (backstage : Backstage env after) : after.Modest config where
  configured := backstage.config.trans modest.configured
  stack := backstage.stack ▸ modest.stack
  frames := backstage.frames ▸ modest.frames
  used := by
    rw [contained.used, programs, contained.units]
    exact modest.used
  code := contained.used ▸ modest.code
  pools := (contained.refits sound modest.fitting).shape.trans modest.pools
  fitting := (contained.refits sound modest.fitting).fitting

/-! ## Requests -/

theorem programs_loaded (env : Environment) (program : Program)
    (slots : Array (Option Nat)) :
    (env.units.push { program, slots }).map (·.program) =
      env.programs.push program := Array.map_push

/-- Any program may be loaded for which there is room. -/
theorem Solvent.load (solvent : env.Solvent config loose) (program : Program) :
    (Environment.load program env).2.Solvent config loose := by
  obtain ⟨modest, lost, balanced⟩ := solvent
  obtain ⟨fault, log, failed⟩ | ⟨room, done⟩ := load_cases program env
  · rw [failed]
    exact ⟨{ modest with }, lost, balanced⟩
  · rw [done]
    have pushed := programs_loaded env program (Array.replicate program.strings.size none)
    refine ⟨{ modest with used := ?_, code := ?_ }, lost, ?_⟩
    · change env.codeUsed + program.footprint = sumOver _ (Array.map _ _).toList
      rw [pushed, Array.toList_push, sumOver_append, ← modest.used, sumOver_cons, sumOver_nil]
      rfl
    · change env.codeUsed + program.footprint ≤ config.codeSpace
      rw [← modest.configured]
      exact room
    · exact Heap.Balanced.mono balanced
        (Rules.typed_stricter fun _ _ _ never => never.elim)

/-- A request is answered. Whether or not a loaded program is a verified one, the answer to any other
request is a fair one. -/
theorem Solvent.answer {borrowed : List Value} (request : Request)
    (solvent : env.Solvent config (request.takes ++ rest))
    (there : ∀ value ∈ borrowed, value ∈ env.stack)
    (covers : ∀ value ∈ request.reads, Covers (rest ++ borrowed.map .value) value) :
    (request.IsSound → request.Fair (Environment.answer request env).1) ∧
      (Environment.answer request env).2.Solvent config
        (request.gives (Environment.answer request env).1 ++ rest) := by
  have backstage := backstage_answer request env
  have loaded : ∀ program, request = .load program →
      (Environment.answer request env).2.Solvent config
        (request.gives (Environment.answer request env).1 ++ rest) := by
    rintro program rfl
    have kept : (Environment.load program env).2.Solvent config rest := solvent.load program
    change (Environment.load program env).2.Solvent config
      (Request.gives (.load program) (Environment.load program env).1 ++ rest)
    cases (Environment.load program env).1 with
    | error fault => exact kept
    | ok unit => exact kept.add rfl
  by_cases sound : request.IsSound
  · obtain ⟨lost, balanced⟩ := solvent.balanced
    have all : ∀ value ∈ request.reads,
        Covers (rest ++ (env.stack.toList.map .value ++ lost)) value := by
      intro value member
      refine (covers value member).imp (fun kept => ?_) id
      rcases List.mem_append.mp kept with here | lent
      · exact List.mem_append_left _ here
      · obtain ⟨other, among, same⟩ := List.mem_map.mp lent
        injection same with same
        subst same
        exact List.mem_append_right _ (List.mem_append_left _
          (List.mem_map_of_mem (Array.mem_toList_iff.mpr (there other among))))
    obtain ⟨fair, -, -, -, balanced'⟩ := served_answer request sound all
      ⟨rfl, balanced.perm (.of_eq (List.append_assoc _ _ _))⟩
    refine ⟨fun _ => fair, ?_⟩
    by_cases loads : ∃ program, request = .load program
    · obtain ⟨program, same⟩ := loads
      exact loaded program same
    · refine ⟨solvent.modest.of_contained solvent.sound (contained_answer request fun program same =>
        loads ⟨program, same⟩) backstage, lost, ?_⟩
      rw [backstage.stack, List.append_assoc]
      exact balanced'
  · refine ⟨fun holds => absurd holds sound, ?_⟩
    cases request with
    | load program => exact loaded program rfl
    | _ => exact absurd trivial sound

/-- When no block can be taken, that is noted in the log. -/
theorem spends_notingFullHeap {given : α → List Reference} {action : Action α}
    (spends : Spends config loose taken action given) :
    Spends config loose taken (notingFullHeap action) given := by
  intro env solvent
  have here := spends env solvent
  unfold notingFullHeap
  rw [action_tryCatch]
  generalize action env = outcome at here
  obtain ⟨fault | result, after⟩ := outcome
  · obtain ⟨modest, balanced⟩ := here.2
    exact ⟨fun never => never.elim, { modest with }, balanced⟩
  · exact here

/-- New foreign data is a loose reference. -/
theorem spends_allocForeign (text : String) (hostHandle : Nat) :
    Spends config loose [] (Environment.allocForeign text hostHandle) fun value => [.value value] :=
  spends_notingFullHeap (spends_onHeap
    (fun _ _ _ balanced => Heap.Balanced.allocForeign balanced text hostHandle)
    fun _ _ _ fitting balanced => fitting.allocForeign balanced.sound text hostHandle)

theorem Solvent.setTimers (solvent : env.Solvent config loose) {timers : TimerList}
    {other : List Reference}
    (same : (loose ++ env.timers.timers.flatMap Timer.references).Perm
      (other ++ timers.timers.flatMap Timer.references)) :
    { env with timers }.Solvent config other := by
  obtain ⟨modest, lost, balanced⟩ := solvent
  refine ⟨{ modest with }, lost, Heap.Balanced.perm balanced (perm_of_count fun reference => ?_)⟩
  have counts := same.count_eq reference
  simp only [kept, List.count_append] at counts ⊢
  omega

/-- A timer gets a block, a function and a parameter. -/
theorem Solvent.addTimer {block : Handle} {callback param : Value}
    (solvent : env.Solvent config (.timer block :: loose))
    (supplied : env.Supplied loose [callback, param]) (wait : UInt32) (repeats : Bool) :
    { (Environment.retain param (Environment.retain callback env).2).2 with
      timers := (env.timers.start
        { id := 0, wait, origin := env.ticks, repeats, callback, param, block }).2 }.Solvent
          config loose := by
  have first := solvent.retain (solvent.knows
    ((supplied callback List.mem_cons_self).imp (List.mem_cons_of_mem _) id))
  have second := first.retain (first.knows
    ((supplied param (List.mem_cons_of_mem _ List.mem_cons_self)).imp
      (fun here => List.mem_cons_of_mem _ (List.mem_cons_of_mem _ here)) id))
  refine second.setTimers (perm_of_count fun reference => ?_)
  change List.count reference (_ ++ env.timers.timers.flatMap Timer.references) = _
  simp only [TimerList.start, Timer.references, List.flatMap_append, List.flatMap_cons,
    List.flatMap_nil, List.append_nil, List.count_append, List.count_cons, List.count_nil]
  omega

/-- A timer is started with a function and a parameter that somebody keeps. -/
theorem ensures_startTimer (wait : UInt32) (repeats : Bool) (callback param : Value) :
    Ensures False (fun env => env.Solvent config loose ∧
        env.Supplied loose [callback, param])
      (Environment.startTimer wait callback repeats param)
      (fun _ => Solvent config loose) (Solvent config loose) := by
  intro env ⟨solvent, supplied⟩
  unfold Environment.startTimer
  by_cases able : callback.isFunction = true
  case neg =>
    rw [if_neg able]
    exact ⟨fun never => never.elim, solvent⟩
  rw [if_pos able]
  have spends : Spends config loose [] (notingFullHeap (Environment.onHeap (·.allocTimer)))
      fun block => [.timer block] :=
    spends_notingFullHeap (spends_onHeap (fun _ _ _ balanced => Heap.Balanced.allocTimer balanced)
      fun _ _ _ fitting balanced => fitting.allocTimer balanced.sound)
  have taken := spends env solvent
  have still : (notingFullHeap (Environment.onHeap (·.allocTimer)) env).2.Supplied
      loose [callback, param] := by
    unfold notingFullHeap Environment.onHeap
    rw [action_tryCatch]
    dsimp only
    generalize env.heap.allocTimer = outcome
    obtain ⟨fault | block, heap⟩ := outcome <;> exact supplied
  simp only
  rw [action_bind]
  generalize notingFullHeap (Environment.onHeap (·.allocTimer)) env = outcome at taken still
  obtain ⟨fault | block, middle⟩ := outcome
  · exact taken
  · obtain ⟨modest, balanced⟩ := taken.addTimer still wait repeats
    exact ⟨{ modest with }, balanced⟩

/-! ## Calls -/

/-- The variables of a function are laid out where there is room. -/
theorem Solvent.laidOut (solvent : env.Solvent config loose) {base argCount varCount : Nat}
    (few : argCount ≤ varCount) (room : base + varCount ≤ config.stackSize) :
    (env.laidOut base argCount varCount).Solvent config loose := by
  have released : (Environment.releaseAll (env.stack.extract (base + argCount)).toList.reverse
      { env with stack := env.stack.shrink (base + argCount) }).2.Solvent config
        loose :=
    Solvent.releaseAll (Solvent.perm (solvent.takeFrom (base + argCount))
      (((List.reverse_perm _).symm.map Reference.value).append_right _))
  have blockless : ∀ count, (Environment.releaseAll (env.stack.extract (base + argCount)).toList.reverse
      { env with stack := env.stack.shrink (base + argCount) }).2.Solvent config
        ((List.replicate count Value.undefined).map .value ++ loose) := by
    intro count
    induction count with
    | zero => exact released
    | succ count ih => exact Solvent.add ih rfl
  refine Solvent.setStack (blockless (base + varCount -
    (env.stack.shrink (base + argCount)).size)) ?_ (perm_of_count fun reference => ?_)
  · rw [Array.size_append, Array.size_replicate, Array.size_shrink]
    omega
  · change List.count reference (_ ++ List.map _ (env.stack.shrink (base + argCount)).toList) =
      List.count reference (_ ++ List.map _ (env.stack.shrink (base + argCount) ++ _).toList)
    rw [Array.toList_append, Array.toList_replicate]
    simp only [List.map_append, List.count_append]
    omega

/-- To enter a function takes nothing that is not on the stack. -/
theorem spends_enterFunction (target : FunctionRef) (closure : Option Handle) (place : Nat) :
    Spends config loose [] (enterFunction target closure place) fun _ => [] := by
  intro env solvent
  have kept : env.Solvent config loose := solvent
  have configured := kept.modest.configured
  have refused : ∀ fault : Fault, (False → fault.isOrdinary = true) ∧
      env.Solvent config loose := fun _ => ⟨fun never => never.elim, kept⟩
  rw [enterFunction_eq, configured]
  by_cases shallow : env.frames.size < config.maxCallDepth
  case neg =>
    rw [if_neg shallow]
    exact refused _
  rw [if_pos shallow]
  cases env.function? target with
  | none => exact refused _
  | some function =>
      simp only
      by_cases few : function.varCount.toNat < function.argCount.toNat
      · rw [if_pos few]
        exact refused _
      · rw [if_neg few]
        by_cases full : config.stackSize <
            place + 1 + function.varCount.toNat + function.stackHigh.toNat
        · rw [if_pos full]
          exact refused _
        · rw [if_neg full]
          refine Solvent.setFrames (kept.laidOut (Nat.le_of_not_lt few) (by omega)) ?_
          rw [Array.size_push]
          exact shallow

/-- Whether a call makes a frame or is one of a native function. -/
theorem spends_enterCall (argCount : Nat) :
    Spends config loose [] (enterCall argCount) fun _ => [] := by
  refine ensures_view fun depth => ?_
  split
  · exact ensures_throw (fun never => never.elim) fun _ holds => holds.1
  refine Ensures.weaken (ensures_seen (ensures_slot _) fun callee => ?_) (fun _ holds => holds.1)
    (fun _ _ => id) fun _ => id
  refine Ensures.weaken (?_ : Spends config loose [] _ fun _ => []) (fun _ holds => holds.1)
    (fun _ _ => id) fun _ => id
  cases callee with
  | function target => exact spends_bind (spends_enterFunction _ _ _) fun _ => spends_pure rfl
  | closure block =>
      refine spends_view fun target => ?_
      cases target with
      | none => exact spends_throw
      | some target => exact spends_bind (spends_enterFunction _ _ _) fun _ => spends_pure rfl
  | native id =>
      refine spends_view fun native => ?_
      cases native with
      | none => exact spends_throw
      | some native => exact spends_view fun args => spends_pure rfl
  | _ => exact spends_throw

/-- A native function is called with the values that lie above it. -/
theorem enterCall_native {argCount place : Nat} {program : Host (Except Fault Value)}
    (entered : enterCall argCount env = (.ok (.native program place), after)) :
    after = env ∧ ∃ native ∈ env.natives,
      program = (native.run (env.stack.extract (place + 1)).toList).run := by
  rw [enterCall_eq] at entered
  split at entered
  · cases entered
  simp only at entered
  split at entered
  · generalize enterFunction _ _ _ env = outcome at entered
    obtain ⟨_ | _, _⟩ := outcome <;> cases entered
  · split at entered
    · cases entered
    · generalize enterFunction _ _ _ env = outcome at entered
      obtain ⟨_ | _, _⟩ := outcome <;> cases entered
  · split at entered
    · cases entered
    · rename_i native there
      cases entered
      exact ⟨rfl, native, Array.mem_of_getElem? there, rfl⟩
  · cases entered
  · cases entered

/-- The callee and the arguments are kept by somebody. -/
theorem ensures_enterHostCall (callee : Value) (args : List Value) :
    Ensures False (fun env => env.Solvent config loose ∧
        env.Supplied loose (callee :: args)) (enterHostCall callee args)
      (fun _ => Solvent config loose) (Solvent config loose) := by
  have all : ∀ values, Ensures False (fun env => env.Solvent config loose ∧
      env.Supplied loose values) (values.forM pushShared)
      (fun _ => Solvent config loose) (Solvent config loose) := by
    intro values
    induction values with
    | nil => exact ensures_pure fun _ holds => holds.1
    | cons value rest ih => exact ensures_bind ensures_pushSupplied fun _ => ih
  intro env holds
  rw [enterHostCall_eq]
  by_cases able : callee.isFunction = true
  case neg =>
    rw [if_neg able]
    exact ⟨fun never => never.elim, holds.1⟩
  rw [if_pos able]
  by_cases full : env.config.stackSize < env.stack.size + (args.length + 1)
  · rw [if_pos full]
    exact ⟨fun never => never.elim, holds.1⟩
  · rw [if_neg full]
    have pushed := all (callee :: args) env holds
    rw [pushAll_eq (callee :: args) env (by rw [List.length_cons]; omega)] at pushed
    exact spends_enterCall args.length _ pushed

/-- The result of a native function takes the place of its callee. -/
theorem spends_leaveNative (place : Nat) (result : Except Fault Value) :
    Spends config loose (result.toOption.toList.map .value) (leaveNative place result) fun _ => [] := by
  intro env solvent
  rw [leaveNative_eq]
  have dropped := Solvent.dropped solvent place
  cases result with
  | ok value => exact spends_push _ dropped
  | error fault => exact ⟨fun never => never.elim, dropped⟩

/-- What a call has left behind is given up. -/
theorem Solvent.unwind (solvent : env.Solvent config loose) (frames depth : Nat) :
    (Environment.unwind frames depth env).2.Solvent config loose := by
  rw [unwind_eq]
  refine Solvent.setFrames (solvent.dropped depth) ?_
  have few := solvent.modest.frames
  rw [Array.size_shrink]
  omega

end Environment

end PocketScript
