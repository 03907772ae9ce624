import PocketScript.Proofs.Environment.Spending
import PocketScript.Proofs.Environment.Veiled

/-!
# Requests and calls keep cells out of sight

What a host or a native function asks for is answered with visible values, as long as it hands over
nothing else (`Environment.Veiled.answer`). When a call is entered, its arguments are visible, and when
it is left, so is its result.
-/

namespace PocketScript

variable {α β : Type}

/-- A native function that is entered handles visible values only. -/
def EnteredCall.IsVisible : EnteredCall → Prop
  | script => True
  | native program _ => program.IsVisible Shows

namespace Environment

variable {env : Environment} {hidden : Nat → Prop} {value : Value} {base argCount : Nat}

/-! ## Requests -/

/-- The update leaves cells where they are hidden. -/
def Veils (hidden : Nat → Prop) (update : Update α) : Prop :=
  ∀ env, env.Veiled hidden → (update env).2.Veiled hidden

theorem veils_bind {first : Update α} {next : α → Update β} (one : Veils hidden first)
    (two : ∀ result, Veils hidden (next result)) : Veils hidden (first >>= next) :=
  fun env veiled => two _ _ (one env veiled)

theorem veils_pure (result : α) : Veils hidden (pure result : Update α) := fun _ => id

/-- The log holds no values. -/
theorem veils_logLine (line : String) : Veils hidden (logLine line) :=
  fun _ veiled => { veiled with }

/-- Something is given up, or counted once more. -/
theorem veils_shrinks {change : Heap → Heap}
    (shrinks : ∀ heap, PoolSet.Shrinks heap.blocks (change heap).blocks) :
    Veils hidden (updateHeap change) := fun env veiled =>
  veiled.shrunk (shrinks env.heap)

theorem veils_forM {items : List α} {each : α → Update Unit}
    (one : ∀ item, Veils hidden (each item)) : Veils hidden (items.forM each) := by
  induction items with
  | nil => exact veils_pure ()
  | cons first rest ih => exact veils_bind (one first) fun _ => ih

/-- What a timer kept is released. -/
theorem veils_releaseTimer (timer : Timer) : Veils hidden (releaseTimer timer) :=
  veils_bind (veils_shrinks fun _ => Heap.shrinks_release _ _) fun _ =>
    veils_bind (veils_shrinks fun _ => Heap.shrinks_release _ _) fun _ =>
      veils_shrinks fun _ => Heap.shrinks_releaseBlock _ _

/-- Or retained while it is due. -/
theorem veils_retainDue (due : DueTimer) : Veils hidden (retainDue due) := by
  unfold retainDue
  split
  · exact veils_bind (veils_shrinks fun _ => Heap.shrinks_retain _ _) fun _ =>
      veils_shrinks fun _ => Heap.shrinks_retain _ _
  · exact veils_pure ()

/-- And released afterwards. -/
theorem veils_settle (due : DueTimer) : Veils hidden (settle due) :=
  veils_bind (veils_shrinks fun _ => Heap.shrinks_release _ _) fun _ =>
    veils_bind (veils_shrinks fun _ => Heap.shrinks_release _ _) fun _ =>
      veils_forM fun _ => veils_shrinks fun _ => Heap.shrinks_releaseBlock _ _

namespace Veiled

/-- The timers that there are then keep visible values. -/
theorem setTimers (veiled : env.Veiled hidden) {timers : TimerList}
    (visible : ∀ timer ∈ timers.timers, timer.callback.Visible ∧ timer.param.Visible) :
    { env with timers }.Veiled hidden :=
  { veiled with timers := visible }

/-- A timer that is stopped is taken away. -/
theorem stopTimer (veiled : env.Veiled hidden) (id : UInt32) :
    (Environment.stopTimer id env).2.Veiled hidden := by
  have stopped : { env with timers := (env.timers.stop id).2 }.Veiled hidden :=
    veiled.setTimers fun timer member => veiled.timers timer (List.mem_of_mem_eraseP member)
  unfold Environment.stopTimer
  rw [update_bind, update_view]
  simp only
  rw [update_bind]
  generalize (env.timers.stop id).1 = timer
  cases timer with
  | none => exact stopped
  | some timer =>
      exact veils_bind (veils_releaseTimer timer)
        (fun _ => veils_bind (veils_logLine _) fun _ => veils_pure true) _ stopped

/-- And so are all of them. -/
theorem stopTimers (veiled : env.Veiled hidden) :
    (Environment.stopTimers env).2.Veiled hidden := by
  have stopped : { env with timers := env.timers.stopAll.2 }.Veiled hidden :=
    veiled.setTimers fun timer none => absurd none List.not_mem_nil
  unfold Environment.stopTimers
  rw [update_bind, update_view]
  simp only
  rw [update_bind]
  refine veils_bind (veils_forM veils_releaseTimer) (fun _ => ?_) _ stopped
  split
  · exact veils_pure _
  · exact veils_bind (veils_logLine _) fun _ => veils_pure _

/-- What is taken of a timer was visible in it, and so is what is left of it. -/
theorem takeDue (veiled : env.Veiled hidden) (now : UInt32) :
    (∀ due ∈ (Environment.takeDue now env).1,
        due.callback.Visible ∧ due.param.Visible) ∧
      (Environment.takeDue now env).2.Veiled hidden := by
  constructor
  · intro due member
    obtain ⟨timer, there, taken⟩ := List.mem_filterMap.mp
      (show due ∈ env.timers.timers.filterMap (·.due? now) from member)
    unfold Timer.due? at taken
    split at taken
    · cases taken
      exact veiled.timers timer there
    · cases taken
  · have taken : { env with timers := (env.timers.takeDue now).2 }.Veiled hidden := by
      refine veiled.setTimers fun timer member => ?_
      obtain ⟨before, there, left⟩ := List.mem_filterMap.mp member
      unfold Timer.remaining? at left
      split at left
      · split at left
        · cases left
          exact veiled.timers before there
        · cases left
      · cases left
        exact veiled.timers _ there
    exact veils_bind (veils_forM veils_retainDue) (fun _ => veils_pure _) _ taken

/-- A compiled program may be loaded. -/
theorem load (veiled : env.Veiled hidden) {program : Program} (compiled : program.IsCompiled) :
    (Environment.load program env).2.Veiled hidden := by
  obtain ⟨fault, log, failed⟩ | ⟨-, done⟩ := load_cases program env
  · rw [failed]
    exact { veiled with }
  · rw [done]
    refine { veiled with programs := fun other member => ?_ }
    have pushed := programs_loaded env program (Array.replicate program.strings.size none)
    change other ∈ (env.units.push
      { program, slots := Array.replicate program.strings.size none }).map (·.program) at member
    rw [pushed] at member
    rcases Array.mem_push.mp member with old | rfl
    · exact veiled.programs other old
    · exact compiled

end Veiled

/-- And what is compiled from a text is one. -/
theorem isCompiled_compile {source : Source} {program : Program}
    (compiled : env.compile source = .ok program) : program.IsCompiled := by
  unfold Environment.compile at compiled
  generalize ran : PocketScript.compile _ _ _ = outcome at compiled
  cases outcome with
  | error error => cases compiled
  | ok result =>
      cases compiled
      exact ⟨_, _, _, ran⟩

/-- A full heap is noted in the log. -/
theorem conceals_notingFullHeap {action : Action α} {shows : α → Prop}
    (conceals : Conceals hidden action shows) : Conceals hidden (notingFullHeap action) shows :=
  conceals_tryCatch conceals fun _ => conceals_bind
    (conceals_update fun _ veiled => { veiled with }) fun _ _ => conceals_throw

/-- Foreign data is visible. -/
theorem conceals_allocForeign (text : String) (hostHandle : Nat) :
    Conceals hidden (allocForeign text hostHandle) Value.Visible :=
  conceals_notingFullHeap (conceals_onHeap
    (fun _ veiled => @Heap.Veiled.allocSized _ (.foreign text hostHandle) veiled _ trivial)
      fun _ => @Heap.visible_asValue .foreign (fun _ => rfl) _)

/-- A timer is started with visible values. -/
theorem conceals_startTimer (wait : UInt32) (repeats : Bool) {callback param : Value}
    (visible : callback.Visible ∧ param.Visible) :
    Conceals hidden (startTimer wait callback repeats param) fun _ => True := by
  unfold startTimer
  split
  · refine conceals_bind (conceals_notingFullHeap (conceals_onHeap
      (fun _ veiled => @Heap.Veiled.allocSized _ .timer veiled _ trivial) fun _ _ _ => trivial))
      fun block _ env veiled => ?_
    rw [action_bind, action_lift]
    simp only
    rw [action_bind, action_lift]
    simp only
    rw [action_bind_ok (action_view _ _), action_bind_ok (action_view _ _)]
    refine ⟨trivial, veils_logLine _ _ (((veiled.retain callback).retain param).setTimers
      fun timer member => ?_)⟩
    rcases List.mem_append.mp member with old | new
    · exact veiled.timers timer old
    · rw [List.mem_singleton.mp new]
      exact visible
  · exact conceals_throw

/-- Whatever is asked for is answered with visible values, and nothing else is kept. -/
theorem Veiled.answer (request : Request) (visible : request.IsVisible)
    (veiled : env.Veiled hidden) :
    request.Reveals (answer request env).1 ∧
      (Environment.answer request env).2.Veiled hidden := by
  cases request with
  | retain value => exact ⟨trivial, veiled.retain value⟩
  | release value => exact ⟨trivial, veiled.release value⟩
  | allocString text =>
      exact (outcome_concealed (conceals_notingFullHeap (conceals_allocString text)) veiled).symm
  | startTimer wait callback repeats param =>
      exact ⟨trivial, (outcome_concealed (conceals_startTimer wait repeats visible) veiled).1⟩
  | stopTimer id => exact ⟨trivial, veiled.stopTimer id⟩
  | stopTimers => exact ⟨trivial, veiled.stopTimers⟩
  | takeDue now => exact veiled.takeDue now
  | settle due => exact ⟨trivial, veils_settle due env veiled⟩
  | print | log => exact ⟨trivial, { veiled with }⟩
  | compile source =>
      refine ⟨?_, veiled⟩
      change Request.Reveals (.compile source) (env.compile source)
      cases compiled : env.compile source with
      | error diagnostic => trivial
      | ok program => exact isCompiled_compile compiled
  | load program => exact ⟨trivial, veiled.load visible⟩
  | textOf | display | ticks | hasTimer => exact ⟨trivial, veiled⟩

/-! ## Calls -/

/-- The variables of a function are its arguments, and undefined otherwise. -/
theorem Veiled.laidOut (veiled : env.Veiled hidden) (base argCount varCount : Nat) :
    (env.laidOut base argCount varCount).Veiled hidden := by
  have released : { env with
      stack := env.stack.shrink (base + argCount)
      heap := env.heap.releaseAll
        (env.stack.extract (base + argCount)).toList.reverse }.Veiled hidden :=
    ((veiled.shrink (base + argCount)).mono fun _ => And.left).shrunk (Heap.shrinks_releaseAll _ _)
  refine { released with stack := fun place block there => ?_ }
  rw [stack_laidOut, Array.getElem?_append] at there
  split at there
  · exact released.stack place block there
  · rw [Array.getElem?_replicate] at there
    split at there <;> cases there

theorem conceals_enterFunction (target : FunctionRef) (closure : Option Handle) (callee : Nat) :
    Conceals hidden (enterFunction target closure callee) fun _ => True := by
  intro env veiled
  obtain ⟨fault, failed⟩ | ⟨function, -, done⟩ :=
    enterFunction_cases target closure callee env
  · rw [failed]
    exact ⟨fun never => never.elim, veiled⟩
  · rw [done]
    exact ⟨trivial, { veiled.laidOut _ _ _ with }⟩

/-- The value in a place of the stack is called with the ones above it, all of which are visible. -/
theorem conceals_enterCall :
    Ensures False
      (fun env => env.Veiled hidden ∧
        ∀ place, hidden place → place + argCount < env.stack.size)
      (enterCall argCount) (fun entered env => entered.IsVisible ∧ env.Veiled hidden)
      (Veiled hidden) := by
  rintro env ⟨veiled, low⟩
  have fails (fault : Fault) : (False → fault.isOrdinary = true) ∧ env.Veiled hidden :=
    ⟨fun never => never.elim, veiled⟩
  rw [enterCall_eq]
  by_cases few : env.stack.size < argCount + 1
  · rw [if_pos few]
    exact fails _
  rw [if_neg few]
  simp only
  generalize same : env.stack.size - (argCount + 1) = callee
  cases env.stack[callee]? with
  | none => exact fails _
  | some value =>
      cases value with
      | function target =>
          have entered := conceals_enterFunction target none callee env veiled
          simp only
          generalize enterFunction target none callee env = outcome at entered
          obtain ⟨fault | _, after⟩ := outcome <;> exact entered
      | closure block =>
          simp only
          cases env.heap.closureTarget? block with
          | none => exact fails _
          | some target =>
              have entered := conceals_enterFunction target (some block) callee env veiled
              simp only
              generalize enterFunction target (some block) callee env = outcome at entered
              obtain ⟨fault | _, after⟩ := outcome <;> exact entered
      | native id =>
          simp only
          cases found : env.natives[id]? with
          | none => exact fails _
          | some native =>
              refine ⟨veiled.natives native (Array.mem_of_getElem? found) _ fun arg member => ?_, veiled⟩
              obtain ⟨index, there⟩ := Array.mem_iff_getElem?.mp (Array.mem_toList_iff.mp member)
              rw [Array.getElem?_extract] at there
              split at there
              · refine veiled.visible there fun inside => ?_
                have := low _ inside
                omega
              · cases there
      | _ => exact fails _

/-- Visible values are put on the stack. -/
theorem Veiled.sharing : ∀ {values : List Value} {env : Environment},
    env.Veiled hidden → (∀ value ∈ values, value.Visible) →
      (env.sharing values).Veiled hidden
  | [], _, veiled, _ => by
      rw [sharing_nil]
      exact veiled
  | value :: rest, env, veiled, visible => by
      rw [sharing_cons]
      have first : (env.sharing [value]).Veiled hidden := by
        have pushed := (veiled.retain value).push (.inl (visible value List.mem_cons_self))
        exact pushed
      exact first.sharing fun other member => visible other (List.mem_cons_of_mem _ member)

/-- A call from outside. -/
theorem conceals_enterHostCall {callee : Value} {args : List Value}
    (visible : ∀ value ∈ callee :: args, value.Visible) :
    Ensures False
      (fun env => env.Veiled hidden ∧
        ∀ place, hidden place → place < env.stack.size)
      (enterHostCall callee args)
      (fun entered env => entered.IsVisible ∧ env.Veiled hidden)
      (Veiled hidden) := by
  rintro env ⟨veiled, low⟩
  rw [enterHostCall_eq]
  by_cases callable : callee.isFunction = true
  · rw [if_pos callable]
    by_cases full : env.config.stackSize < env.stack.size + (args.length + 1)
    · rw [if_pos full]
      exact ⟨fun never => never.elim, veiled⟩
    · rw [if_neg full]
      refine conceals_enterCall _ ⟨veiled.sharing visible, fun place inside => ?_⟩
      have below := low place inside
      have grown : (env.sharing (callee :: args)).stack.size =
          env.stack.size + (args.length + 1) := Array.size_append
      omega
  · rw [if_neg callable]
    exact ⟨fun never => never.elim, veiled⟩

/-- A native function leaves nothing on the stack but its result. -/
theorem conceals_leaveNative {result : Except Fault Value} (callee : Nat) (shows : Shows result) :
    Conceals hidden (leaveNative callee result) fun _ => True := by
  intro env veiled
  have left : (env.dropped callee).Veiled hidden :=
    (veiled.dropped callee).mono fun _ => And.left
  rw [leaveNative_eq]
  cases result with
  | error fault => exact ⟨fun never => never.elim, left⟩
  | ok value => exact conceals_push (shows value rfl) _ left

/-- What a call leaves behind that fails lies below the place where it began. -/
theorem Veiled.unwind (veiled : env.Veiled hidden) (frames depth : Nat) :
    (Environment.unwind frames depth env).2.Veiled fun place =>
      hidden place ∧ place < depth := by
  rw [unwind_eq]
  exact { veiled.dropped depth with }

end Environment

end PocketScript
