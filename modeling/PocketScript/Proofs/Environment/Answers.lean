import PocketScript.Proofs.Environment.Stepping

/-!
# What requests leave alone

Whatever a host asks of an environment apart from calls, it cannot reach the stacks: they are the same
behind every answer, every function that was known still is, and the notes on globals stay good
(`Environment.backstage_answer`).
-/

namespace PocketScript

namespace Environment

variable {α β : Type} {before middle after : Environment}

/-- The stacks are the same, and what was loaded is still there. -/
structure Backstage (before after : Environment) : Prop where
  stack : after.stack = before.stack
  frames : after.frames = before.frames
  config : after.config = before.config
  natives : after.natives = before.natives
  globals : after.globals = before.globals
  programs : ∀ (unit : Nat) program, before.programs[unit]? = some program →
    after.programs[unit]? = some program
  notes : before.NotesInBounds → after.NotesInBounds

theorem Backstage.functions (backstage : Backstage before after) (target : FunctionRef)
    (function : FunctionDef) (known : before.function? target = some function) :
    after.function? target = some function := by
  rw [function?_eq] at known ⊢
  obtain ⟨program, loaded, found⟩ := Option.bind_eq_some_iff.mp known
  rw [backstage.programs _ _ loaded]
  exact found

theorem Backstage.trans (one : Backstage before middle) (two : Backstage middle after) :
    Backstage before after :=
  ⟨two.stack.trans one.stack, two.frames.trans one.frames, two.config.trans one.config,
    two.natives.trans one.natives, two.globals.trans one.globals,
    fun _ _ known => two.programs _ _ (one.programs _ _ known), two.notes ∘ one.notes⟩

/-- Nothing but the heap, the timers, the clock and what is written down is new. -/
theorem Backstage.of_eq {heap : Heap} {timers : TimerList} {ticks : UInt32} {output : String}
    {log : Option (Array String)} :
    Backstage before { before with heap, timers, ticks, output, log } :=
  ⟨rfl, rfl, rfl, rfl, rfl, fun _ _ => id, id⟩

/-- Or not at all. -/
theorem Backstage.refl (env : Environment) : Backstage env env :=
  ⟨rfl, rfl, rfl, rfl, rfl, fun _ _ => id, id⟩

/-- The operation cannot reach the stacks. -/
def Discreet (update : Update α) : Prop :=
  ∀ env, Backstage env (update env).2

theorem discreet_bind {first : Update α} {next : α → Update β} (one : Discreet first)
    (two : ∀ value, Discreet (next value)) : Discreet (first >>= next) :=
  fun env => (one env).trans (two _ _)

theorem discreet_pure (value : α) : Discreet (pure value : Update α) := fun _ => .refl _

theorem discreet_view {tell : Environment → α} : Discreet (view tell : Update α) := fun _ => .refl _

/-- The heap may change. -/
theorem discreet_updateHeap (change : Heap → Heap) : Discreet (updateHeap change) := fun _ => .of_eq

/-- And so may the log. -/
theorem discreet_logLine (line : String) : Discreet (logLine line) := fun _ => .of_eq

theorem discreet_forM {items : List α} {each : α → Update Unit} (one : ∀ item, Discreet (each item)) :
    Discreet (items.forM each) := by
  induction items with
  | nil => exact discreet_pure ()
  | cons first rest ih => exact discreet_bind (one first) fun _ => ih

/-! ## Actions -/

theorem discreetAction_bind {first : Action α} {next : α → Action β} (one : Discreet first.run)
    (two : ∀ value, Discreet (next value).run) : Discreet (first >>= next).run := by
  intro env
  have here : Backstage env (first env).2 := one env
  change Backstage env ((first >>= next) env).2
  rw [action_bind]
  generalize first env = outcome at here
  obtain ⟨fault | value, middle⟩ := outcome
  · exact here
  · exact here.trans (two value middle)

theorem discreetAction_lift {update : Update α} (discreet : Discreet update) :
    Discreet (liftM update : Action α).run :=
  fun env => discreet env

/-- A fault changes nothing. -/
theorem discreetAction_throw (fault : Fault) : Discreet (throw fault : Action α).run :=
  fun _ => .refl _

theorem discreetAction_pure (value : α) : Discreet (pure value : Action α).run := fun _ => .refl _

theorem discreetAction_view {tell : Environment → α} : Discreet (view tell : Action α).run :=
  fun _ => .refl _

theorem discreetAction_onHeap (operation : Heap → Heap.Outcome α) :
    Discreet (onHeap operation).run :=
  fun _ => .of_eq

theorem discreet_logFullHeap : Discreet logFullHeap :=
  discreet_bind discreet_view fun _ => discreet_logLine _

theorem discreet_notingFullHeap {action : Action α} (discreet : Discreet action.run) :
    Discreet (notingFullHeap action).run := by
  intro env
  have here : Backstage env (action env).2 := discreet env
  change Backstage env ((tryCatch action _ : Action α) env).2
  rw [action_tryCatch]
  generalize action env = outcome at here
  obtain ⟨fault | value, after⟩ := outcome
  · exact here.trans (discreetAction_bind (discreetAction_lift discreet_logFullHeap)
      (fun _ => discreetAction_throw fault) after)
  · exact here

/-- A timer that is started shows on no stack. -/
theorem discreet_startTimer (wait : UInt32) (callback : Value) (repeats : Bool) (param : Value) :
    Discreet (startTimer wait callback repeats param).run := by
  unfold startTimer
  split
  · refine discreetAction_bind (discreet_notingFullHeap (discreetAction_onHeap _)) fun block => ?_
    refine discreetAction_bind (discreetAction_lift (discreet_updateHeap _)) fun _ => ?_
    refine discreetAction_bind (discreetAction_lift (discreet_updateHeap _)) fun _ => ?_
    refine discreetAction_bind discreetAction_view fun origin => ?_
    refine discreetAction_bind discreetAction_view fun timers => ?_
    refine discreetAction_bind (fun _ => .of_eq) fun _ => ?_
    exact discreetAction_bind (discreetAction_lift (discreet_logLine _)) fun _ =>
      discreetAction_pure _
  · exact @discreetAction_throw UInt32 Fault.notCallable

theorem discreet_releaseTimer (timer : Timer) : Discreet (releaseTimer timer) :=
  discreet_bind (discreet_updateHeap _) fun _ => discreet_bind (discreet_updateHeap _) fun _ =>
    discreet_updateHeap _

theorem discreet_stopTimer (id : UInt32) : Discreet (stopTimer id) := by
  refine discreet_bind discreet_view fun timers => discreet_bind (fun _ => .of_eq) fun _ => ?_
  split
  · exact discreet_pure false
  · exact discreet_bind (discreet_releaseTimer _) fun _ =>
      discreet_bind (discreet_logLine _) fun _ => discreet_pure true

theorem discreet_stopTimers : Discreet stopTimers := by
  refine discreet_bind discreet_view fun timers => discreet_bind (fun _ => .of_eq) fun _ =>
    discreet_bind (discreet_forM discreet_releaseTimer) fun _ => ?_
  split
  · exact discreet_pure _
  · exact discreet_bind (discreet_logLine _) fun _ => discreet_pure _

theorem discreet_takeDue (now : UInt32) : Discreet (takeDue now) := by
  refine discreet_bind discreet_view fun timers => discreet_bind (fun _ => .of_eq) fun _ =>
    discreet_bind (discreet_forM fun due => ?_) fun _ => discreet_pure _
  unfold retainDue
  split
  · exact discreet_bind (discreet_updateHeap _) fun _ => discreet_updateHeap _
  · exact discreet_pure ()

theorem discreet_settle (due : DueTimer) : Discreet (settle due) :=
  discreet_bind (discreet_updateHeap _) fun _ => discreet_bind (discreet_updateHeap _) fun _ =>
    discreet_forM fun _ => discreet_updateHeap _

/-- A further unit does not hide the others, and has no notes yet. -/
theorem backstage_loaded (env : Environment) (used : Nat) (program : Program) :
    Backstage env
      { env with
        codeUsed := used
        units := env.units.push
          { program, slots := Array.replicate program.strings.size none } } where
  stack := rfl
  frames := rfl
  config := rfl
  natives := rfl
  globals := rfl
  programs unit other known := by
    have pushed : (env.units.push
        { program, slots := Array.replicate program.strings.size none }).map (·.program) =
          env.programs.push program := Array.map_push
    change (Array.map _ _)[unit]? = _
    rw [pushed]
    obtain ⟨inside, same⟩ := Array.getElem?_eq_some_iff.mp known
    exact (Array.getElem?_push_lt inside).trans (congrArg some same)
  notes notes unit loaded index slot there noted := by
    rw [Array.getElem?_push] at there
    split at there
    · injection there with same
      subst same
      rw [Array.getElem?_replicate] at noted
      split at noted <;> cases noted
    · exact notes unit loaded index slot there noted

/-- A program becomes a new unit when there is room for it; otherwise there is at most a line in the
log. -/
theorem load_cases (program : Program) (env : Environment) :
    (∃ fault log, load program env = (.error fault, { env with log })) ∨
      (env.codeUsed + program.footprint ≤ env.config.codeSpace ∧
        load program env = (.ok env.units.size,
          { env with
            codeUsed := env.codeUsed + program.footprint
            units := env.units.push
              { program, slots := Array.replicate program.strings.size none } })) := by
  unfold load
  split
  · exact .inl ⟨_, _, rfl⟩
  · simp only
    rw [action_bind_ok (action_view _ _), action_bind_ok (action_view _ _)]
    split
    · exact .inl ⟨_, _, rfl⟩
    · rename_i room
      exact .inr ⟨Nat.not_lt.mp room, rfl⟩

theorem discreet_load (program : Program) : Discreet (load program).run := by
  intro env
  change Backstage env (load program env).2
  obtain ⟨fault, log, failed⟩ | ⟨-, done⟩ := load_cases program env
  · rw [failed]
    exact .of_eq
  · rw [done]
    exact backstage_loaded env _ program

/-- No request reaches the stacks. -/
theorem backstage_answer (request : Request) (env : Environment) :
    Backstage env (answer request env).2 := by
  cases request with
  | retain value => exact discreet_updateHeap _ env
  | release value => exact discreet_updateHeap _ env
  | allocString text => exact discreet_notingFullHeap (discreetAction_onHeap _) env
  | textOf value => exact .refl _
  | display value => exact .refl _
  | print text => exact .of_eq
  | log line => exact .of_eq
  | ticks => exact .refl _
  | startTimer wait callback repeats param =>
      exact discreet_startTimer wait callback repeats param env
  | stopTimer id => exact discreet_stopTimer id env
  | stopTimers => exact discreet_stopTimers env
  | hasTimer id => exact .refl _
  | takeDue now => exact discreet_takeDue now env
  | settle due => exact discreet_settle due env
  | compile source => exact .refl _
  | load program => exact discreet_load program env

end Environment

end PocketScript
