import PocketScript.Proofs.Machine.Veiled
import PocketScript.Proofs.Session.Exact
import PocketScript.Proofs.Session.Shipped
import PocketScript.Proofs.Session.Visible

/-!
# Boxed variables stay invisible

Whatever a host does with an environment for scripts, as long as it runs nothing but what was compiled:
between its operations and at every step of a run, cells lie on the stack in variables that frames have
boxed, and on top of the operands while they are gathered for a closure. Nobody else is ever given one,
neither scripts nor native functions nor the host (`Session.cells_hidden`).
-/

namespace PocketScript

open Environment

variable {α : Type}

namespace Session

variable {session after : Session} {env : Environment} {owned : List Value} {value : Value}
  {program : Host α} {gives : α → List Value} {hidden : Nat → Prop} {terms : Terms}

/-- What a host may run: what was compiled, be it a text, a program or an image, the timers that are
due, and functions that it has. It is told which values the host is given. -/
inductive RunsCompiled (session : Session) : {α : Type} → Host α → (α → List Value) → Prop
  | source (source : Source) :
      RunsCompiled session (Host.executeSource source).run (·.toOption.toList)
  | program (bytes : List UInt8) (limits : CompileLimits) (known : String → Bool) (program : Program)
      (compiled : compile bytes limits known = .ok program) :
      RunsCompiled session (Host.executeProgram program).run (·.toOption.toList)
  | image (bytes : List UInt8) (limits : CompileLimits) (known : String → Bool)
      (shipped : List UInt8) (image : Image) (read : Image.read shipped = .ok image)
      (compiled : compile bytes limits known = .ok image.program) :
      RunsCompiled session (Host.executeImage shipped).run (·.toOption.toList)
  | poll (now : UInt32) : RunsCompiled session (Host.poll now).run fun _ => []
  | call (callee : Value) (args : List Value)
      (has : ∀ value ∈ callee :: args, Has False session.owned value) :
      RunsCompiled session (Host.run callee args).run (·.toOption.toList)

/-- What a host does between two moments at which nothing runs. -/
inductive Turn (session : Session) : Session → Prop
  | run {α : Type} (program : Host α) (gives : α → List Value)
      (runs : RunsCompiled session program gives) (steps : Nat) (result : α) (after : Environment)
      (ran : session.environment.run steps program = some (result, after)) :
      Turn session ⟨after, gives result ++ session.owned⟩
  | step (after : Session) (step : Step False session after) : Turn session after
  | startTimer (wait : UInt32) (callback : Value) (repeats : Bool) (param : Value)
      (has : ∀ value ∈ [callback, param], Has False session.owned value) :
      Turn session
        ⟨(Environment.startTimer wait callback repeats param session.environment).2, session.owned⟩
  | allocForeign (text : String) (hostHandle : Nat) :
      Turn session ⟨(Environment.allocForeign text hostHandle session.environment).2,
        (Environment.allocForeign text hostHandle session.environment).1.toOption.toList ++
          session.owned⟩
  /-- The host takes a reference to the value of a global. -/
  | global (slot : Nat) (name : String) (value : Value)
      (known : session.environment.globals[slot]? = some (name, value)) :
      Turn session ⟨(Environment.retain value session.environment).2, value :: session.owned⟩

/-- Between two operations there are no cells on the stack, and the host has none. -/
structure Veiled (session : Session) : Prop where
  environment : session.environment.Veiled fun _ => False
  owned : ∀ value ∈ session.owned, value.Visible

/-! ## Runs -/

theorem covers_of_has (has : Has False owned value) : Covers (owned.map .value) value :=
  has.imp List.mem_map_of_mem fun made => ⟨made.1, made.2.resolve_left id⟩

theorem visible_of_has (has : Has False owned value) (visible : ∀ value ∈ owned, value.Visible) :
    value.Visible :=
  has.elim (visible value) fun made => Value.visible_of_blockless made.1

theorem visible_toOption {ε : Type} {outcome : Except ε Value} (shows : Shows outcome) :
    ∀ value ∈ outcome.toOption.toList, value.Visible := by
  cases outcome with
  | error error => exact fun _ none => absurd none List.not_mem_nil
  | ok value => exact fun other member => List.mem_singleton.mp member ▸ shows value rfl

/-- Whatever is run takes care of its references, and the host is given visible values. -/
theorem RunsCompiled.proper (runs : RunsCompiled session program gives)
    (visible : ∀ value ∈ session.owned, value.Visible) :
    (∃ post, program.Careful terms [] post (session.owned.map .value) ∧
      ∀ result left, post result left → ∀ env : Environment,
        env.Holds terms [] [] left →
          env.Holds terms [] [] ((gives result ++ session.owned).map .value)) ∧
    program.IsVisible fun result => ∀ value ∈ gives result, value.Visible := by
  cases runs with
  | source source =>
      exact ⟨⟨_, Host.careful_executeSource source, fun _ _ ends _ holds => holds_left holds ends.1⟩,
        (Host.visible_executeSource source).weaken fun _ => visible_toOption⟩
  | program bytes limits known program compiled =>
      exact ⟨⟨_, Host.careful_executeProgram (verified_of_compile compiled),
        fun _ _ ends _ holds => holds_left holds ends.1⟩,
        (Host.visible_executeProgram ⟨_, _, _, compiled⟩).weaken fun _ => visible_toOption⟩
  | image bytes limits known shipped image read compiled =>
      have careful := @Host.careful_executeProgram terms [] (session.owned.map .value) _
        (verified_of_compile compiled)
      unfold Host.executeImage
      rw [read]
      refine ⟨⟨fun outcome left => Leaves (session.owned.map .value) outcome left,
        Host.careful_adapt (careful.weaken fun outcome left ends => ?_),
        fun _ _ ends _ holds => holds_left holds ends⟩,
        (Host.visible_adapt (Host.visible_executeProgram ⟨_, _, _, compiled⟩)).weaken
          fun _ => visible_toOption⟩
      cases outcome <;> exact ends.1
  | poll now =>
      exact ⟨⟨_, Host.careful_poll now, fun _ _ ends _ holds => holds.perm ends.1⟩,
        (Host.visible_poll now).weaken fun _ _ _ none => absurd none List.not_mem_nil⟩
  | call callee args has =>
      have covers : ∀ value ∈ callee :: args,
          Covers (session.owned.map .value ++ ([] : List Value).map .value) value := by
        intro value member
        rw [List.map_nil, List.append_nil]
        exact covers_of_has (has value member)
      refine ⟨⟨fun outcome left => left = (outcome.toOption.toList ++ session.owned).map .value,
        ⟨covers, fun _ => rfl, fun _ _ => rfl⟩, fun _ _ same _ holds => same ▸ holds⟩,
        fun value member => visible_of_has (has value member) visible, fun outcome shows => ?_⟩
      exact visible_toOption shows

/-- What is run in a session where cells are out of sight keeps them so. -/
theorem RunsCompiled.forward (runs : RunsCompiled session program gives)
    (sound : session.Sound terms) (veiled : session.Veiled) (steps : Nat) :
    (∃ post, ((⟨session.environment, .host program⟩ : Machine α).forward steps).Sound terms post) ∧
      ((⟨session.environment, .host program⟩ : Machine α).forward steps).Veiled
        fun result => ∀ value ∈ gives result, value.Visible := by
  obtain ⟨⟨post, careful, -⟩, visible⟩ := runs.proper veiled.owned
  have start : Machine.Sound terms post ⟨session.environment, .host program⟩ :=
    .host _ program _ sound careful
  have hides : Machine.Veiled _ ⟨session.environment, .host program⟩ :=
    ⟨veiled.environment.mono fun _ never => never.elim, visible⟩
  exact ⟨⟨post, start.forward steps⟩, hides.forward start steps⟩

/-- When it has come to its end, the host may go on. -/
theorem RunsCompiled.ended (runs : RunsCompiled session program gives)
    (sound : session.Sound terms) (veiled : session.Veiled) {steps : Nat} {result : α}
    {after : Environment} (ran : session.environment.run steps program = some (result, after)) :
    Sound terms ⟨after, gives result ++ session.owned⟩ ∧
      Veiled ⟨after, gives result ++ session.owned⟩ := by
  obtain ⟨⟨post, careful, ends⟩, -⟩ := runs.proper veiled.owned
  obtain ⟨left, holds, gave⟩ := Environment.Holds.run sound careful ran
  obtain ⟨-, hidden⟩ := runs.forward sound veiled steps
  refine ⟨ends result left gave after holds, ?_⟩
  unfold Environment.run Machine.run at ran
  obtain ⟨other, finished, same⟩ := Option.map_eq_some_iff.mp ran
  cases same
  refine ⟨hidden.environment.within fun place inside => ?_, fun value member =>
    (List.mem_append.mp member).elim (hidden.result finished value) (veiled.owned value)⟩
  rw [holds.size] at inside
  exact absurd inside (Nat.not_lt_zero _)

/-! ## Operations -/

/-- A value that the host is given is visible. -/
theorem Veiled.own (veiled : session.Veiled) (visible : value.Visible)
    (kept : env.Veiled fun _ => False) : Veiled ⟨env, value :: session.owned⟩ :=
  ⟨kept, fun other member => (List.mem_cons.mp member).elim (· ▸ visible) (veiled.owned other)⟩

/-- A value is handed over. -/
theorem Veiled.give (veiled : session.Veiled) (value : Value)
    (kept : env.Veiled fun _ => False) :
    Veiled ⟨env, session.owned.erase value⟩ :=
  ⟨kept, fun other member => veiled.owned other (List.mem_of_mem_erase member)⟩

/-- An operation of a host that makes up no functions. -/
theorem Veiled.step (step : Step False session after) (sound : session.Sound terms)
    (veiled : session.Veiled) : after.Veiled := by
  cases step with
  | execute env after owned source steps outcome ran =>
      exact (RunsCompiled.ended (.source source) sound veiled ran).2
  | executeProgram env after owned bytes limits known program compiled steps outcome ran =>
      exact (RunsCompiled.ended (.program bytes limits known program compiled) sound veiled ran).2
  | poll env after owned now steps outcome ran =>
      exact (RunsCompiled.ended (.poll now) sound veiled ran).2
  | stopTimer env owned id => exact ⟨veiled.environment.stopTimer id, veiled.owned⟩
  | stopTimers env owned => exact ⟨veiled.environment.stopTimers, veiled.owned⟩
  | allocString env owned text =>
      obtain ⟨reveals, kept⟩ := veiled.environment.answer (.allocString text) trivial
      exact ⟨kept, fun value member => (List.mem_append.mp member).elim
        (visible_toOption reveals value) (veiled.owned value)⟩
  | define env owned name value has =>
      exact veiled.give value (veiled.environment.defineGlobal name (visible_of_has has veiled.owned))
  | retain env owned value has =>
      exact veiled.own (visible_of_has has veiled.owned) (veiled.environment.retain value)
  | release env owned value has => exact veiled.give value (veiled.environment.release value)
  | advance env owned ticks => exact ⟨{ veiled.environment with }, veiled.owned⟩

theorem holds_allocForeign (text : String) (hostHandle : Nat)
    (holds : env.Holds terms [] [] (owned.map .value)) :
    (Environment.allocForeign text hostHandle env).2.Holds terms [] []
      (((Environment.allocForeign text hostHandle env).1.toOption.toList ++ owned).map
        .value) := by
  have taken := Books.notingFullHeap (Books.onHeap fun _ _ balanced =>
    Heap.Balanced.allocForeign balanced text hostHandle) env ⟨rfl, holds.balanced⟩
  have backstage : Backstage env (Environment.allocForeign text hostHandle env).2 :=
    discreet_notingFullHeap (discreetAction_onHeap _) env
  unfold Environment.allocForeign at backstage ⊢
  generalize notingFullHeap (Environment.onHeap (·.allocForeign text hostHandle)) env = outcome
    at taken backstage ⊢
  have left {references : List Reference} {last : Environment}
      (backstage : Backstage env last)
      (books : Books terms.trusted env.programs references last) :
      last.Holds terms [] [] references :=
    ⟨backstage.frames ▸ holds.frames, backstage.stack ▸ holds.stack, books.balanced,
      backstage.notes holds.notes, books.programs ▸ holds.verified, backstage.natives ▸ holds.natives⟩
  obtain ⟨fault | value, last⟩ := outcome
  · exact left backstage taken.2
  · exact left backstage taken

/-- After a turn of the host all is as it was before it. -/
theorem Turn.proper (turn : Turn session after) (sound : session.Sound terms)
    (veiled : session.Veiled) : after.Sound terms ∧ after.Veiled := by
  cases turn with
  | run program gives runs steps result after ran => exact runs.ended sound veiled ran
  | step after step => exact ⟨sound.step (fun never => never.elim) step, veiled.step step sound⟩
  | startTimer wait callback repeats param has =>
      have covers := fun value member => covers_of_has (has value member)
      have visible := fun value member => visible_of_has (has value member) veiled.owned
      obtain ⟨-, kept⟩ := veiled.environment.answer (.startTimer wait callback repeats param)
        ⟨visible _ List.mem_cons_self, visible _ (List.mem_cons_of_mem _ List.mem_cons_self)⟩
      exact ⟨holds_answer (.startTimer wait callback repeats param) trivial covers sound, kept,
        veiled.owned⟩
  | allocForeign text hostHandle =>
      obtain ⟨kept, shown⟩ := outcome_concealed (conceals_allocForeign text hostHandle)
        veiled.environment
      refine ⟨holds_allocForeign text hostHandle sound, kept, fun value member =>
        (List.mem_append.mp member).elim (visible_toOption shown value) (veiled.owned value)⟩
  | global slot name value known =>
      have books : Books terms.trusted session.environment.programs (session.owned.map .value)
          session.environment := ⟨rfl, sound.balanced⟩
      have retained := books.retain (sound.balanced.knowsGlobal known)
      exact ⟨{ sound with balanced := retained.balanced },
        veiled.own (veiled.environment.globals (name, value) (Array.mem_of_getElem? known))
          (veiled.environment.retain value)⟩

/-! ## New environments -/

theorem veiled_register {name : String} {run : NativeFunction}
    (veiled : env.Veiled hidden) (visible : run.IsVisible) :
    (register name run env).2.Veiled hidden := by
  have known : ∀ (id : Nat) (natives : Array Native), (∀ native ∈ natives, native.run.IsVisible) →
      ∀ log, (defineGlobal name (.native id) { env with natives, log }).2.Veiled hidden :=
    fun id natives all log =>
      ({ veiled with natives := all } : { env with natives, log }.Veiled hidden).defineGlobal
        name rfl
  unfold register
  rw [update_bind, update_view]
  cases found : env.nativeId? name with
  | some id =>
      refine known id _ (fun native member => ?_) _
      rcases Array.mem_or_eq_of_mem_setIfInBounds member with old | rfl
      · exact veiled.natives native old
      · exact visible
  | none =>
      refine known _ _ (fun native member => ?_) _
      rcases Array.mem_push.mp member with old | rfl
      · exact veiled.natives native old
      · exact visible

theorem veiled_registerAll : ∀ {builtins : List Builtin} {env : Environment},
    env.Veiled hidden →
      ((builtins.forM fun builtin => discard (register builtin.name builtin.native) : Update Unit)
        env).2.Veiled hidden
  | [], _, veiled => veiled
  | builtin :: rest, env, veiled => by
      have registered : (register builtin.name builtin.native env).2.Veiled hidden :=
        veiled_register veiled builtin.isVisible_native
      have others := @veiled_registerAll rest _ registered
      exact others

theorem veiled_new (config : Config) : (Environment.new config).Veiled hidden where
  heap := Heap.veiled_new config.pools
  globals binding member := absurd member (Array.not_mem_empty binding)
  timers timer member := absurd member List.not_mem_nil
  natives native member := absurd member (Array.not_mem_empty native)
  programs program member := by
    rw [show (Environment.new config).programs = #[] from Array.map_empty] at member
    exact absurd member (Array.not_mem_empty program)
  stack place block there := by
    rw [show (Environment.new config).stack = #[] from rfl] at there
    cases there

theorem veiled_start (config : Config) : (start config).Veiled := by
  refine ⟨?_, fun _ none => absurd none List.not_mem_nil⟩
  unfold start withBuiltins registerBuiltins
  dsimp only
  exact veiled_registerAll (veiled_new config)

/-! ## Whole sessions -/

/-- **Boxed variables stay invisible.** However far a host has come, it owns no cell. Whatever it runs
next of what was compiled, at every step cells are where they belong and nowhere else, and the host is
given none when the run comes to its end. -/
theorem cells_hidden {config : Config}
    (reached : Relation.ReflTransGen Turn (start config) session) :
    (∀ value ∈ session.owned, value.Visible) ∧
      ∀ {α : Type} (program : Host α) (gives : α → List Value), RunsCompiled session program gives →
        ∀ steps, ((⟨session.environment, .host program⟩ : Machine α).forward steps).HidesCells ∧
          ∀ result, ((⟨session.environment, .host program⟩ : Machine α).forward steps).result? =
            some result → ∀ value ∈ gives result, value.Visible := by
  have proper : session.Sound anything ∧ session.Veiled := by
    induction reached with
    | refl => exact ⟨sound_start config fun _ _ => trivial, veiled_start config⟩
    | tail _ turn ih => exact turn.proper ih.1 ih.2
  obtain ⟨sound, veiled⟩ := proper
  refine ⟨veiled.owned, fun program gives runs steps => ?_⟩
  obtain ⟨⟨post, last⟩, hidden⟩ := runs.forward sound veiled steps
  exact ⟨hidden.hidesCells last, fun result finished => hidden.result finished⟩

/-- A function boxes its parameter and captures it for the closure that it makes: in between, the cell
lies in the variable and on top of it. -/
theorem cells_hidden_closure : ∃ session,
    Relation.ReflTransGen Turn (start {}) session ∧ session.owned = [.function ⟨0, 1⟩] ∧
      (∃ block, (Machine.forward 3 ⟨session.environment,
        .host (Host.run (.function ⟨0, 1⟩) [.boolean true]).run⟩).environment.stack =
          #[.function ⟨0, 1⟩, .cell block, .cell block]) ∧
        ∀ steps, (Machine.forward steps ⟨session.environment,
          .host (Host.run (.function ⟨0, 1⟩) [.boolean true]).run⟩).HidesCells := by
  have both : ((start {}).environment.run 12 (Host.executeProgram closureProgram).run).map
      (fun ended => (ended.1, (Machine.forward 3 ⟨ended.2,
        .host (Host.run (.function ⟨0, 1⟩) [.boolean true]).run⟩).environment.stack)) =
      some (.ok (.function ⟨0, 1⟩),
        #[.function ⟨0, 1⟩, .cell ⟨0, 0, 0⟩, .cell ⟨0, 0, 0⟩]) := by cbv
  obtain ⟨⟨outcome, after⟩, ran, same⟩ := Option.map_eq_some_iff.mp both
  obtain ⟨rfl, stack⟩ := Prod.mk.inj same
  have reached : Relation.ReflTransGen Turn (start {}) ⟨after, [.function ⟨0, 1⟩]⟩ :=
    .single (.run _ _ (.program _ _ _ _ compile_closureText) 12 _ after ran)
  refine ⟨_, reached, rfl, ⟨_, stack⟩, fun steps =>
    ((cells_hidden reached).2 _ _ (.call _ _ fun value member => ?_) steps).1⟩
  rcases List.mem_cons.mp member with rfl | last
  · exact .inl List.mem_cons_self
  · rw [List.mem_singleton.mp last]
    exact .inr ⟨rfl, .inr fun _ impossible => by cases impossible⟩

end Session

end PocketScript
