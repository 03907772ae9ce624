import Mathlib.Logic.Relation
import PocketScript.Proofs.Machine.Sound
import PocketScript.Proofs.Session.Programs

/-!
# Sessions

A session is what a host does with an environment, one operation after the other: it runs program
texts and timers, stops timers, makes strings, binds globals, and keeps and gives up values. As long
as it hands over and gives up only what it owns, every block is counted exactly as often as there are
places that hold it, whatever fails on the way (`Session.counts_exact`).
-/

namespace PocketScript

open Environment

/-- An environment between two operations of its host, and the values of which the host owns
references. -/
structure Session where
  environment : Environment
  owned : List Value

namespace Session

/-- The host owns a reference to the value, or there is none to own. Functions of programs take no
block; a host may make them up. -/
def Has (invents : Prop) (owned : List Value) (value : Value) : Prop :=
  value ∈ owned ∨ value.block? = none ∧ (invents ∨ ∀ target, value ≠ .function target)

/-- An operation of the host comes to its end. -/
inductive Step (invents : Prop) : Session → Session → Prop
  /-- A program text is run. Its result is owned by the host. -/
  | execute (env after : Environment) (owned : List Value) (source : Source) (steps : Nat)
      (outcome : Except Failure Value)
      (ran : env.run steps (Host.executeSource source).run = some (outcome, after)) :
      Step invents ⟨env, owned⟩ ⟨after, outcome.toOption.toList ++ owned⟩
  /-- A program is run that was compiled, here or elsewhere. -/
  | executeProgram (env after : Environment) (owned : List Value) (bytes : List UInt8)
      (limits : CompileLimits) (known : String → Bool) (program : Program)
      (compiled : compile bytes limits known = .ok program) (steps : Nat)
      (outcome : Except Fault Value)
      (ran : env.run steps (Host.executeProgram program).run = some (outcome, after)) :
      Step invents ⟨env, owned⟩ ⟨after, outcome.toOption.toList ++ owned⟩
  /-- The timers that are due are run. -/
  | poll (env after : Environment) (owned : List Value) (now : UInt32) (steps : Nat)
      (outcome : Except Fault Nat)
      (ran : env.run steps (Host.poll now).run = some (outcome, after)) :
      Step invents ⟨env, owned⟩ ⟨after, owned⟩
  | stopTimer (env : Environment) (owned : List Value) (id : UInt32) :
      Step invents ⟨env, owned⟩ ⟨(Environment.stopTimer id env).2, owned⟩
  | stopTimers (env : Environment) (owned : List Value) :
      Step invents ⟨env, owned⟩ ⟨(Environment.stopTimers env).2, owned⟩
  | allocString (env : Environment) (owned : List Value) (text : String) :
      Step invents ⟨env, owned⟩
        ⟨(Environment.allocString text env).2,
          (Environment.allocString text env).1.toOption.toList ++ owned⟩
  /-- A global takes a value over. -/
  | define (env : Environment) (owned : List Value) (name : String) (value : Value)
      (has : Has invents owned value) :
      Step invents ⟨env, owned⟩
        ⟨(Environment.defineGlobal name value env).2, owned.erase value⟩
  | retain (env : Environment) (owned : List Value) (value : Value)
      (has : Has invents owned value) :
      Step invents ⟨env, owned⟩ ⟨(Environment.retain value env).2, value :: owned⟩
  | release (env : Environment) (owned : List Value) (value : Value)
      (has : Has invents owned value) :
      Step invents ⟨env, owned⟩
        ⟨(Environment.release value env).2, owned.erase value⟩
  /-- The clock moves on. -/
  | advance (env : Environment) (owned : List Value) (ticks : UInt32) :
      Step invents ⟨env, owned⟩ ⟨(Environment.advance ticks env).2, owned⟩

/-- A new session, with the builtin functions. -/
def start (config : Config) : Session := ⟨withBuiltins config, []⟩

/-- Every place that keeps a block alive: in a block, a global or a timer, and with the host. -/
def references (session : Session) : List Reference :=
  session.environment.heap.references ++
    (session.owned.map .value ++ session.environment.kept)

/-- The stacks are empty, and every block is counted as often as there are places that hold it; none
of them holds a block that was freed. -/
structure Exact (session : Session) : Prop where
  stack : session.environment.stack = #[]
  frames : session.environment.frames = #[]
  counted : ∀ block content, session.environment.heap.get? block = some content →
    session.environment.heap.blocks.isStatic block = false →
      session.environment.heap.blocks.refCount block = places block session.references
  live : ∀ reference ∈ session.references, ∀ block, reference.block? = some block →
    (session.environment.heap.get? block).isSome = true

variable {terms : Terms} {invents : Prop} {env : Environment} {owned : List Value}
  {value : Value} {session after : Session}

/-- On these terms, all is as it should be between two operations. -/
def Sound (terms : Terms) (session : Session) : Prop :=
  session.environment.Holds terms [] [] (session.owned.map .value)

theorem Sound.exact (sound : session.Sound terms) : session.Exact where
  stack := Array.toList_eq_nil_iff.mp sound.stack
  frames := Array.toList_eq_nil_iff.mp sound.frames
  counted := sound.balanced.counted
  live reference member block leads := by
    obtain ⟨kind, there, -⟩ := (sound.balanced.fits reference member).live block leads
    obtain ⟨content, found, -⟩ := Heap.get?_of_kind? there
    rw [found, Option.isSome_some]

/-! ## What the host hands over -/

/-- A value that leads to no block is as good as one that the host owns. -/
theorem knows_made (cautious : invents → ¬ terms.trusted) (blockless : value.block? = none)
    (made : invents ∨ ∀ target, value ≠ .function target) :
    env.Knows terms.trusted value where
  live block leads := absurd (blockless.symm.trans leads) (Option.some_ne_none block).symm
  function target same := by
    injection same with same
    exact made.elim (fun invented trusted => absurd trusted (cautious invented)) fun other =>
      absurd same (other target)

/-- What the host has is taken from what it owns. -/
theorem holds_given (cautious : invents → ¬ terms.trusted) (has : Has invents owned value)
    (holds : env.Holds terms [] [] (owned.map .value)) :
    env.Holds terms [] [] (.value value :: (owned.erase value).map .value) := by
  by_cases member : value ∈ owned
  · exact holds.perm ((List.perm_cons_erase member).map _)
  · obtain ⟨blockless, made⟩ := has.resolve_left member
    rw [List.erase_of_not_mem member]
    exact { holds with
      balanced := Heap.Balanced.add holds.balanced blockless (knows_made cautious blockless made) }

/-- A global takes over a value of the host. -/
theorem holds_defineGlobal {frames : List Frame} {values : List Value} {rest : List Reference}
    (name : String) (holds : env.Holds terms frames values (.value value :: rest)) :
    (defineGlobal name value env).2.Holds terms frames values rest := by
  have balanced := balanced_defineGlobal name holds.balanced
  have settled := @settled_defineGlobal 0 name value env (Nat.zero_le _)
  have notes := settled.notes holds.notes
  rw [action_lift] at notes
  obtain ⟨globals, heap, same⟩ := Ground.defineGlobal_changes name value env
  rw [same] at balanced notes ⊢
  exact { holds with balanced, notes }

/-- A request that the host makes. -/
theorem holds_answer (request : Request) (sound : request.IsSound) {rest : List Reference}
    (covers : ∀ value ∈ request.reads, Covers rest value)
    (holds : env.Holds terms [] [] (request.takes ++ rest)) :
    (answer request env).2.Holds terms [] []
      (request.gives (answer request env).1 ++ rest) :=
  (holds.answer request sound covers).2.2.2

/-- The result of a run is owned by the host. -/
theorem holds_left {ε : Type} {outcome : Except ε Value} {left : List Reference}
    (holds : env.Holds terms [] [] left)
    (leaves : Leaves (owned.map .value) outcome left) :
    env.Holds terms [] [] ((outcome.toOption.toList ++ owned).map .value) := by
  obtain ⟨idle, none, same⟩ := leaves
  refine Holds.withoutIdle none (holds.perm (same.trans (perm_of_count fun reference => ?_)))
  simp only [List.map_append, List.count_append]
  omega

/-! ## Operations -/

/-- Every operation keeps all as it should be. -/
theorem Sound.step (cautious : invents → ¬ terms.trusted) (sound : session.Sound terms)
    (step : Step invents session after) : after.Sound terms := by
  cases step with
  | execute env after owned source steps outcome ran =>
      obtain ⟨left, holds, leaves, -⟩ := sound.run (Host.careful_executeSource source) ran
      exact holds_left holds leaves
  | executeProgram env after owned bytes limits known program compiled steps outcome ran =>
      obtain ⟨left, holds, leaves, -⟩ :=
        sound.run (Host.careful_executeProgram (verified_of_compile compiled)) ran
      exact holds_left holds leaves
  | poll env after owned now steps outcome ran =>
      obtain ⟨left, holds, same, -⟩ := sound.run (Host.careful_poll now) ran
      exact holds.perm same
  | stopTimer env owned id =>
      exact holds_answer (.stopTimer id) trivial (fun _ none => absurd none List.not_mem_nil) sound
  | stopTimers env owned =>
      exact holds_answer .stopTimers trivial (fun _ none => absurd none List.not_mem_nil) sound
  | allocString env owned text =>
      have answered := holds_answer (.allocString text) trivial
        (fun _ none => absurd none List.not_mem_nil) sound
      change (Environment.allocString text env).2.Holds terms [] []
        (Request.gives (.allocString text) (Environment.allocString text env).1 ++ _)
          at answered
      unfold Sound
      generalize Environment.allocString text env = outcome at answered ⊢
      obtain ⟨fault | value, after⟩ := outcome
      · exact answered
      · exact answered
  | define env owned name value has =>
      exact holds_defineGlobal name (holds_given cautious has sound)
  | retain env owned value has =>
      by_cases member : value ∈ owned
      · exact holds_answer (.retain value) trivial (fun other same =>
          List.mem_singleton.mp same ▸ .inl (List.mem_map_of_mem member)) sound
      · -- A value that is not owned leads to no block, so once more makes no difference.
        have given := holds_given cautious has sound
        rw [List.erase_of_not_mem member] at given
        have twice : Holds terms [] [] ([.value value] ++ (.value value :: owned.map .value))
            (Environment.retain value env).2 :=
          holds_answer (.retain value) trivial (fun other same =>
            List.mem_singleton.mp same ▸ .inl List.mem_cons_self) given
        refine twice.withoutIdle fun reference same => ?_
        rw [List.mem_singleton.mp same]
        exact (has.resolve_left member).1
  | release env owned value has =>
      exact holds_answer (.release value) trivial (fun _ none => absurd none List.not_mem_nil)
        (holds_given cautious has sound)
  | advance env owned ticks => exact { sound with }

/-! ## New environments -/

theorem holds_register {name : String} {run : NativeFunction}
    (holds : env.Holds terms [] [] []) (careful : run.IsCareful terms) :
    (register name run env).2.Holds terms [] [] [] := by
  have known : ∀ (id : Nat) (natives : Array Native),
      (∀ native ∈ natives, native.run.IsCareful terms) → ∀ log,
        (defineGlobal name (.native id) { env with natives, log }).2.Holds terms [] [] [] := by
    intro id natives all log
    have plain : (Value.native id).IsPlain := ⟨rfl, by simp⟩
    refine holds_defineGlobal name { holds with natives := all, balanced := ?_ }
    exact Heap.Balanced.add holds.balanced rfl (plain.knows env)
  unfold register
  rw [update_bind, update_view]
  cases found : env.nativeId? name with
  | some id =>
      refine known id _ (fun native member => ?_) _
      rcases Array.mem_or_eq_of_mem_setIfInBounds member with old | rfl
      · exact holds.natives native old
      · exact careful
  | none =>
      refine known _ _ (fun native member => ?_) _
      rcases Array.mem_push.mp member with old | rfl
      · exact holds.natives native old
      · exact careful

theorem holds_registerAll (reports : ∀ fault : Fault, fault.isOrdinary = true → terms.reports fault) :
    ∀ {builtins : List Builtin} {env : Environment}, env.Holds terms [] [] [] →
      ((builtins.forM fun builtin => discard (register builtin.name builtin.native) : Update Unit)
        env).2.Holds terms [] [] []
  | [], _, holds => holds
  | builtin :: rest, env, holds => by
      have registered : (register builtin.name builtin.native env).2.Holds terms [] [] [] :=
        holds_register holds (builtin.isCareful_native reports)
      have others := @holds_registerAll reports rest _ registered
      exact others

theorem holds_new (config : Config) : (new config).Holds terms [] [] [] where
  frames := rfl
  stack := rfl
  balanced := Heap.balanced_new config.pools
  notes unit loaded index slot there := by
    rw [show (new config).units = #[] from rfl] at there
    cases there
  verified unit program there := by
    rw [show (new config).programs = #[] from Array.map_empty] at there
    cases there
  natives native member := absurd member (Array.not_mem_empty native)

theorem sound_start (config : Config)
    (reports : ∀ fault : Fault, fault.isOrdinary = true → terms.reports fault) :
    (start config).Sound terms := by
  unfold Sound start withBuiltins registerBuiltins
  dsimp only
  rw [List.map_nil]
  exact holds_registerAll reports (holds_new config)

/-! ## Whole sessions -/

/-- However many operations there are. -/
theorem Sound.run (cautious : invents → ¬ terms.trusted) (sound : session.Sound terms)
    (reached : Relation.ReflTransGen (Step invents) session after) : after.Sound terms := by
  induction reached with
  | refl => exact sound
  | tail _ step ih => exact ih.step cautious step

/-- Any fault may arise, and functions may be called that are not there. -/
def anything : Terms := ⟨False, fun _ => True, fun _ _ never => never.elim⟩

/-- Whatever a host does with what it has, between two operations the stacks are empty and all blocks
are counted as they should be. -/
theorem counts_exact {config : Config}
    (reached : Relation.ReflTransGen (Step invents) (start config) session) : session.Exact :=
  (Sound.run (fun _ never => never) (sound_start config fun _ _ => trivial : Sound anything _)
    reached).exact

/-- The host makes a string, keeps it twice, and hands it over to a global once. -/
theorem reached_shared {env : Environment} {value : Value}
    (made : (Environment.allocString "ab" env).1 = .ok value) :
    Relation.ReflTransGen (Step False) ⟨env, []⟩
      ⟨(Environment.defineGlobal "x" value
        (Environment.retain value (Environment.allocString "ab" env).2).2).2, [value]⟩ := by
  have alloc : Step False _ _ := .allocString env [] "ab"
  rw [made] at alloc
  have retain : Step False _ _ := .retain (Environment.allocString "ab" env).2 [value] value
    (.inl List.mem_cons_self)
  have define : Step False _ _ := .define
    (Environment.retain value (Environment.allocString "ab" env).2).2 [value, value] "x" value
    (.inl List.mem_cons_self)
  rw [List.erase_cons_head] at define
  exact .tail (.tail (.single alloc) retain) define

theorem counts_exact_shared : ∃ session,
    Relation.ReflTransGen (Step False) (start { pools := [(16, 1)] }) session ∧
      session.owned = [.string ⟨0, 0, 0⟩] ∧ session.Exact := by
  have made : (Environment.allocString "ab" (withBuiltins { pools := [(16, 1)] })).1 =
      .ok (.string ⟨0, 0, 0⟩) := by cbv
  have reached : Relation.ReflTransGen (Step False) (start { pools := [(16, 1)] }) ⟨_, _⟩ :=
    reached_shared made
  exact ⟨⟨_, _⟩, reached, rfl, counts_exact reached⟩

end Session

end PocketScript
