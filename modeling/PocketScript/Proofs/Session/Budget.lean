import PocketScript.Proofs.Machine.Budget
import PocketScript.Proofs.Session.Exact

/-!
# Sessions keep to the budget

A host may run any program, also one that no compiler has made, and native functions of its own. As
long as it gives up only what it owns, nothing ever grows beyond what the configuration allows: not the
stacks, not the code, and not what the blocks of the heap hold (`Session.within_budget`). This is true
between the operations of the host and at every step of the programs that it runs.
-/

namespace PocketScript

open Environment

variable {α : Type} {config : Config}

/-! ## The budget -/

namespace Heap

/-- The elements of the array or the object in a block: there are not more than there is room for, and
the room is a live block that belongs to nobody else. -/
structure Keeps (heap : Heap) (block : Handle) (count capacity bytes : Nat) (storage : Option Handle) :
    Prop where
  count : count ≤ capacity
  room : storage.isSome = true ↔ 0 < capacity
  live : ∀ room, storage = some room → heap.get? room = some .storage
  fits : ∀ room, storage = some room → heap.blocks.Spans room bytes
  own : ∀ room other content, storage = some room → heap.get? other = some content →
    content.storage? = some room → other = block

/-- The content fits the block. -/
def Fits (heap : Heap) (block : Handle) : Content → Prop
  | .text value => heap.blocks.Spans block (5 + value.utf8ByteSize)
  | .array items capacity storage =>
      heap.blocks.Spans block 16 ∧ heap.Keeps block items.size capacity (4 + 8 * capacity) storage
  | .object properties capacity storage =>
      heap.blocks.Spans block 16 ∧ heap.Keeps block properties.size capacity (4 + 12 * capacity) storage
  | .closure _ cells => heap.blocks.Spans block (8 + 4 * cells.size)
  | content => heap.blocks.Spans block content.size

end Heap

/-- Nothing is larger than the configuration allows. -/
structure Environment.WithinBudget (config : Config) (env : Environment) : Prop where
  configured : env.config = config
  stack : env.stack.size ≤ config.stackSize
  frames : env.frames.size ≤ config.maxCallDepth
  used : env.codeUsed = sumOver (·.program.footprint) env.units.toList
  code : env.codeUsed ≤ config.codeSpace
  /-- The pools have the blocks that they had at first. -/
  pools : env.heap.blocks.shape = (Heap.new config.pools).blocks.shape
  blocks : ∀ block content, env.heap.get? block = some content →
    env.heap.Fits block content

namespace Environment

variable {env : Environment} {owned : List Reference}

/-- The blocks of elements are there. -/
theorem Solvent.storage (solvent : env.Solvent config owned) {block room : Handle}
    {content : Content} (found : env.heap.get? block = some content)
    (own : content.storage? = some room) : env.heap.get? room = some .storage := by
  obtain ⟨-, lost, balanced⟩ := solvent
  have member : Reference.storage room ∈ env.heap.references :=
    List.mem_flatMap.mpr ⟨content, PoolSet.mem_contents found, List.mem_append_left _ (by
      rw [own]
      exact List.mem_cons_self)⟩
  obtain ⟨kind, there, suits⟩ :=
    (Heap.Balanced.fits balanced _ (List.mem_append_left _ member)).live room rfl
  obtain ⟨held, inside, same⟩ := Heap.get?_of_kind? there
  have isStorage : held.kind = .storage := same.trans suits
  cases held with
  | storage => exact inside
  | _ => cases isStorage

theorem sumOver_programs (env : Environment) :
    sumOver Program.footprint env.programs.toList =
      sumOver (·.program.footprint) env.units.toList := by
  rw [programs, Array.toList_map]
  induction env.units.toList with
  | nil => rfl
  | cons unit rest ih => rw [List.map_cons, sumOver_cons, sumOver_cons, ih]

theorem Solvent.withinBudget (solvent : env.Solvent config owned) :
    env.WithinBudget config where
  configured := solvent.modest.configured
  stack := solvent.modest.stack
  frames := solvent.modest.frames
  used := solvent.modest.used.trans (sumOver_programs env)
  code := solvent.modest.code
  pools := solvent.modest.pools
  blocks block content found := by
    have fitting := solvent.modest.fitting
    have sized := fitting.sized block content found
    have housed := fitting.housed block content found
    have keeps : ∀ {count capacity bytes : Nat} {storage : Option Handle},
        content.storage? = storage → env.heap.blocks.Houses storage count capacity bytes →
          env.heap.Keeps block count capacity bytes storage := by
      intro count capacity bytes storage own houses
      refine ⟨houses.count, houses.own, fun room known => solvent.storage found (own.trans known),
        houses.spans, fun room other held known there also => ?_⟩
      exact fitting.apart other block held content room there found also (own.trans known)
    cases content with
    | text value =>
        obtain ⟨size, known, enough⟩ := sized
        refine ⟨size, known, ?_⟩
        change 4 + value.utf8ByteSize + 1 ≤ size at enough
        omega
    | array items capacity storage => exact ⟨sized, keeps rfl housed⟩
    | object properties capacity storage => exact ⟨sized, keeps rfl housed⟩
    | _ => exact sized

end Environment

/-! ## Programs that a host runs -/

namespace Host

variable {borrowed : List Value} {owned : List Reference} {β : Type}
  {middle : α → List Reference → Prop} {post : β → List Reference → Prop}

theorem Frugal.bind {program : Host α} {next : α → Host β}
    (one : program.Frugal borrowed middle owned)
    (two : ∀ result owned, middle result owned → (next result).Frugal borrowed post owned) :
    (program >>= next).Frugal borrowed post owned := by
  induction program generalizing owned with
  | done result => exact two result owned one
  | ask request next ih =>
      obtain ⟨rest, split, covers, goesOn⟩ := one
      exact ⟨rest, split, covers, fun answer fair => ih answer (goesOn answer fair)⟩
  | call callee args next ih =>
      obtain ⟨covers, succeeds, fails⟩ := one
      exact ⟨covers, fun value => ih _ (succeeds value), fun fault => ih _ (fails fault)⟩

theorem Frugal.weaken {last : α → List Reference → Prop} {program : Host α}
    (frugal : program.Frugal borrowed middle owned)
    (weaker : ∀ result owned, middle result owned → last result owned) :
    program.Frugal borrowed last owned :=
  bind_done program ▸ frugal.bind weaker

/-- Any program may be run, be it verified or not. -/
theorem frugal_executeProgram (program : Program) :
    (executeProgram program).run.Frugal borrowed (Leaves owned) owned := by
  refine ⟨owned, .refl _, fun _ member => absurd member List.not_mem_nil, fun answer _ => ?_⟩
  cases answer with
  | error fault => exact ⟨[], fun _ member => absurd member List.not_mem_nil, .refl _⟩
  | ok unit =>
      have careful := @careful_runUnit Session.anything borrowed owned unit
      exact careful.frugal id fun _ _ ends => ends.1

theorem frugal_executeImage (bytes : List UInt8) :
    (executeImage bytes).run.Frugal borrowed (Leaves owned) owned := by
  unfold executeImage
  cases Image.read bytes with
  | error reason =>
      exact ⟨owned, .refl _, fun _ member => absurd member List.not_mem_nil, fun _ _ =>
        ⟨[], fun _ member => absurd member List.not_mem_nil, .refl _⟩⟩
  | ok image =>
      refine Frugal.bind (frugal_executeProgram image.program) fun outcome left leaves => ?_
      cases outcome <;> exact leaves

theorem frugal_executeSource (source : Source) :
    (executeSource source).run.Frugal borrowed (Leaves owned) owned :=
  (@careful_executeSource Session.anything borrowed owned source).frugal id fun _ _ ends => ends.1

theorem frugal_poll (now : UInt32) :
    (poll now).run.Frugal borrowed (fun _ left => left.Perm owned) owned :=
  (@careful_poll Session.anything borrowed owned now).frugal id fun _ _ ends => ends.1

end Host

namespace Session

variable {session after : Session} {gives : α → List Value} {program : Host α}

/-- The host may hand the value over for a while: it owns it, a global or a timer keeps it, or there
is no block to keep. -/
def Lends (session : Session) (value : Value) : Prop :=
  value ∈ session.owned ∨ .value value ∈ session.environment.kept ∨ value.block? = none

/-- What a host may run: texts, images and programs, well formed or not, the timers that are due, and
functions. It is told what the host owns afterwards. -/
inductive Starts (session : Session) : {α : Type} → Host α → (α → List Value) → Prop
  | source (source : Source) :
      Starts session (Host.executeSource source).run fun outcome =>
        outcome.toOption.toList ++ session.owned
  | image (bytes : List UInt8) :
      Starts session (Host.executeImage bytes).run fun outcome =>
        outcome.toOption.toList ++ session.owned
  | program (program : Program) :
      Starts session (Host.executeProgram program).run fun outcome =>
        outcome.toOption.toList ++ session.owned
  | poll (now : UInt32) : Starts session (Host.poll now).run fun _ => session.owned
  | call (callee : Value) (args : List Value) (lends : ∀ value ∈ callee :: args, session.Lends value) :
      Starts session (Host.run callee args).run fun outcome =>
        outcome.toOption.toList ++ session.owned

/-- What a host does between two moments at which nothing runs. -/
inductive Operation (session : Session) : Session → Prop
  | run {α : Type} (program : Host α) (gives : α → List Value) (starts : Starts session program gives)
      (steps : Nat) (result : α) (after : Environment)
      (ran : session.environment.run steps program = some (result, after)) :
      Operation session ⟨after, gives result⟩
  | startTimer (wait : UInt32) (callback : Value) (repeats : Bool) (param : Value)
      (lends : ∀ value ∈ [callback, param], session.Lends value) :
      Operation session
        ⟨(Environment.startTimer wait callback repeats param session.environment).2, session.owned⟩
  | stopTimer (id : UInt32) :
      Operation session ⟨(Environment.stopTimer id session.environment).2, session.owned⟩
  | stopTimers : Operation session ⟨(Environment.stopTimers session.environment).2, session.owned⟩
  | allocString (text : String) :
      Operation session ⟨(Environment.allocString text session.environment).2,
        (Environment.allocString text session.environment).1.toOption.toList ++ session.owned⟩
  | allocForeign (text : String) (hostHandle : Nat) :
      Operation session ⟨(Environment.allocForeign text hostHandle session.environment).2,
        (Environment.allocForeign text hostHandle session.environment).1.toOption.toList ++
          session.owned⟩
  /-- A global takes a value over. -/
  | define (name : String) (value : Value) (has : value ∈ session.owned ∨ value.block? = none) :
      Operation session
        ⟨(Environment.defineGlobal name value session.environment).2, session.owned.erase value⟩
  /-- A native function of the host is made known. -/
  | register (name : String) (native : NativeFunction) (frugal : native.IsFrugal) :
      Operation session ⟨(Environment.register name native session.environment).2, session.owned⟩
  | retain (value : Value) (lends : session.Lends value) :
      Operation session ⟨(Environment.retain value session.environment).2, value :: session.owned⟩
  | release (value : Value) (has : value ∈ session.owned ∨ value.block? = none) :
      Operation session
        ⟨(Environment.release value session.environment).2, session.owned.erase value⟩
  | advance (ticks : UInt32) :
      Operation session ⟨(Environment.advance ticks session.environment).2, session.owned⟩

/-- A session with a new environment, in which nothing is defined. -/
def blank (config : Config) : Session := ⟨Environment.new config, []⟩

/-- The accounts are right between two operations, and the native functions are frugal. -/
structure Afloat (config : Config) (session : Session) : Prop where
  solvent : session.environment.Solvent config (session.owned.map .value)
  natives : ∀ native ∈ session.environment.natives, native.run.IsFrugal

/-! ## Runs -/

/-- What is owned when a run ends suffices for what the host then owns. -/
def Suffices (config : Config) (gives : α → List Value) (result : α) (left : List Reference) : Prop :=
  ∀ env : Environment, env.Solvent config left →
    env.Solvent config ((gives result).map .value)

/-- What is left of a run besides the result takes no block, and is forgotten. -/
theorem suffices_of_leaves {ε : Type} {outcome : Except ε Value} {left : List Reference}
    {owned : List Value} (leaves : Leaves (owned.map .value) outcome left) :
    Suffices config (fun outcome : Except ε Value => outcome.toOption.toList ++ owned) outcome left := by
  intro env solvent
  obtain ⟨idle, -, same⟩ := leaves
  have split : left.Perm (idle ++ (outcome.toOption.toList ++ owned).map .value) :=
    same.trans (perm_of_count fun reference => by
      simp only [List.map_append, List.count_append]
      omega)
  exact (solvent.perm split).forget

/-- What is lent is kept by somebody. -/
theorem supplied_of_lends {values : List Value} (lends : ∀ value ∈ values, session.Lends value) :
    session.environment.Supplied (session.owned.map .value) values := fun value member =>
  (lends value member).imp List.mem_map_of_mem .inr

/-- The accounts of a machine are right at every step, and in the end they are those of the host. -/
theorem afloat_of_thrifty {machine : Machine α}
    (thrifty : machine.Thrifty config (Suffices config gives)) :
    machine.environment.WithinBudget config ∧
      ∀ result, machine.result? = some result → Afloat config ⟨machine.environment, gives result⟩ := by
  obtain ⟨owned, solvent⟩ := thrifty.pays.solvent
  refine ⟨solvent.withinBudget, fun result finished => ?_⟩
  obtain ⟨left, solvent, enough⟩ := thrifty.pays.ends finished
  exact ⟨enough _ solvent, thrifty.natives⟩

/-- Whatever a host starts, it keeps to the budget at every step and in the end. -/
theorem Starts.afloat (starts : Starts session program gives) (afloat : session.Afloat config)
    (steps : Nat) :
    ((⟨session.environment, .host program⟩ : Machine α).forward steps).environment.WithinBudget
        config ∧
      ∀ result, ((⟨session.environment, .host program⟩ : Machine α).forward steps).result? =
        some result → Afloat config
          ⟨((⟨session.environment, .host program⟩ : Machine α).forward steps).environment,
            gives result⟩ := by
  obtain ⟨solvent, natives⟩ := afloat
  have all : program.Frugal [] (Suffices config gives) (session.owned.map .value) →
      ((⟨session.environment, .host program⟩ : Machine α).forward steps).Thrifty config
        (Suffices config gives) := fun frugal => Machine.thrifty_forward natives solvent frugal steps
  cases starts with
  | source source =>
      exact afloat_of_thrifty (all ((Host.frugal_executeSource source).weaken fun _ _ =>
        suffices_of_leaves))
  | image bytes =>
      exact afloat_of_thrifty (all ((Host.frugal_executeImage bytes).weaken fun _ _ =>
        suffices_of_leaves))
  | program program =>
      exact afloat_of_thrifty (all ((Host.frugal_executeProgram program).weaken fun _ _ =>
        suffices_of_leaves))
  | poll now =>
      exact afloat_of_thrifty (all ((Host.frugal_poll now).weaken fun _ _ same _ solvent =>
        solvent.perm same))
  | call callee args lends =>
      have goesOn : Host.Expects [] (Suffices config fun outcome : Except Fault Value =>
          outcome.toOption.toList ++ session.owned) (session.owned.map .value) .done :=
        ⟨fun _ _ => id, fun _ _ => id⟩
      cases steps with
      | zero => exact ⟨solvent.withinBudget, fun _ impossible => by cases impossible⟩
      | succ steps =>
          exact afloat_of_thrifty (Machine.thrifty_forward_call natives solvent
            (supplied_of_lends lends) goesOn steps)

/-! ## Operations -/

/-- What the host has is taken from what it owns. -/
theorem solvent_given {env : Environment} {owned : List Value} {value : Value}
    (has : value ∈ owned ∨ value.block? = none)
    (solvent : env.Solvent config (owned.map .value)) :
    env.Solvent config (.value value :: (owned.erase value).map .value) := by
  by_cases member : value ∈ owned
  · exact solvent.perm ((List.perm_cons_erase member).map _)
  · rw [List.erase_of_not_mem member]
    exact solvent.add (has.resolve_left member)

/-- A request that the host makes. -/
theorem afloat_answer (request : Request) (afloat : session.Afloat config) (takes : request.takes = [])
    (reads : request.reads = []) {owned : List Value}
    (gives : owned.map .value =
      request.gives (Environment.answer request session.environment).1 ++ session.owned.map .value) :
    Afloat config ⟨(Environment.answer request session.environment).2, owned⟩ := by
  obtain ⟨solvent, natives⟩ := afloat
  have none : ∀ value ∈ request.reads, Covers (session.owned.map .value ++ [].map .value) value := by
    rw [reads]
    exact fun _ member => absurd member List.not_mem_nil
  have answered := Solvent.answer request (by rw [takes]; exact solvent)
    (fun _ member => absurd member List.not_mem_nil) none
  refine ⟨gives ▸ answered.2, ?_⟩
  rw [(backstage_answer request session.environment).natives]
  exact natives

theorem natives_defineGlobal (name : String) (value : Value) (env : Environment) :
    (Environment.defineGlobal name value env).2.natives = env.natives := by
  obtain ⟨globals, heap, same⟩ := Ground.defineGlobal_changes name value env
  rw [same]

theorem natives_allocForeign (text : String) (hostHandle : Nat) (env : Environment) :
    (Environment.allocForeign text hostHandle env).2.natives = env.natives := by
  have blind : Blind (Environment.onHeap (·.allocForeign text hostHandle) : Action Value).run :=
    blindAction_onHeap _
  have kept := congrArg Environment.natives (blind.after env)
  unfold Environment.allocForeign notingFullHeap
  rw [action_tryCatch]
  change (Environment.onHeap (·.allocForeign text hostHandle) env).2.natives =
    env.natives at kept
  generalize Environment.onHeap (·.allocForeign text hostHandle) env = outcome at kept
  obtain ⟨fault | value, after⟩ := outcome <;> exact kept

/-- A frugal native function is made known. -/
theorem afloat_register {name : String} {run : NativeFunction} (afloat : session.Afloat config)
    (frugal : run.IsFrugal) :
    Afloat config ⟨(Environment.register name run session.environment).2, session.owned⟩ := by
  obtain ⟨solvent, natives⟩ := afloat
  have known : ∀ (id : Nat) (all : Array Native) log, (∀ native ∈ all, native.run.IsFrugal) →
      Afloat config ⟨(Environment.defineGlobal name (.native id)
        { session.environment with natives := all, log }).2, session.owned⟩ := by
    intro id all log frugal
    have changed : { session.environment with natives := all, log }.Solvent config
        (session.owned.map .value) := by
      obtain ⟨modest, balanced⟩ := solvent
      exact ⟨{ modest with }, balanced⟩
    have given : { session.environment with natives := all, log }.Solvent config
        (.value (.native id) :: session.owned.map .value) := changed.add rfl
    refine ⟨given.defineGlobal name, ?_⟩
    rw [natives_defineGlobal]
    exact frugal
  unfold Environment.register
  rw [update_bind, update_view]
  cases found : session.environment.nativeId? name with
  | some id =>
      refine known id _ _ fun native member => ?_
      rcases Array.mem_or_eq_of_mem_setIfInBounds member with old | rfl
      · exact natives native old
      · exact frugal
  | none =>
      refine known _ _ _ fun native member => ?_
      rcases Array.mem_push.mp member with old | rfl
      · exact natives native old
      · exact frugal

/-- Every operation of a host keeps the accounts right. -/
theorem Afloat.operation (afloat : session.Afloat config) (operation : session.Operation after) :
    after.Afloat config := by
  have ⟨solvent, natives⟩ := afloat
  cases operation with
  | run program gives starts steps result after ran =>
      unfold Environment.run Machine.run at ran
      obtain ⟨other, finished, same⟩ := Option.map_eq_some_iff.mp ran
      cases same
      exact (starts.afloat afloat steps).2 _ finished
  | startTimer wait callback repeats param lends =>
      have started := ensures_startTimer wait repeats callback param session.environment
        ⟨solvent, supplied_of_lends lends⟩
      have same := (backstage_answer (.startTimer wait callback repeats param)
        session.environment).natives
      refine ⟨?_, fun native member => natives native (same ▸ member)⟩
      dsimp only
      generalize Environment.startTimer wait callback repeats param session.environment = outcome
        at started
      obtain ⟨fault | id, after⟩ := outcome
      · exact started.2
      · exact started
  | stopTimer id => exact afloat_answer (.stopTimer id) afloat rfl rfl rfl
  | stopTimers => exact afloat_answer .stopTimers afloat rfl rfl rfl
  | allocString text =>
      refine afloat_answer (.allocString text) afloat rfl rfl ?_
      change _ = Request.gives (.allocString text)
        (Environment.allocString text session.environment).1 ++ _
      cases (Environment.allocString text session.environment).1 <;> rfl
  | allocForeign text hostHandle =>
      have taken := spends_allocForeign text hostHandle session.environment solvent
      have same := natives_allocForeign text hostHandle session.environment
      refine ⟨?_, fun native member => natives native (same ▸ member)⟩
      dsimp only
      generalize Environment.allocForeign text hostHandle session.environment = outcome at taken
      obtain ⟨fault | value, after⟩ := outcome
      · exact taken.2
      · exact taken
  | define name value has =>
      refine ⟨(solvent_given has solvent).defineGlobal name, ?_⟩
      rw [natives_defineGlobal]
      exact natives
  | register name native frugal => exact afloat_register afloat frugal
  | retain value lends =>
      have supplied : session.environment.Supplied (session.owned.map .value) [value] :=
        supplied_of_lends fun other same => List.mem_singleton.mp same ▸ lends
      exact ⟨solvent.retain (solvent.knows (supplied value List.mem_cons_self)), natives⟩
  | release value has => exact ⟨(solvent_given has solvent).release, natives⟩
  | advance ticks =>
      obtain ⟨modest, balanced⟩ := solvent
      exact ⟨⟨{ modest with }, balanced⟩, natives⟩

/-- Nothing is kept at first. -/
theorem afloat_blank (config : Config) : Afloat config (blank config) where
  solvent := by
    have none : (Environment.new config).programs = #[] := Array.map_empty
    refine ⟨⟨rfl, Nat.zero_le _, Nat.zero_le _, ?_, Nat.zero_le _, rfl, ?_⟩, [], ?_⟩
    · change 0 = sumOver _ (Environment.new config).programs.toList
      rw [none]
      rfl
    · exact Heap.fitting_new config.pools
    · exact Heap.balanced_new config.pools
  natives native member := absurd member (Array.not_mem_empty native)

theorem reached_registerAll {builtins : List Builtin} : ∀ {env : Environment} {owned : List Value},
    Relation.ReflTransGen Operation ⟨env, owned⟩
      ⟨((builtins.forM fun builtin => discard (register builtin.name builtin.native) : Update Unit)
        env).2, owned⟩ := by
  induction builtins with
  | nil => exact .refl
  | cons builtin rest ih =>
      intro env owned
      have frugal : builtin.native.IsFrugal :=
        (builtin.isCareful_native fun _ _ => trivial : builtin.native.IsCareful anything).frugal id
      exact .head (.register builtin.name builtin.native frugal) ih

/-- The builtin functions are frugal, so a session may well begin with them. -/
theorem reached_start (config : Config) :
    Relation.ReflTransGen Operation (blank config) (start config) :=
  reached_registerAll

/-- **Nothing grows beyond the configured budget.** Whatever a host has done in an environment, and
whatever it runs there next, be it malformed or not: between its operations and at every step of what
it runs, nothing is larger than the configuration allows. -/
theorem within_budget (reached : Relation.ReflTransGen Operation (blank config) session) :
    session.environment.WithinBudget config ∧
      ∀ {α : Type} (program : Host α) (gives : α → List Value), Starts session program gives →
        ∀ steps, ((⟨session.environment, .host program⟩ : Machine α).forward
          steps).environment.WithinBudget config := by
  have afloat : session.Afloat config := by
    induction reached with
    | refl => exact afloat_blank config
    | tail _ operation ih => exact ih.operation operation
  exact ⟨afloat.solvent.withinBudget, fun program gives starts steps =>
    (starts.afloat afloat steps).1⟩

/-- A function that needs more of the stack than it says, and makes an array of an array and a
closure. -/
def hoarding : Program where
  numbers := #[]
  strings := #[]
  functions :=
    #[⟨0, 0, 1, false, #[3, 11, 1, 0, 10, 1, 0, 0, 0, 11, 2, 0, 56]⟩, ⟨0, 0, 0, true, #[57]⟩]

/-- The host keeps what this function has made, with all the blocks that belong to it, while it runs
another malformed program. -/
theorem within_budget_malformed : ∃ session,
    Relation.ReflTransGen Operation (blank {}) session ∧
      session.owned = [.array ⟨0, 0, 4⟩] ∧
      session.environment.heap.get? ⟨0, 0, 4⟩ =
        some (.array #[.array ⟨0, 0, 1⟩, .closure ⟨0, 0, 2⟩] 2 (some ⟨0, 0, 3⟩)) ∧
      session.environment.heap.get? ⟨0, 0, 3⟩ = some .storage ∧
      session.environment.heap.get? ⟨0, 0, 2⟩ = some (.closure ⟨0, 1⟩ #[]) ∧
      ∀ steps, ((⟨session.environment, .host (Host.executeProgram Machine.malformed).run⟩ :
        Machine (Except Fault Value)).forward steps).environment.WithinBudget {} := by
  have made : ((blank {}).environment.run 12 (Host.executeProgram hoarding).run).map
      (fun ended => (ended.1, ended.2.heap.get? ⟨0, 0, 4⟩, ended.2.heap.get? ⟨0, 0, 3⟩,
        ended.2.heap.get? ⟨0, 0, 2⟩)) =
      some (.ok (.array ⟨0, 0, 4⟩),
        some (.array #[.array ⟨0, 0, 1⟩, .closure ⟨0, 0, 2⟩] 2 (some ⟨0, 0, 3⟩)),
        some .storage, some (.closure ⟨0, 1⟩ #[])) := by cbv
  obtain ⟨⟨outcome, after⟩, ran, same⟩ := Option.map_eq_some_iff.mp made
  simp only [Prod.mk.injEq] at same
  obtain ⟨rfl, array, storage, closure⟩ := same
  have reached : Relation.ReflTransGen Operation (blank {}) ⟨after, [.array ⟨0, 0, 4⟩]⟩ :=
    .single (.run _ _ (.program hoarding) 12 _ after ran)
  exact ⟨_, reached, rfl, array, storage, closure,
    (within_budget reached).2 _ _ (.program Machine.malformed)⟩

end Session

end PocketScript
