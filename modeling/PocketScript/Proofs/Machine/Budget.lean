import PocketScript.Proofs.Environment.Spending
import PocketScript.Proofs.Machine.Calls
import PocketScript.Proofs.Machine.Careful
import PocketScript.Proofs.Machine.Changes

/-!
# Machines keep to the budget

A host program is frugal (`Host.Frugal`) when it hands over only references that it owns, and asks only
about values that somebody keeps; it may load whatever programs it likes. As long as the host and the
native functions are frugal, every step of a machine leaves the environment as small as its
configuration says (`Machine.thrifty_step`), however malformed the programs are that run in it.
-/

namespace PocketScript

open Environment

variable {α β : Type}

/-! ## Frugal programs -/

namespace Host

variable {terms : Terms} {borrowed : List Value} {owned : List Reference}
  {post last : α → List Reference → Prop}

/-- The program gives up no more than it owns. What it ends with, and what it then owns, is as
described. -/
def Frugal (borrowed : List Value) (post : α → List Reference → Prop) :
    Host α → List Reference → Prop
  | .done result, owned => post result owned
  | .ask request next, owned => ∃ rest, owned.Perm (request.takes ++ rest) ∧
      (∀ value ∈ request.reads, Covers (rest ++ borrowed.map .value) value) ∧
        ∀ answer, (request.IsSound → request.Fair answer) →
          (next answer).Frugal borrowed post (request.gives answer ++ rest)
  | .call callee args next, owned =>
      (∀ value ∈ callee :: args, Covers (owned ++ borrowed.map .value) value) ∧
        (∀ value, (next (.ok value)).Frugal borrowed post (.value value :: owned)) ∧
          ∀ fault, (next (.error fault)).Frugal borrowed post owned

/-- Careful programs are frugal. -/
theorem Careful.frugal {program : Host α} (careful : program.Careful terms borrowed post owned)
    (untrusted : ¬ terms.trusted) (weaker : ∀ result owned, post result owned → last result owned) :
    program.Frugal borrowed last owned := by
  induction program generalizing owned with
  | done result => exact weaker result owned careful
  | ask request next ih =>
      obtain ⟨rest, split, sound, covers, goesOn⟩ := careful
      exact ⟨rest, split, covers, fun answer fair => ih answer (goesOn answer (fair sound))⟩
  | call callee args next ih =>
      obtain ⟨covers, succeeds, fails⟩ := careful
      exact ⟨covers, fun value => ih _ (succeeds value), fun fault =>
        ih _ (fails fault fun trusted => absurd trusted untrusted)⟩

/-- What follows a call. -/
def Expects (borrowed : List Value) (post : α → List Reference → Prop) (owned : List Reference)
    (resume : Except Fault Value → Host α) : Prop :=
  (∀ value, (resume (.ok value)).Frugal borrowed post (.value value :: owned)) ∧
    ∀ fault, (resume (.error fault)).Frugal borrowed post owned

theorem Expects.resume {resume : Except Fault Value → Host α}
    (expects : Expects borrowed post owned resume) (outcome : Except Fault Value) :
    (resume outcome).Frugal borrowed post (outcome.toOption.toList.map .value ++ owned) := by
  cases outcome with
  | ok value => exact expects.1 value
  | error fault => exact expects.2 fault

end Host

/-- The result is owned, or takes no block. -/
def Yields (result : Except Fault Value) (owned : List Reference) : Prop :=
  ∀ value, result = .ok value → .value value ∈ owned ∨ value.block? = none

/-- Whatever the arguments are, the function gives up no more than it owns. -/
def NativeFunction.IsFrugal (native : NativeFunction) : Prop :=
  ∀ args, (native args).run.Frugal args Yields []

theorem NativeFunction.IsCareful.frugal {terms : Terms} {native : NativeFunction}
    (careful : native.IsCareful terms) (untrusted : ¬ terms.trusted) : native.IsFrugal := by
  refine fun args => (careful args).frugal untrusted fun result owned delivers => ?_
  rintro value rfl
  obtain ⟨idle, -, same | ⟨plain, -⟩⟩ := delivers
  · exact .inl (same.mem_iff.mpr List.mem_cons_self)
  · exact .inr plain.block

/-! ## Native functions stay the same -/

namespace Environment

variable {env : Environment}

/-- The native functions are the same afterwards. -/
def KeepsNatives (action : Action α) : Prop :=
  ∀ env, (action env).2.natives = env.natives

theorem tolerant_natives : Tolerant fun before after => after.natives = before.natives where
  trans one two := two.trans one
  aside _ _ _ _ := rfl

/-- An instruction registers none. -/
theorem keepsNatives_executeNext : KeepsNatives executeNext :=
  tolerant_natives.executeNext_of_globals fun _ _ _ => rfl

end Environment

/-! ## Those who wait -/

namespace Machine

variable {config : Config} {post : α → List Reference → Prop} {env origin after : Environment}
  {callers target : Callers α} {references owned : List Reference} {machine : Machine α}

/-- Those who wait for a call go on with what they own; the arguments of a native function are where
they were when it began to wait. -/
inductive Waiting (post : α → List Reference → Prop) (stack : Array Value) :
    Callers α → List Reference → Prop
  | host (caller : Caller α) (owned : List Reference)
      (goesOn : Host.Expects [] post owned caller.resume) : Waiting post stack (.host caller) owned
  | native (caller : Caller (Except Fault Value)) (place : Nat) (outer : Callers α)
      (owned references : List Reference) (below : Waiting post stack outer references)
      (deep : outer.depth ≤ caller.depth)
      (goesOn : Host.Expects (stack.extract (place + 1) caller.depth).toList Yields owned
        caller.resume) :
      Waiting post stack (.native caller place outer) (owned ++ references)

/-- Stacks that are the same below hold the same there. -/
theorem extract_of_below {one two : Array Value} {first last : Nat}
    (same : ∀ index, index < last → two[index]? = one[index]?) :
    two.extract first last = one.extract first last := by
  apply Array.ext_getElem?
  intro index
  have told : ∀ stack : Array Value, (stack.extract first last)[index]? =
      if first + index < last then stack[first + index]? else none := by
    intro stack
    rw [Array.getElem?_extract]
    by_cases below : first + index < last
    · rw [if_pos below]
      by_cases inside : first + index < stack.size
      · rw [if_pos (by omega)]
      · rw [if_neg (by omega), Array.getElem?_eq_none (Nat.le_of_not_lt inside)]
    · rw [if_neg below, if_neg (by omega)]
  rw [told, told]
  split
  · exact same _ ‹_›
  · rfl

/-- Callers go on to wait while the stack below is kept. -/
theorem Waiting.mono {stack stack' : Array Value} (waiting : Waiting post stack callers references)
    (same : ∀ index, index < callers.depth → stack'[index]? = stack[index]?) :
    Waiting post stack' callers references := by
  induction waiting with
  | host caller owned goesOn => exact .host caller owned goesOn
  | native caller place outer owned references _ deep goesOn ih =>
      refine .native caller place outer owned references
        (ih fun index below => same index (Nat.lt_of_lt_of_le below deep)) deep ?_
      have args := @extract_of_below stack stack' (place + 1) caller.depth same
      rw [args]
      exact goesOn

/-! ## The accounts of a machine -/

/-- The environment is solvent with what those own who are at work or wait. -/
inductive Pays (config : Config) (post : α → List Reference → Prop) : Machine α → Prop
  | host (env : Environment) (program : Host α) (owned : List Reference)
      (solvent : env.Solvent config owned) (frugal : program.Frugal [] post owned) :
      Pays config post ⟨env, .host program⟩
  | native (env : Environment) (program : Host (Except Fault Value)) (place : Nat)
      (callers : Callers α) (owned references : List Reference)
      (waiting : Waiting post env.stack callers references)
      (solvent : env.Solvent config (owned ++ references))
      (frugal : program.Frugal (env.stack.extract (place + 1)).toList Yields owned) :
      Pays config post ⟨env, .native program place callers⟩
  | script (env : Environment) (callers : Callers α) (references : List Reference)
      (waiting : Waiting post env.stack callers references)
      (solvent : env.Solvent config references) :
      Pays config post ⟨env, .script callers⟩

/-- The accounts are right, the native functions are frugal, and a script or a native function runs in
a call that the host has made. -/
structure Thrifty (config : Config) (post : α → List Reference → Prop) (machine : Machine α) :
    Prop where
  pays : Pays config post machine
  natives : ∀ native ∈ machine.environment.natives, native.run.IsFrugal
  underway : (∃ program, machine.control = .host program) ∨
    ∃ origin caller, Underway origin (.host caller) machine

/-- A machine that pays is solvent. -/
theorem Pays.solvent (pays : Pays config post machine) :
    ∃ owned, machine.environment.Solvent config owned := by
  cases pays with
  | host _ _ owned solvent _ => exact ⟨owned, solvent⟩
  | native _ _ _ _ owned references _ solvent _ => exact ⟨owned ++ references, solvent⟩
  | script _ _ references _ solvent => exact ⟨references, solvent⟩

/-- What the host owns when it has finished is as described. -/
theorem Pays.ends (pays : Pays config post machine) {result : α}
    (finished : machine.result? = some result) :
    ∃ owned, machine.environment.Solvent config owned ∧ post result owned := by
  cases pays with
  | host env program owned solvent frugal =>
      cases program with
      | done other =>
          cases finished
          exact ⟨owned, solvent, frugal⟩
      | ask request next => cases finished
      | call callee args next => cases finished
  | native => cases finished
  | script => cases finished

/-- Whoever waits for the innermost call goes on. -/
theorem pays_resume (outcome : Except Fault Value)
    (waiting : Waiting post env.stack callers references)
    (height : env.stack.size ≤ callers.depth)
    (solvent : env.Solvent config (outcome.toOption.toList.map .value ++ references)) :
    Pays config post ⟨env, callers.resume outcome⟩ := by
  cases waiting with
  | host caller owned goesOn => exact .host _ _ _ solvent (goesOn.resume outcome)
  | native caller place outer owned others below deep goesOn =>
      have args : env.stack.extract (place + 1) caller.depth =
          env.stack.extract (place + 1) := by
        apply Array.ext_getElem?
        intro index
        have high : env.stack.size ≤ caller.depth := height
        rw [Array.getElem?_extract, Array.getElem?_extract, Nat.min_eq_right high, Nat.min_self]
      rw [← List.append_assoc] at solvent
      exact .native _ _ place outer _ others below solvent (args ▸ goesOn.resume outcome)

theorem stack_unwind (frames depth : Nat) (env : Environment) :
    (unwind frames depth env).2.stack = env.stack.shrink depth := rfl

/-- The innermost call fails, and what belongs to it is given up. -/
theorem pays_fail (fault : Fault) (waiting : Waiting post env.stack callers references)
    (solvent : env.Solvent config references) :
    Pays config post (fail env callers fault) := by
  have size : (unwind callers.frames callers.depth env).2.stack.size ≤ callers.depth := by
    rw [stack_unwind, Array.size_shrink]
    omega
  have below : ∀ index, index < callers.depth →
      (unwind callers.frames callers.depth env).2.stack[index]? =
        env.stack[index]? := fun index below => by
    rw [stack_unwind]
    exact getElem?_shrink below
  exact pays_resume (.error fault) (waiting.mono below) size
    (solvent.unwind callers.frames callers.depth)

/-- An attempt to enter a call. -/
theorem pays_afterEntering {outcome : Except Fault EnteredCall × Environment}
    (waiting : Waiting post outcome.2.stack callers references)
    (solvent : outcome.2.Solvent config references)
    (natives : ∀ program place, outcome.1 = .ok (.native program place) →
      program.Frugal (outcome.2.stack.extract (place + 1)).toList Yields []) :
    Pays config post (afterEntering outcome callers) := by
  obtain ⟨fault | entered, after⟩ := outcome
  · exact pays_fail fault waiting solvent
  · cases entered with
    | script => exact .script after callers references waiting solvent
    | native program place =>
        exact .native after program place callers [] references waiting solvent
          (natives program place rfl)

theorem frugal_of_enterCall {argCount place : Nat} {program : Host (Except Fault Value)}
    (natives : ∀ native ∈ env.natives, native.run.IsFrugal)
    (entered : (enterCall argCount env).1 = .ok (.native program place)) :
    program.Frugal ((enterCall argCount env).2.stack.extract (place + 1)).toList Yields [] := by
  have same : enterCall argCount env =
      (.ok (.native program place), (enterCall argCount env).2) :=
    Prod.ext entered rfl
  obtain ⟨kept, native, member, rfl⟩ := enterCall_native same
  rw [kept]
  exact natives native member _

theorem frugal_of_runNext {place : Nat} {program : Host (Except Fault Value)}
    (natives : ∀ native ∈ env.natives, native.run.IsFrugal)
    (entered : (runNext env).1 = .ok (some (.native program place))) :
    program.Frugal ((runNext env).2.stack.extract (place + 1)).toList Yields [] := by
  have kept := keepsNatives_executeNext env
  unfold runNext at entered ⊢
  rw [action_bind] at entered ⊢
  generalize executeNext env = outcome at entered kept ⊢
  obtain ⟨fault | argCount, middle⟩ := outcome
  · cases entered
  · cases argCount with
    | none => cases entered
    | some argCount =>
        rw [← kept] at natives
        simp only at entered ⊢
        rw [action_bind] at entered ⊢
        have frugal := @frugal_of_enterCall middle argCount place program natives
        generalize enterCall argCount middle = outcome at entered frugal ⊢
        obtain ⟨fault | call, after⟩ := outcome
        · cases entered
        · cases entered
          exact frugal rfl

theorem frugal_of_enterHostCall {callee : Value} {args : List Value} {place : Nat}
    {program : Host (Except Fault Value)}
    (natives : ∀ native ∈ env.natives, native.run.IsFrugal)
    (entered : (enterHostCall callee args env).1 = .ok (.native program place)) :
    program.Frugal ((enterHostCall callee args env).2.stack.extract (place + 1)).toList
      Yields [] := by
  rw [enterHostCall_eq] at entered ⊢
  by_cases able : callee.isFunction = true
  case neg =>
    rw [if_neg able] at entered
    cases entered
  rw [if_pos able] at entered ⊢
  by_cases full : env.config.stackSize < env.stack.size + (args.length + 1)
  · rw [if_pos full] at entered
    cases entered
  · rw [if_neg full] at entered ⊢
    exact @frugal_of_enterCall (env.sharing (callee :: args)) _ _ _ natives entered

/-- The stack stays as it was below the callee of a call from outside. -/
theorem below_enterHostCall (callee : Value) (args : List Value) {index : Nat}
    (below : index < env.stack.size) :
    (enterHostCall callee args env).2.stack[index]? = env.stack[index]? := by
  rw [enterHostCall_eq]
  split
  · split
    · rfl
    · have pushed : (env.sharing (callee :: args)).stack.size =
          env.stack.size + (args.length + 1) := by
        rw [size_sharing, List.length_cons]
      have entered := @guarded_enterCall (env.sharing (callee :: args)) args.length (by omega)
      rw [pushed, Nat.add_sub_cancel] at entered
      exact (entered.stack index below).trans
        ((guarded_sharing env (callee :: args) 0).stack index below)
  · rfl

/-! ## A step of a machine -/

/-- Who makes a call waits for it. -/
theorem pays_enterHostCall {callee : Value} {args : List Value}
    (natives : ∀ native ∈ env.natives, native.run.IsFrugal)
    (waiting : Waiting post env.stack callers references)
    (deep : callers.depth ≤ env.stack.size)
    (solvent : env.Solvent config references)
    (supplied : env.Supplied references (callee :: args)) :
    Pays config post (afterEntering (enterHostCall callee args env) callers) := by
  have entered := ensures_enterHostCall callee args env ⟨solvent, supplied⟩
  refine pays_afterEntering (waiting.mono fun index below =>
    below_enterHostCall callee args (Nat.lt_of_lt_of_le below deep)) ?_
    fun program place => frugal_of_enterHostCall natives
  generalize enterHostCall callee args env = outcome at entered ⊢
  obtain ⟨fault | call, after⟩ := outcome
  · exact entered.2
  · exact entered

/-- A step of the host program pays for what it takes. -/
theorem pays_stepHost {program : Host α}
    (natives : ∀ native ∈ env.natives, native.run.IsFrugal)
    (solvent : env.Solvent config owned) (frugal : program.Frugal [] post owned) :
    Pays config post (stepHost env program) := by
  cases program with
  | done result => exact .host env _ owned solvent frugal
  | ask request next =>
      obtain ⟨rest, split, covers, goesOn⟩ := frugal
      obtain ⟨fair, solvent'⟩ := (solvent.perm split).answer request
        (fun _ member => absurd member List.not_mem_nil) covers
      exact .host _ _ _ solvent' (goesOn _ fair)
  | call callee args next =>
      obtain ⟨covers, goesOn⟩ := frugal
      refine pays_enterHostCall natives (.host _ owned goesOn) (Nat.le_refl _) solvent
        fun value member => ?_
      rcases covers value member with kept | plain
      · rw [List.map_nil, List.append_nil] at kept
        exact .inl kept
      · exact .inr (.inr (.inr plain.block))

/-- And so does one of a native function. -/
theorem pays_stepNative {program : Host (Except Fault Value)} {place : Nat}
    (natives : ∀ native ∈ env.natives, native.run.IsFrugal)
    (deep : callers.depth ≤ place) (inside : place < env.stack.size)
    (waiting : Waiting post env.stack callers references)
    (solvent : env.Solvent config (owned ++ references))
    (frugal : program.Frugal (env.stack.extract (place + 1)).toList Yields owned) :
    Pays config post (stepNative env program place callers) := by
  have lent : ∀ value ∈ (env.stack.extract (place + 1)).toList, value ∈ env.stack :=
    fun value member => by
      rw [Array.toList_extract, List.extract_eq_take_drop] at member
      exact Array.mem_toList_iff.mp (List.mem_of_mem_drop (List.mem_of_mem_take member))
  cases program with
  | done result =>
      have given : env.Solvent config (result.toOption.toList.map .value ++ references) := by
        cases result with
        | error fault => exact solvent.forget
        | ok value =>
            obtain member | blockless := frugal value rfl
            · have first := (List.perm_cons_erase member).append_right references
              exact (solvent.perm (first.trans List.perm_middle.symm)).forget
            · exact solvent.forget.add blockless
      have left := spends_leaveNative place result env given
      have kept := (leaveNative_cases (Nat.le_of_lt inside) result).1
      unfold stepNative
      simp only
      generalize leaveNative place result env = outcome at left kept
      have waiting' := waiting.mono fun index below =>
        kept.stack index (Nat.lt_of_lt_of_le below deep)
      obtain ⟨fault | _, after⟩ := outcome
      · exact pays_fail fault waiting' left.2
      · exact .script after callers references waiting' left
  | ask request next =>
      obtain ⟨rest, split, covers, goesOn⟩ := frugal
      have stack := (backstage_answer request env).stack
      obtain ⟨fair, solvent'⟩ := Solvent.answer request
        (solvent.perm ((split.append_right references).trans (.of_eq (List.append_assoc _ _ _))))
        lent fun value member => (covers value member).mono fun reference among => by
          simp only [List.mem_append] at among ⊢
          tauto
      rw [← List.append_assoc] at solvent'
      refine .native _ _ place callers _ references ?_ solvent' ?_
      · exact stack ▸ waiting
      · exact stack ▸ goesOn _ fair
  | call callee args next =>
      obtain ⟨covers, goesOn⟩ := frugal
      refine pays_enterHostCall natives ?_ (Nat.le_refl _) solvent fun value member => ?_
      · have high : callers.depth ≤ env.stack.size := by omega
        exact .native _ place callers owned references waiting high goesOn
      · rcases covers value member with kept | plain
        · rcases List.mem_append.mp kept with here | borrowed
          · exact .inl (List.mem_append_left _ here)
          · obtain ⟨other, among, same⟩ := List.mem_map.mp borrowed
            injection same with same
            exact .inr (.inl (same ▸ lent other among))
        · exact .inr (.inr (.inr plain.block))

/-- And an instruction. -/
theorem pays_stepScript
    (natives : ∀ native ∈ env.natives, native.run.IsFrugal)
    (stacked : env.Stacked callers.frames env.frames.size callers.depth)
    (clear : env.Clear callers.frames env.frames.size (callers.depth + 1)
      env.stack.size)
    (waiting : Waiting post env.stack callers references)
    (solvent : env.Solvent config references) :
    Pays config post (stepScript env callers) := by
  by_cases more : callers.frames < env.frames.size
  · obtain ⟨frame, function, stands, deep⟩ := stands_of_stacked stacked clear more
    have kept := (guarded_runNext stands).stack
    have ran : Spends config references [] runNext fun _ => [] :=
      spends_bind spends_executeNext fun argCount => by
        cases argCount with
        | none => exact spends_pure rfl
        | some argCount => exact spends_bind (spends_enterCall argCount) fun _ => spends_pure rfl
    have after := ran env solvent
    have frugal := @frugal_of_runNext env
    rw [stepScript_eq more]
    generalize runNext env = outcome at kept after frugal
    have waiting' := waiting.mono fun index below => kept index (by omega)
    obtain ⟨fault | entered, after'⟩ := outcome
    · exact pays_fail fault waiting' after.2
    · cases entered with
      | none => exact .script after' callers references waiting' after
      | some entered =>
          refine pays_afterEntering waiting' after fun program place same => ?_
          cases same
          exact frugal natives rfl
  · obtain ⟨-, height⟩ | ⟨more', -⟩ := clear
    · obtain ⟨low, -⟩ | ⟨value, -, there, popped⟩ := pop_cases callers.depth env
      · omega
      · have given := @spends_pop config references [] callers.depth env solvent
        unfold stepScript
        rw [if_neg more]
        rw [popped] at given ⊢
        refine pays_resume (.ok value) (waiting.mono fun index below => ?_) ?_ given
        · rw [Array.getElem?_pop, if_pos (by omega)]
        · rw [Array.size_pop]
          omega
    · exact absurd more' more

/-- A step registers no native function. -/
theorem natives_step (machine : Machine α) :
    machine.step.environment.natives = machine.environment.natives :=
  changes_step tolerant_natives
    (fun request env => (backstage_answer request env).natives)
    keepsNatives_executeNext machine

theorem underway_succ (machine : Machine α)
    (underway : (∃ program, machine.control = .host program) ∨
      ∃ origin caller, Underway origin (.host caller) machine) :
    (∃ program, machine.step.control = .host program) ∨
      ∃ origin caller, Underway origin (.host caller) machine.step := by
  have settled : ∀ {origin : Environment} {caller : Caller α},
      (Underway origin (.host caller) machine.step ∨ Returned origin (.host caller) machine.step) →
        (∃ program, machine.step.control = .host program) ∨
          ∃ origin caller, Underway origin (.host caller) machine.step := by
    rintro origin caller (goesOn | ⟨⟨outcome, resumed⟩, -, -, -⟩)
    · exact .inr ⟨origin, caller, goesOn⟩
    · exact .inl ⟨_, resumed⟩
  obtain ⟨program, same⟩ | ⟨origin, caller, goesOn⟩ := underway
  · obtain ⟨env, control⟩ := machine
    subst same
    cases program with
    | done result => exact .inl ⟨_, rfl⟩
    | ask request next => exact .inl ⟨_, rfl⟩
    | call callee args next => exact settled (underway_begins rfl)
  · exact settled (underway_step goesOn)

/-- Every step keeps the accounts right. -/
theorem thrifty_step (thrifty : Thrifty config post machine) : Thrifty config post machine.step := by
  obtain ⟨pays, natives, underway⟩ := thrifty
  refine ⟨?_, fun native member => natives native (natives_step machine ▸ member),
    underway_succ machine underway⟩
  cases pays with
  | host env program owned solvent frugal => exact pays_stepHost natives solvent frugal
  | native env program place callers owned references waiting solvent frugal =>
      obtain ⟨other, same⟩ | ⟨origin, caller, underway⟩ := underway
      · cases same
      · cases underway with
        | native _ _ _ _ suspended stacked clear inside guarded =>
            exact pays_stepNative natives (stacked.depth_le (Nat.le_refl _) clear) inside waiting
              solvent frugal
  | script env callers references waiting solvent =>
      obtain ⟨other, same⟩ | ⟨origin, caller, underway⟩ := underway
      · cases same
      · cases underway with
        | script _ _ suspended stacked clear guarded =>
            exact pays_stepScript natives stacked clear waiting solvent

/-- However many steps there are. -/
theorem Thrifty.forward (thrifty : Thrifty config post machine) (steps : Nat) :
    Thrifty config post (machine.forward steps) := by
  induction steps with
  | zero => exact thrifty
  | succ steps ih =>
      rw [forward_succ]
      exact thrifty_step ih

/-- So a machine is thrifty however far it runs. -/
theorem thrifty_forward {program : Host α}
    (natives : ∀ native ∈ env.natives, native.run.IsFrugal)
    (solvent : env.Solvent config owned) (frugal : program.Frugal [] post owned)
    (steps : Nat) : Thrifty config post ((⟨env, .host program⟩ : Machine α).forward steps) :=
  Thrifty.forward ⟨.host env program owned solvent frugal, natives, .inl ⟨program, rfl⟩⟩ steps

/-- A function that is called, and its arguments, need not belong to the host, if only somebody keeps
them when the call begins. -/
theorem thrifty_forward_call {callee : Value} {args : List Value}
    {resume : Except Fault Value → Host α}
    (natives : ∀ native ∈ env.natives, native.run.IsFrugal)
    (solvent : env.Solvent config owned)
    (supplied : env.Supplied owned (callee :: args))
    (goesOn : Host.Expects [] post owned resume) (steps : Nat) :
    Thrifty config post
      ((⟨env, .host (.call callee args resume)⟩ : Machine α).forward (steps + 1)) := by
  have same := natives_step (⟨env, .host (.call callee args resume)⟩ : Machine α)
  have entered : Thrifty config post (step ⟨env, .host (.call callee args resume)⟩) :=
    ⟨pays_enterHostCall natives (.host _ owned goesOn) (Nat.le_refl _) solvent supplied,
      fun native member => natives native (same ▸ member), underway_succ _ (.inl ⟨_, rfl⟩)⟩
  exact entered.forward steps

end Machine

end PocketScript
