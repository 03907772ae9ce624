import PocketScript.Proofs.Environment.Convention
import PocketScript.Proofs.Machine.Lifetime
import PocketScript.Proofs.Machine.Tied

/-!
# Calls of explained programs

The loaded programs are explained by texts and catalogs (`Explained`): the slots of each function are the
variables of its text, the parameters first. So when a function is entered, the arguments are what its
parameters start with (`Tied.enterCall`). When a call fails, frames are left, and what is left of the
slots and cells are still the variables that they were (`Tied.fail`); and so it is whatever a host
program or a native function does.
-/

namespace PocketScript

open Environment Environment.Ground

/-- The loaded programs say about variables what some texts say. -/
def Explained (texts : Nat → List Outline) (catalogs : Nat → Catalog) (programs : Array Program) :
    Prop :=
  ∀ (unit : Nat) program, programs[unit]? = some program →
    program.Catalogued (texts unit) (catalogs unit)

variable {α : Type} {texts : Nat → List Outline} {catalogs : Nat → Catalog}
  {home : Handle → LocalVariable} {chronicle : Chronicle} {terms : Terms}
  {keep : α → List Reference → Prop} {programs programs' : Array Program} {config : Config}
  {env before after : Environment} {callers : Callers α} {frames : List Frame} {frame : Frame}
  {values lower locals operands args : List Value} {callee value : Value}
  {references : List Reference} {keeps : Reference} {function : FunctionDef} {listing : Listing}
  {level cells : Nat → Nat} {program : Program} {instr : Instruction} {target : FunctionRef}
  {name : String}

/-! ## Functions of explained programs -/

namespace Explained

theorem fewer (explained : Explained texts catalogs programs')
    (grown : ∀ (unit : Nat) program, programs[unit]? = some program →
      programs'[unit]? = some program) : Explained texts catalogs programs :=
  fun unit program loaded => explained unit program (grown unit program loaded)

section

variable (explained : Explained texts catalogs programs)
  (loaded : programs[target.unit]? = some program)
  (found : program.function? target.index = some function)

include explained loaded found

theorem outline : (texts target.unit)[target.index.toNat]?.getD {} =
    (catalogs target.unit).outline target.index.toNat := by
  have catalogued := explained _ _ loaded
  obtain ⟨inside, -⟩ := Array.getElem?_eq_some_iff.mp found
  have there := List.getElem?_eq_getElem (catalogued.count ▸ inside)
  rw [there, catalogued.outline _ _ there, Option.getD_some]

theorem codes : (catalogs target.unit).Codes target.index.toNat function :=
  (explained _ _ loaded).codes _ _ found

/-- A function with names in its sheet is not the top level, so it owns its slots. -/
theorem owns (named : target.sheet catalogs ≠ {}) :
    (catalogs target.unit).Owns target.index.toNat function := by
  refine (explained _ _ loaded).owns _ _ (Nat.pos_of_ne_zero fun zero => named ?_) found
  unfold FunctionRef.sheet
  rw [zero]
  exact (explained _ _ loaded).main.2

/-- Nor is a function that boxes some of them. -/
theorem owns_of_boxes (listed : function.code.disassemble = .ok listing) {slot : UInt16}
    (boxes : listing.Boxes slot) : (catalogs target.unit).Owns target.index.toNat function := by
  refine (explained _ _ loaded).owns _ _ (Nat.pos_of_ne_zero fun zero => ?_) found
  refine (explained _ _ loaded).unboxed function listing ?_ listed slot boxes
  rw [← zero]
  exact found

theorem slots_le : (target.sheet catalogs).slots.length ≤ function.varCount.toNat := by
  by_cases empty : target.sheet catalogs = {}
  · rw [empty]
    exact Nat.zero_le _
  · exact Nat.le_of_eq (explained.owns loaded found empty).count.symm

theorem nodup : (target.sheet catalogs).slots.Nodup := by
  by_cases empty : target.sheet catalogs = {}
  · rw [empty]
    exact .nil
  · exact (explained.owns loaded found empty).nodup

/-- What the slots and captures of a function are called. -/
theorem own (named : target.sheet catalogs ≠ {}) : ∃ names around,
    target.scopes catalogs = names :: around ∧
      ∀ name, name ∈ (target.sheet catalogs).slots ↔ name ∈ names :=
  (explained.owns loaded found named).mem

end

end Explained

/-- The slots of a function lie among its variables. -/
theorem Occupies.reach_le (explained : Explained texts catalogs programs)
    (occupies : Occupies terms programs config lower keeps frame function listing level cells) :
    frame.reach catalogs ≤ lower.length + 1 + function.varCount.toNat := by
  obtain ⟨program, loaded, found, -⟩ := occupies.program
  have few := @Explained.slots_le texts catalogs programs function program frame.target explained
    loaded found
  unfold Frame.reach
  rw [occupies.base]
  omega

/-- The slots of waiting functions lie below the top of the stack. -/
theorem Layers.reach_le (explained : Explained texts catalogs programs)
    (layers : Layers terms programs config keep callers frames values references) :
    ∀ frame ∈ frames, frame.reach catalogs ≤ values.length := by
  induction layers with
  | host => exact fun _ none => absurd none List.not_mem_nil
  | native _ _ _ _ _ _ _ _ _ _ _ _ _ ih =>
      intro frame member
      rw [List.length_append]
      exact Nat.le_add_right_of_le (ih frame member)
  | frame _ _ frame' _ locals operands callee _ _ _ _ _ _ _ _ occupies waits ih =>
      intro frame member
      simp only [List.length_append, List.length_cons]
      rcases List.mem_append.mp member with below | own
      · have := ih frame below
        omega
      · obtain rfl := List.mem_singleton.mp own
        have := occupies.reach_le explained
        have := (waits .undefined).slots
        omega

/-- The slots of the functions that were there before the innermost call lie below what it has put on the
stack. -/
theorem Layers.reach_depth (explained : Explained texts catalogs programs)
    (layers : Layers terms programs config keep callers frames values references) :
    ∀ frame ∈ frames.take callers.frames, frame.reach catalogs ≤ callers.depth := by
  obtain ⟨frames', more, values', above, references', inner, count, depth, rfl, rfl, -⟩ :=
    layers.innermost
  rw [← count, ← depth, List.take_left]
  exact inner.reach_le explained

/-! ## Calls -/

/-- The names of the parameters stand for the arguments. -/
theorem lookup_zip {slots : List String} {count index : Nat} (once : slots.Nodup)
    (named : slots[index]? = some name) :
    ((slots.take count).zip args).lookup name = if index < count then args[index]? else none := by
  induction slots generalizing count index args with
  | nil => cases named
  | cons first rest ih =>
      obtain ⟨new, once⟩ := List.nodup_cons.mp once
      cases count with
      | zero => simp
      | succ count =>
          cases args with
          | nil => simp
          | cons arg args =>
              cases index with
              | zero =>
                  cases named
                  simp
              | succ index =>
                  have other : name ≠ first := fun same => new (same ▸ List.mem_of_getElem? named)
                  rw [List.take_succ_cons, List.zip_cons_cons, List.lookup_cons,
                    show (name == first) = false from beq_eq_false_iff_ne.mpr other]
                  simp only [Nat.add_lt_add_iff_right, List.getElem?_cons_succ]
                  exact ih once named

/-- What a variable of a function starts with. -/
theorem getElem?_initialVariables {argCount varCount index : Nat} (few : argCount ≤ varCount)
    (inside : index < varCount) :
    (initialVariables args argCount varCount)[index]? =
      some ((if index < argCount then args[index]? else none).getD .undefined) := by
  unfold initialVariables
  by_cases passed : index < argCount
  · rw [if_pos passed]
    by_cases given : index < args.length
    · rw [List.getElem?_append_left (by rw [List.length_take]; omega), List.getElem?_take,
        if_pos passed, List.getElem?_eq_getElem given]
      rfl
    · rw [List.getElem?_append_right (by rw [List.length_take]; omega), List.length_take,
        List.getElem?_replicate, if_pos (by omega), List.getElem?_eq_none (Nat.le_of_not_lt given)]
      rfl
  · rw [if_neg passed, List.getElem?_append_right (by rw [List.length_take]; omega), List.length_take,
      List.getElem?_replicate, if_pos (by omega)]
    rfl

/-- A call finds a function of a program, and enters it, or changes nothing. -/
theorem enterCall_cases (stack : env.stack.toList = values ++ callee :: args) :
    ((enterCall args.length env).2 = env ∧
        ∀ entered, (enterCall args.length env).1 = .ok entered →
          ∃ program place, entered = .native program place) ∨
      ∃ target closure function, env.function? target = some function ∧
        (∀ block, closure = some block → callee = .closure block ∧
          env.heap.closureTarget? block = some target) ∧
        enterCall args.length env = (.ok .script,
          { env.laidOut (values.length + 1) function.argCount.toNat function.varCount.toNat with
            frames := env.frames.push (entered target closure values.length) }) := by
  have size : env.stack.size = values.length + (args.length + 1) := by
    rw [← Array.length_toList, stack, List.length_append, List.length_cons]
  have there : env.stack[values.length]? = some callee := by
    rw [← Array.getElem?_toList, stack, List.getElem?_append_right (Nat.le_refl _), Nat.sub_self]
    rfl
  have calls := enterCall_eq args.length env
  rw [if_neg (by omega), size, Nat.add_sub_cancel] at calls
  simp only [there] at calls
  have stays {outcome : Except Fault EnteredCall}
      (same : enterCall args.length env = (outcome, env))
      (native : ∀ entered, outcome = .ok entered → ∃ program place, entered = .native program place) :
      (enterCall args.length env).2 = env ∧
        ∀ entered, (enterCall args.length env).1 = .ok entered →
          ∃ program place, entered = .native program place := by
    rw [same]
    exact ⟨rfl, native⟩
  cases callee with
  | function target =>
      simp only at calls
      obtain ⟨fault, failed⟩ | ⟨function, known, done⟩ :=
        enterFunction_cases target none values.length env
      · rw [failed] at calls
        exact .inl (stays calls nofun)
      · rw [done] at calls
        exact .inr ⟨target, none, function, known, nofun, calls⟩
  | closure block =>
      simp only at calls
      cases runs : env.heap.closureTarget? block with
      | none =>
          simp only [runs] at calls
          exact .inl (stays calls nofun)
      | some target =>
          simp only [runs] at calls
          obtain ⟨fault, failed⟩ | ⟨function, known, done⟩ :=
            enterFunction_cases target (some block) values.length env
          · rw [failed] at calls
            exact .inl (stays calls nofun)
          · rw [done] at calls
            refine .inr ⟨target, some block, function, known, fun other same => ?_, calls⟩
            cases same
            exact ⟨rfl, runs⟩
  | native id =>
      simp only at calls
      cases known : env.natives[id]? with
      | none =>
          simp only [known] at calls
          exact .inl (stays calls nofun)
      | some native =>
          simp only [known] at calls
          refine .inl (stays calls fun entered same => ?_)
          cases same
          exact ⟨_, _, rfl⟩
  | _ => exact .inl (stays calls nofun)

/-- A function that is entered gets variables of its own. -/
theorem Tied.enterCall (tied : Tied catalogs home chronicle env)
    (explained : Explained texts catalogs env.programs)
    (verified : AllVerified env.programs) (sound : env.heap.blocks.Sound)
    (stack : env.stack.toList = values ++ callee :: args)
    (low : ∀ frame ∈ env.frames.toList, frame.reach catalogs ≤ values.length)
    (shown : ∀ value ∈ args, value.Visible) :
    ((Environment.enterCall args.length env).2 = env ∧
        ∀ called, (Environment.enterCall args.length env).1 = .ok called →
          ∃ program place, called = .native program place) ∨
      ∃ target closure after, Environment.enterCall args.length env = (.ok .script, after) ∧
        after.frames = env.frames.push (entered target closure values.length) ∧
        after.programs = env.programs ∧
        Tied catalogs home (chronicle.enter closure
          ((entered target closure values.length).outline texts).params args) after := by
  refine (enterCall_cases stack).imp id ?_
  rintro ⟨target, closure, function, known, runs, done⟩
  rw [function?_eq] at known
  obtain ⟨program, loaded, found⟩ := Option.bind_eq_some_iff.mp known
  obtain ⟨listing, checked⟩ := (verified _ _ loaded).functions _ _ found
  have few : function.argCount.toNat ≤ function.varCount.toNat := checked.args
  have laid := toList_laidOut stack function.argCount.toNat function.varCount.toNat
  refine ⟨target, closure, _, done, rfl, rfl, ?_⟩
  have spares := spares_laidOut env (values.length + 1) function.argCount.toNat
    function.varCount.toNat
  refine tied.enter sound spares rfl (fun place below => ?_) low
    (fun block same => ?_) shown fun index name named => ?_
  · change (env.laidOut _ _ _).stack[place]? = _
    rw [← Array.getElem?_toList, ← Array.getElem?_toList, laid, stack]
    rcases Nat.lt_or_eq_of_le below with inside | rfl
    · rw [List.getElem?_append_left inside, List.getElem?_append_left inside]
    · rw [List.getElem?_append_right (Nat.le_refl _), List.getElem?_append_right (Nat.le_refl _),
        Nat.sub_self]
      rfl
  · obtain ⟨rfl, leads⟩ := runs block same
    refine ⟨?_, fun other cells held => ?_⟩
    · rw [← Array.getElem?_toList, stack, List.getElem?_append_right (Nat.le_refl _), Nat.sub_self]
      rfl
    · unfold Heap.closureTarget? at leads
      rw [held] at leads
      exact Option.some.inj leads
  · have owns := explained.owns loaded found fun empty => by
      rw [empty] at named
      cases named
    have params : ((entered target closure values.length).outline texts).params =
        (target.sheet catalogs).slots.take function.argCount.toNat :=
      (congrArg Outline.params (explained.outline loaded found)).trans owns.params
    have once : (target.sheet catalogs).slots.Nodup := owns.nodup
    obtain ⟨inside, -⟩ := List.getElem?_eq_some_iff.mp named
    change (env.laidOut _ _ _).stack[_]? = _
    rw [params, lookup_zip once named, ← Array.getElem?_toList, laid, Nat.add_assoc,
      List.getElem?_append_right (Nat.le_add_right _ _), Nat.add_sub_cancel_left, Nat.add_comm 1,
      List.getElem?_cons_succ]
    exact getElem?_initialVariables few (Nat.lt_of_lt_of_le inside (Nat.le_of_eq owns.count.symm))

/-! ## Instructions and slots -/

section

variable {activation : Activation} {place : Nat}

/-- What an action does that first looks around. -/
theorem kept_of_look {β γ : Type} {first : Action β} {next : β → Action γ}
    (looks : (first env).2 = env)
    (kept : ∀ value, (next value env).2.stack[place]? = env.stack[place]?) :
    ((first >>= next) env).2.stack[place]? = env.stack[place]? := by
  rw [action_bind]
  generalize first env = outcome at looks
  obtain ⟨fault | value, after⟩ := outcome
  · rw [show after = env from looks]
  · obtain rfl : after = env := looks
    exact kept value

/-- The place of a variable is a fixed one. -/
theorem localPlace_looks (index : UInt16) (env : Environment) :
    (activation.localPlace index env).2 = env := by
  unfold Activation.localPlace
  split <;> rfl

theorem slot_looks (place : Nat) (env : Environment) :
    (slot place env).2 = env := by
  cases found : env.stack[place]? with
  | none => rw [slot_eq_error found]
  | some value => rw [slot_eq_ok found]

theorem localCell_looks (index : UInt16) (env : Environment) :
    (localCell activation index env).2 = env := by
  obtain failed | ⟨block, -, -, done⟩ := localCell_cases activation index env
  · rw [failed]
  · rw [done]

/-- Only storing into a variable, and boxing it, changes what lies in slots. -/
theorem slots_kept (stays : instr.op.leaves = false) (store : instr.op ≠ .storeLocal)
    (box : instr.op ≠ .makeCell) (enough : activation.floor ≤ env.stack.size)
    (low : place < activation.floor) :
    (execute activation instr env).2.stack[place]? = env.stack[place]? := by
  -- To other instructions the slots might as well lie below the callee.
  let raised : Activation := { activation with base := activation.floor, varCount := 0 }
  have steps : Stepwise raised (Aloof activation.floor) := stepwise_aloof (Nat.le_refl _)
  have below {action : Action Unit} (aloof : Aloof activation.floor action) :
      (action env).2.stack[place]? = env.stack[place]? :=
    (aloof env enough).below enough low
  have others (same : execute activation instr = execute raised instr) :
      (execute activation instr env).2.stack[place]? = env.stack[place]? :=
    same ▸ below (steps.execute_staying stays)
  obtain ⟨op, a, b⟩ := instr
  cases op with
  | storeLocal => exact absurd rfl store
  | makeCell => exact absurd rfl box
  | loadLocal =>
      exact kept_of_look (localPlace_looks a env) fun there =>
        kept_of_look (slot_looks there env) fun value => below (steps.pushShared value)
  | loadCell => exact kept_of_look (localCell_looks a env) fun cell => below (steps.pushCellValue cell)
  | pushCell =>
      exact kept_of_look (localCell_looks a env) fun cell => below (steps.pushShared (.cell cell))
  | storeCell => exact kept_of_look (localCell_looks a env) fun cell => below (steps.storeInCell cell)
  | ret | retUndefined => cases stays
  | _ => exact others rfl

end

/-! ## Steps of a chronicle -/

namespace Chronicle

variable {machine : Machine α}

theorem leave_self {count : Nat} (many : chronicle.chains.length ≤ count) :
    chronicle.leave count = chronicle := by
  unfold leave
  rw [List.take_of_length_le many]

/-- A step executes no instruction, or one that fails. -/
theorem next_left (few : machine.step.environment.frames.size ≤ machine.environment.frames.size)
    (idle : machine.executed? = none) :
    chronicle.next texts machine = chronicle.leave machine.step.environment.frames.size := by
  unfold next
  simp only [if_neg (Nat.not_lt.mpr few), idle]

theorem next_executed (few : machine.step.environment.frames.size ≤ machine.environment.frames.size)
    (done : machine.executed? = some after) :
    chronicle.next texts machine =
      (chronicle.execute texts machine.environment after).leave
        machine.step.environment.frames.size := by
  unfold next
  simp only [if_neg (Nat.not_lt.mpr few), done]

theorem next_entered (more : machine.environment.frames.size < machine.step.environment.frames.size)
    (last : machine.step.environment.frames.back? = some frame) :
    chronicle.next texts machine =
      chronicle.enter frame.closure (frame.outline texts).params machine.passed := by
  unfold next
  simp only [if_pos more, last]

end Chronicle

theorem Environment.Preserves.take {count : Nat} (preserves : Preserves count before after) :
    after.frames.toList.take count = before.frames.toList.take count := by
  refine List.ext_getElem? fun index => ?_
  rw [List.getElem?_take, List.getElem?_take]
  split
  · rw [Array.getElem?_toList, Array.getElem?_toList, preserves.frames index ‹_›]
  · rfl

/-- The innermost call fails. -/
theorem Tied.fail (tied : Tied catalogs home chronicle before) (sound : before.heap.blocks.Sound)
    (spares : Spares before after) (preserves : Preserves callers.frames before after)
    (few : callers.frames ≤ before.frames.size)
    (stack : ∀ place < callers.depth, after.stack[place]? = before.stack[place]?)
    (low : ∀ frame ∈ before.frames.toList.take callers.frames, frame.reach catalogs ≤ callers.depth)
    (fault : Fault) :
    (Machine.fail after callers fault).environment.frames.size ≤ before.frames.size ∧
      Tied catalogs home
        (chronicle.leave (Machine.fail after callers fault).environment.frames.size)
        (Machine.fail after callers fault).environment := by
  have frames : (Machine.fail after callers fault).environment.frames.toList =
      before.frames.toList.take callers.frames := by
    change (after.frames.shrink callers.frames).toList = _
    rw [Array.toList_shrink, preserves.take]
  constructor
  · rw [← Array.length_toList, frames, List.length_take]
    omega
  · refine tied.lower sound (spares.trans (spares_unwind after _ _)) ?_ fun frame member place below => ?_
    · rw [frames, List.map_take]
      exact List.take_prefix _ _
    · rw [frames] at member
      have inside := Nat.lt_of_lt_of_le below (low frame member)
      change (after.stack.shrink callers.depth)[place]? = _
      rw [getElem?_shrink inside, stack place inside]

namespace Machine

/-! ## What a step comes to -/

section

variable {fault : Fault} {count place : Nat} {result : Except Fault Value}

/-- The topmost frame executes an instruction. -/
theorem step_next (more : callers.frames < env.frames.size)
    (executed : executeNext env = (.ok none, after)) :
    (⟨env, .script callers⟩ : Machine α).step = ⟨after, .script callers⟩ := by
  change stepScript env callers = _
  unfold stepScript
  rw [if_pos more, executed]

/-- The topmost frame calls something. -/
theorem step_calls (more : callers.frames < env.frames.size)
    (executed : executeNext env = (.ok (some count), after)) :
    (⟨env, .script callers⟩ : Machine α).step =
      afterEntering (enterCall count after) callers := by
  change stepScript env callers = _
  unfold stepScript
  rw [if_pos more, executed]

/-- An instruction fails, and so does the innermost call. -/
theorem step_fails (more : callers.frames < env.frames.size)
    (failed : executeNext env = (.error fault, after)) :
    (⟨env, .script callers⟩ : Machine α).step = fail after callers fault := by
  change stepScript env callers = _
  unfold stepScript
  rw [if_pos more, failed]

/-- A call has ended, and its result is taken. -/
theorem step_resumes (few : ¬ callers.frames < env.frames.size)
    (popped : Environment.pop callers.depth env = (.ok value, after)) :
    (⟨env, .script callers⟩ : Machine α).step = ⟨after, callers.resume (.ok value)⟩ := by
  change stepScript env callers = _
  unfold stepScript
  rw [if_neg few, popped]

theorem step_misses (few : ¬ callers.frames < env.frames.size)
    (failed : Environment.pop callers.depth env = (.error fault, after)) :
    (⟨env, .script callers⟩ : Machine α).step = fail after callers fault := by
  change stepScript env callers = _
  unfold stepScript
  rw [if_neg few, failed]

/-- A native function has come to an end. -/
theorem step_leaves (left : leaveNative place result env = (.ok (), after)) :
    (⟨env, .native (.done result) place callers⟩ : Machine α).step =
      ⟨after, .script callers⟩ := by
  change stepNative env (.done result) place callers = _
  unfold stepNative
  simp only [left]

theorem step_gives_up (failed : leaveNative place result env = (.error fault, after)) :
    (⟨env, .native (.done result) place callers⟩ : Machine α).step =
      fail after callers fault := by
  change stepNative env (.done result) place callers = _
  unfold stepNative
  simp only [failed]

end

/-! ## Steps without instructions -/

variable {machine : Machine α}

/-- A step that enters no function, and executes no instruction or one that fails. -/
theorem tied_of_left {following : Machine α} (steps : machine.step = following)
    (idle : machine.executed? = none)
    (left : following.environment.frames.size ≤ machine.environment.frames.size ∧
      Tied catalogs home (chronicle.leave following.environment.frames.size) following.environment) :
    Tied catalogs home (chronicle.next texts machine) machine.step.environment := by
  subst steps
  rw [Chronicle.next_left left.1 idle]
  exact left.2

/-- The value below the arguments is called. -/
theorem tied_entering (tied : Tied catalogs home chronicle env)
    (explained : Explained texts catalogs env.programs)
    (verified : AllVerified env.programs) (sound : env.heap.blocks.Sound)
    (stack : env.stack.toList = values ++ callee :: args)
    (low : ∀ frame ∈ env.frames.toList, frame.reach catalogs ≤ values.length)
    (shown : ∀ value ∈ args, value.Visible) (few : callers.frames ≤ env.frames.size)
    (outer : ∀ frame ∈ env.frames.toList.take callers.frames,
      frame.reach catalogs ≤ callers.depth)
    (steps : machine.step = afterEntering (enterCall args.length env) callers)
    (size : machine.environment.frames.size = env.frames.size)
    (passes : machine.passed = args) (idle : machine.executed? = none) :
    Tied catalogs home (chronicle.next texts machine) machine.step.environment := by
  obtain ⟨same, native⟩ | ⟨target, closure, after, done, frames, -, entered⟩ :=
    tied.enterCall explained verified sound stack low shown
  · generalize enterCall args.length env = outcome at steps same native
    obtain ⟨fault | called, after⟩ := outcome
    · obtain rfl : after = env := same
      have left := tied.fail sound (.refl _) (preserves_refl _) few (fun _ _ => rfl) outer fault
      exact tied_of_left steps idle (size ▸ left)
    · obtain rfl : after = env := same
      obtain ⟨program, place, rfl⟩ := native called rfl
      refine tied_of_left steps idle ⟨Nat.le_of_eq size.symm, ?_⟩
      change Tied catalogs home (chronicle.leave after.frames.size) after
      rwa [Chronicle.leave_self (Nat.le_of_eq tied.length_chains)]
  · rw [done] at steps
    have last : machine.step.environment.frames.back? =
        some (Environment.entered target closure values.length) := by
      rw [steps]
      change after.frames.back? = _
      rw [frames, Array.back?_push]
    rw [Chronicle.next_entered ?_ last, passes, steps]
    · exact entered
    · rw [steps, size]
      change _ < after.frames.size
      rw [frames, Array.size_push]
      exact Nat.lt_succ_self _

/-- A call is made by a host program or a native function. -/
theorem tied_hostCall (tied : Tied catalogs home chronicle machine.environment)
    (explained : Explained texts catalogs machine.environment.programs)
    (verified : AllVerified machine.environment.programs)
    (sound : machine.environment.heap.blocks.Sound)
    (low : ∀ frame ∈ machine.environment.frames.toList,
      frame.reach catalogs ≤ machine.environment.stack.size)
    (shown : ∀ value ∈ args, value.Visible) (count : callers.frames = machine.environment.frames.size)
    (depth : callers.depth = machine.environment.stack.size)
    (steps : machine.step = afterEntering (enterHostCall callee args machine.environment) callers)
    (passes : machine.passed = args) (idle : machine.executed? = none) :
    Tied catalogs home (chronicle.next texts machine) machine.step.environment := by
  have takes : machine.environment.frames.toList.take callers.frames =
      machine.environment.frames.toList := count ▸ take_frames machine.environment
  have failed {fault : Fault} (same : machine.step = fail machine.environment callers fault) :
      Tied catalogs home (chronicle.next texts machine) machine.step.environment := by
    exact tied_of_left same idle (tied.fail sound (.refl _) (preserves_refl _) (Nat.le_of_eq count)
      (fun _ _ => rfl) (by rw [takes, depth]; exact low) fault)
  rw [enterHostCall_eq] at steps
  split at steps
  swap
  · exact failed steps
  split at steps
  · exact failed steps
  -- The callee and the arguments lie on top of everything else.
  have shared : Tied catalogs home (chronicle.leave machine.environment.frames.size)
      (machine.environment.sharing (callee :: args)) := by
    refine tied.lower sound (spares_sharing _ _) (List.prefix_refl _) fun frame member place below => ?_
    change (machine.environment.stack ++ _)[place]? = _
    rw [Array.getElem?_append_left (Nat.lt_of_lt_of_le below (low frame member))]
  rw [Chronicle.leave_self (Nat.le_of_eq tied.length_chains)] at shared
  refine tied_entering shared explained verified ((spares_sharing _ _).sound sound)
    Array.toList_append (fun frame member => ?_) shown (Nat.le_of_eq count) (fun frame member => ?_)
    steps rfl passes idle
  · rw [Array.length_toList]
    exact low frame member
  · rw [depth]
    exact low frame (List.mem_of_mem_take member)

/-- A request is answered. -/
theorem tied_answer (tied : Tied catalogs home chronicle env)
    (sound : env.heap.blocks.Sound) (request : Request) :
    (answer request env).2.frames.size ≤ env.frames.size ∧ Tied catalogs home
      (chronicle.leave (answer request env).2.frames.size) (answer request env).2 := by
  have behind := backstage_answer request env
  refine ⟨Nat.le_of_eq (congrArg Array.size behind.frames), ?_⟩
  refine tied.lower sound (spares_answer request env) ?_ fun frame _ place _ => ?_
  · rw [behind.frames]
  · rw [behind.stack]

/-- A step of the host. -/
theorem tied_stepHost {program : Host α} {owned : List Reference} {post : α → Prop}
    (tied : Tied catalogs home chronicle env)
    (explained : Explained texts catalogs env.programs)
    (holds : env.Holds terms [] [] owned) (visible : program.IsVisible post) :
    Tied catalogs home (chronicle.next texts (⟨env, .host program⟩ : Machine α))
      (stepHost env program).environment := by
  have sound := Heap.Balanced.sound holds.balanced
  cases program with
  | done result =>
      refine tied_of_left rfl rfl ⟨Nat.le_refl _, ?_⟩
      change Tied catalogs home (chronicle.leave env.frames.size) env
      rwa [Chronicle.leave_self (Nat.le_of_eq tied.length_chains)]
  | ask request next => exact tied_of_left rfl rfl (tied_answer tied sound request)
  | call callee args next =>
      refine @tied_hostCall α texts catalogs home chronicle _ args callee ⟨env, _⟩ tied explained
        holds.verified sound (fun frame member => ?_)
        (fun value member => visible.1 value (List.mem_cons_of_mem _ member)) rfl rfl rfl rfl rfl
      rw [holds.frames] at member
      cases member

/-- A step of a native function. -/
theorem tied_stepNative {program : Host (Except Fault Value)} {owned : List Reference}
    (layers : Layers terms env.programs env.config keep callers frames lower
      references)
    (holds : env.Holds terms frames (lower ++ callee :: args)
      (owned ++ ((callee :: args).map .value ++ references)))
    (visible : program.IsVisible Shows) (tied : Tied catalogs home chronicle env)
    (explained : Explained texts catalogs env.programs) :
    Tied catalogs home
      (chronicle.next texts (⟨env, .native program lower.length callers⟩ : Machine α))
      (stepNative env program lower.length callers).environment := by
  have sound := Heap.Balanced.sound holds.balanced
  have low : ∀ frame ∈ env.frames.toList, frame.reach catalogs ≤ lower.length := by
    rw [holds.frames]
    exact layers.reach_le explained
  have size := holds.size
  rw [List.length_append, List.length_cons] at size
  cases program with
  | done result =>
      have few : callers.frames ≤ env.frames.size := by
        rw [holds.count]
        exact layers.frames_le
      have outer : ∀ frame ∈ env.frames.toList.take callers.frames,
          frame.reach catalogs ≤ callers.depth := by
        rw [holds.frames]
        exact layers.reach_depth explained
      have deep := layers.depth_le
      have spares := sparing_leaveNative lower.length result env
      have upward := @Upward.of_leaveNative env lower.length env.frames.size lower.length
        (Nat.le_refl _) result (by omega)
      have frames' : (leaveNative lower.length result env).2.frames = env.frames := by
        rw [leaveNative_eq]
        cases result with
        | error fault => rfl
        | ok value =>
            simp only
            rw [push_eq]
            split <;> rfl
      rcases left : leaveNative lower.length result env with ⟨fault | _, after⟩ <;>
        rw [left] at spares upward frames'
      · exact tied_of_left (step_gives_up left) rfl (tied.fail sound spares
          (upward.preserves.fewer few) few (fun place below => upward.stack place (by omega)) outer fault)
      · refine tied_of_left (step_leaves left) rfl ⟨Nat.le_of_eq (congrArg Array.size frames'), ?_⟩
        refine tied.lower sound spares ?_ fun frame member place below => upward.stack place ?_
        · rw [frames']
        · rw [frames'] at member
          exact Nat.lt_of_lt_of_le below (low frame member)
  | ask request next => exact tied_of_left rfl rfl (tied_answer tied sound request)
  | call called passed next =>
      refine @tied_hostCall α texts catalogs home chronicle _ passed called ⟨env, _⟩ tied explained
        holds.verified sound (fun frame member => ?_)
        (fun value member => visible.1 value (List.mem_cons_of_mem _ member)) rfl rfl rfl rfl rfl
      have := low frame member
      change _ ≤ env.stack.size
      omega

/-- A call has ended, and whoever waits for it is given its result. -/
theorem tied_ended
    (layers : Layers terms env.programs env.config keep callers frames lower
      references)
    (count : frames.length = callers.frames)
    (holds : env.Holds terms frames (lower ++ [value]) (.value value :: references))
    (explained : Explained texts catalogs env.programs)
    (tied : Tied catalogs home chronicle env) :
    Tied catalogs home (chronicle.next texts (⟨env, .script callers⟩ : Machine α))
      (stepScript env callers).environment := by
  have sound := Heap.Balanced.sound holds.balanced
  have depth := layers.depth_eq count
  have all := holds.count.trans count
  have size := holds.size
  rw [List.length_append, List.length_singleton] at size
  have low : ∀ frame ∈ env.frames.toList, frame.reach catalogs ≤ callers.depth := by
    rw [holds.frames, depth]
    exact layers.reach_le explained
  have spares := sparing_pop callers.depth env
  have upward := @Upward.of_pop env callers.depth env.frames.size callers.depth
    (Nat.le_refl _) (by omega)
  have frames' : (Environment.pop callers.depth env).2.frames = env.frames := by
    obtain ⟨-, failed⟩ | ⟨value, -, -, popped⟩ := pop_cases callers.depth env
    · rw [failed]
    · rw [popped]
  have no : ¬ callers.frames < env.frames.size := by omega
  have idle : (⟨env, .script callers⟩ : Machine α).executed? = none := if_neg no
  rcases popped : Environment.pop callers.depth env with ⟨fault | result, after⟩ <;>
    rw [popped] at spares upward frames'
  · exact tied_of_left (step_misses no popped) idle (tied.fail sound spares
      (upward.preserves.fewer (by omega)) (by omega) upward.stack
      (fun frame member => low frame (List.mem_of_mem_take member)) fault)
  · refine tied_of_left (step_resumes no popped) idle ⟨Nat.le_of_eq (congrArg Array.size frames'), ?_⟩
    refine tied.lower sound spares ?_ fun frame member place below => upward.stack place ?_
    · rw [frames']
    · rw [frames'] at member
      exact Nat.lt_of_lt_of_le below (low frame member)

end Machine

end PocketScript
