import PocketScript.Proofs.Machine.Coherence
import PocketScript.Proofs.Machine.Scoped

/-!
# Machines keep to their chronicles

When a sound machine takes a step, what lies in slots and cells is tied to the chronicle afterwards as
it was before (`Chronicled.step`), and so it is after any number of steps (`Chronicled.forward`). Most
steps leave slots and cells alone. A call gives its function an activation, with the arguments in the
first slots; a store or the boxing of a variable is a matter of that variable only; and the closure that
is made gets the cells that were gathered in front of it, which is why these are followed as well.
-/

namespace PocketScript

open Environment Environment.Ground

variable {α : Type} {texts : Nat → List Outline} {catalogs : Nat → Catalog}
  {home : Handle → LocalVariable} {chronicle : Chronicle} {terms : Terms}
  {keep : α → List Reference → Prop} {env after : Environment} {callers : Callers α}
  {frames : List Frame} {frame : Frame} {lower locals operands : List Value} {callee value : Value}
  {references : List Reference} {keeps : Reference} {function : FunctionDef} {listing : Listing}
  {level cells : Nat → Nat} {program : Program} {instr : Instruction} {name : String}
  {post : α → Prop} {block : Handle}

/-! ## Gathered cells -/

/-- What lies in slots and cells, and what is gathered of cells, are variables of the chronicle. -/
structure Chronicled (catalogs : Nat → Catalog) (home : Handle → LocalVariable) (chronicle : Chronicle)
    (env : Environment) : Prop where
  tied : Tied catalogs home chronicle env
  gathered : Gathered catalogs home chronicle env

/-- The topmost frame has gathered nothing. -/
def Environment.Ungathered (env : Environment) : Prop :=
  ∀ frame listing, env.running? = some (frame, listing) → listing.gathered frame.pc = 0

theorem Environment.Ungathered.gathered (ungathered : env.Ungathered) :
    Gathered catalogs home chronicle env := by
  intro frame listing running index source name there
  have none := ungathered frame listing running
  rw [← Listing.length_sources, List.length_eq_zero_iff] at none
  rw [none] at there
  cases there

theorem Environment.lists_of_running? (running : env.running? = some (frame, listing)) :
    env.frames.back? = some frame ∧ frame.Lists env.programs listing := by
  unfold running? at running
  simp only [Option.bind_eq_bind, Option.bind_eq_some_iff, Option.pure_def, Option.some.injEq,
    Prod.mk.injEq] at running
  obtain ⟨top, last, function, known, listed, disassembled, rfl, rfl⟩ := running
  rw [function?_eq] at known
  obtain ⟨program, loaded, found⟩ := Option.bind_eq_some_iff.mp known
  refine ⟨last, program, function, loaded, found, ?_⟩
  cases read : function.code.disassemble with
  | error fault =>
      rw [read] at disassembled
      cases disassembled
  | ok other =>
      rw [read] at disassembled
      cases disassembled
      rfl

theorem Listing.gathered_zero (listing : Listing) : listing.gathered 0 = 0 := by
  unfold gathered
  cases listing with
  | nil => rfl
  | cons first rest => rw [List.takeWhile_cons_of_neg (by simp)]; rfl

/-- A function that was just entered has gathered nothing. -/
theorem ungathered_enterCall {count : Nat}
    (done : enterCall count env = (.ok .script, after)) : after.Ungathered := by
  intro frame listing running
  obtain ⟨last, -⟩ := lists_of_running? running
  by_cases few : env.stack.size < count + 1
  · rw [enterCall_eq, if_pos few] at done
    cases done
  have split := List.take_append_drop (env.stack.size - (count + 1)) env.stack.toList
  obtain ⟨callee, args, same⟩ := List.exists_cons_of_length_eq_add_one (show
    (env.stack.toList.drop (env.stack.size - (count + 1))).length = count + 1 by
      rw [List.length_drop, Array.length_toList]
      omega)
  have length := congrArg List.length same
  rw [List.length_drop, Array.length_toList, List.length_cons] at length
  obtain rfl : args.length = count := by omega
  rw [same] at split
  obtain ⟨-, native⟩ | ⟨target, closure, function, -, -, entering⟩ := enterCall_cases split.symm
  · rw [done] at native
    obtain ⟨program, place, impossible⟩ := native _ rfl
    cases impossible
  · cases entering.symm.trans done
    rw [show Array.back? (env.frames.push _) = _ from Array.back?_push] at last
    cases last
    exact listing.gathered_zero

theorem ungathered_enterHostCall {args : List Value}
    (done : enterHostCall callee args env = (.ok .script, after)) : after.Ungathered := by
  rw [enterHostCall_eq] at done
  split at done
  · split at done
    · cases done
    · exact ungathered_enterCall done
  · cases done

namespace Machine

/-- Only a call of a function leads on to a script. -/
theorem ungathered_afterEntering {outcome : Except Fault EnteredCall × Environment}
    {callers' : Callers α} (scripted : (afterEntering outcome callers).control = .script callers') :
    outcome.1 = .ok .script ∧ (afterEntering outcome callers).environment = outcome.2 := by
  obtain ⟨fault | called | ⟨program, place⟩, after⟩ := outcome
  · cases callers <;> cases scripted
  · exact ⟨rfl, rfl⟩
  · cases scripted

/-- In a sound machine only a function that is running has gathered anything. -/
theorem Sound.ungathered {machine : Machine α} (sound : machine.Sound terms keep)
    (all : AllGather machine.environment.programs)
    (aside : ∀ callers, machine.control ≠ .script callers) : machine.environment.Ungathered := by
  intro frame listing running
  obtain ⟨last, lists⟩ := lists_of_running? running
  by_contra some
  obtain ⟨⟨callers, script, -⟩, -⟩ := sound.gathered all last lists some
  exact aside callers script

theorem control_fail (fault : Fault) (callers' : Callers α) :
    (fail env callers fault).control ≠ .script callers' := by
  cases callers <;> nofun

/-- A native function has returned, and the topmost frame is the one that has called it. -/
theorem ungathered_leaveNative {result : Except Fault Value} {place : Nat}
    (ungathered : env.Ungathered)
    (left : leaveNative place result env = (.ok (), after)) : after.Ungathered := by
  have same : after.frames = env.frames ∧ after.units = env.units := by
    rw [leaveNative_eq] at left
    cases result with
    | error fault => cases left
    | ok value =>
        simp only at left
        rw [push_eq] at left
        split at left
        · cases left
          exact ⟨rfl, rfl⟩
        · cases left
  intro frame listing running
  refine ungathered frame listing ?_
  unfold running? Environment.function? at running ⊢
  rwa [same.1, same.2] at running

/-- Nothing is gathered behind a step that executes no instruction. -/
theorem ungathered_step {machine : Machine α} (sound : machine.Sound terms keep)
    (all : AllGather machine.environment.programs) (next : machine.step.Sound terms keep)
    (all' : AllGather machine.step.environment.programs) (idle : machine.executed? = none) :
    machine.step.environment.Ungathered := by
  by_cases scripted : ∃ callers, machine.step.control = .script callers
  swap
  · exact next.ungathered all' fun callers script => scripted ⟨callers, script⟩
  obtain ⟨callers', scripted⟩ := scripted
  -- Either a function was entered, or a native one has returned.
  have entering {count : Nat} {entered : Environment} {callers : Callers α}
      (step : machine.step = afterEntering (enterCall count entered) callers) :
      machine.step.environment.Ungathered := by
    rw [step] at scripted ⊢
    obtain ⟨done, same⟩ := ungathered_afterEntering scripted
    rw [same]
    exact ungathered_enterCall (Prod.ext done rfl)
  have hostEntering {callee : Value} {args : List Value} {entered : Environment} {callers : Callers α}
      (step : machine.step = afterEntering (enterHostCall callee args entered) callers) :
      machine.step.environment.Ungathered := by
    rw [step] at scripted ⊢
    obtain ⟨done, same⟩ := ungathered_afterEntering scripted
    rw [same]
    exact ungathered_enterHostCall (Prod.ext done rfl)
  obtain ⟨env, control⟩ := machine
  cases control with
  | host program =>
      cases program with
      | done result => cases scripted
      | ask request next => cases scripted
      | call callee args next => exact hostEntering rfl
  | native program place callers =>
      cases program with
      | done result =>
          have before := sound.ungathered all fun _ script => by cases script
          rcases left : leaveNative place result env with ⟨fault | _, after⟩
          · rw [step_gives_up left] at scripted
            exact absurd scripted (control_fail fault callers')
          · rw [step_leaves left]
            exact ungathered_leaveNative before left
      | ask request next => cases scripted
      | call callee args next => exact hostEntering rfl
  | script callers =>
      by_cases more : callers.frames < env.frames.size
      · rcases executed : executeNext env with ⟨fault | next, after⟩
        · rw [step_fails more executed] at scripted
          exact absurd scripted (control_fail fault callers')
        · cases next with
          | none =>
              unfold executed? at idle
              simp only [if_pos more, executed] at idle
              cases idle
          | some count => exact entering (step_calls more executed)
      · rcases popped : Environment.pop callers.depth env with ⟨fault | value, after⟩
        · rw [step_misses more popped] at scripted
          exact absurd scripted (control_fail fault callers')
        · rw [step_resumes more popped] at scripted
          cases callers <;> cases scripted

end Machine

namespace Machine

section

variable
  (layers : Layers terms env.programs env.config keep callers frames lower references)
  (occupies : Occupies terms env.programs env.config lower keeps frame function listing
    level cells)
  (placed : Placed function listing level cells frame.pc locals operands)
  (holds : env.Holds terms (frames ++ [frame]) (lower ++ callee :: (locals ++ operands))
    ((locals ++ operands).map .value ++ keeps :: references))
  (member : (frame.pc, instr) ∈ listing)
  (explained : Explained texts catalogs env.programs)
  (tied : Tied catalogs home chronicle env)

/-! ## Closures and returns -/

section

variable (done : execute (activationOf frame function program) instr
    (env.at_ (frame.pc + instr.size)) = (.ok (), after))

include occupies placed holds member in
/-- When a closure has been made, it has a place on the stack. -/
theorem makeClosure_room (closure : instr.op = .makeClosure) :
    env.stack.size < env.config.stackSize + instr.b.toNat := by
  have room := occupies.room
  have size := holds.size
  simp only [List.length_append, List.length_cons, placed.slots, placed.depth] at size
  obtain ⟨⟨follower, behind⟩, same, -⟩ := occupies.leveled.next _ _ member (by rw [closure]; rfl)
  have high := occupies.leveled.room _ _ behind
  have effect : instr.effect = 1 - (instr.b.toNat : Int) := by
    obtain ⟨op, a, b⟩ := instr
    cases closure
    rfl
  omega

include occupies placed holds done in
/-- The topmost frame is gone when its function is left. -/
theorem frames_left (leaves : instr.op.leaves = true) : after.frames.toList = frames := by
  have base := occupies.base
  have enough : (activationOf frame function program).floor ≤ env.stack.size :=
    floor_le occupies placed holds
  have popped := ((@execute_leaving (env.at_ (frame.pc + instr.size))
    (activationOf frame function program) instr leaves (show 0 < frame.base by omega) enough).2
      () after done).frames
  rw [popped, Array.toList_pop, frames_at, toList_modify_last holds.frames, List.dropLast_concat]

include layers occupies placed holds member explained tied done

/-- A closure is made of the cells of the variables that it captures. -/
theorem tied_makeClosure (gathered : Gathered catalogs home chronicle env)
    (live : env.Live) (gathers : listing.Gathers)
    (closure : instr.op = .makeClosure) :
    Tied catalogs home ((chronicle.execute texts env after).leave after.frames.size) after := by
  obtain ⟨left, kept⟩ := left_executed layers occupies placed holds explained done
    (by rw [closure]; rfl) (by rw [closure]; decide) (by rw [closure]; decide)
  obtain ⟨known, there, found, verified⟩ := occupies.program
  have running := running?_eq occupies holds
  have all := gathers.all _ _ member closure
  have room := makeClosure_room occupies placed holds member closure
  have mention : env.mention? texts = none := mention?_aside occupies holds member (by
    obtain ⟨op, a, b⟩ := instr
    cases closure
    rfl)
  have makes := makesClosure_eq occupies holds member
  rw [decide_eq_true closure] at makes
  obtain ⟨op, a, b⟩ := instr
  cases closure
  obtain ⟨around, names⟩ := (@Explained.codes texts catalogs env.programs function known
    frame.target explained there found).creates verified.listed member rfl
  obtain ⟨fault, last, failed, -⟩ | ⟨block, heap, enough, fresh, writes, made⟩ :=
    @makeClosure_cases (env.at_ (frame.pc + (⟨.makeClosure, a, b⟩ : Instruction).size))
      (activationOf frame function program) a (Heap.Balanced.sound holds.balanced) b room
  · cases failed.symm.trans done
  have same : chronicle.execute texts env after = chronicle.create block := by
    have top : after.stack.back? = some (.closure block) := by
      cases made.symm.trans done
      exact Array.back?_push
    unfold Chronicle.execute
    rw [mention, makes, top]
  rw [same]
  cases made.symm.trans done
  refine tied.create live fresh writes (fun index name cell named at_ => ?_) left kept
  -- The cell is one of those that were gathered.
  have count : (listing.sources frame.pc).length = b.toNat := by
    rw [listing.length_sources, ← all]
  rw [Array.getElem?_extract] at at_
  split at at_
  swap
  · cases at_
  rename_i inside
  change index < min env.stack.size env.stack.size -
    (env.stack.size - b.toNat) at inside
  have sourced : index < (listing.sources frame.pc).length := by
    omega
  obtain ⟨cell', there', located⟩ := gathered frame listing running index _ name
    (List.getElem?_eq_getElem sourced) (names index _ name (List.getElem?_eq_getElem sourced) named)
  rw [← count] at at_
  cases at_.symm.trans there'
  change Location.of? name ((catalogs frame.target.unit).outline a.toNat).scopes.tail _ = _
  rw [around]
  exact located

/-- The function is left, and its variables may live on in cells. -/
theorem tied_leaving (leaves : instr.op.leaves = true) :
    Tied catalogs home ((chronicle.execute texts env after).leave after.frames.size) after := by
  have quiet : chronicle.execute texts env after = chronicle := by
    refine execute_quiet occupies holds member explained (fun same => ?_) fun place constant stores => ?_
    · rw [same] at leaves
      cases leaves
    · obtain ⟨op, a, b⟩ := instr
      cases op <;> first | (cases leaves; done) | cases stores
  have spares := @sparing_execute (activationOf frame function program) instr (by
    generalize instr.op = op at leaves
    cases op <;> first | rfl | cases leaves) (env.at_ (frame.pc + instr.size))
  have base := occupies.base
  have size := holds.size
  rw [List.length_append] at size
  have going := frames_left occupies placed holds done leaves
  have upward : Upward lower.length 0 (env.at_ (frame.pc + instr.size))
      (execute (activationOf frame function program) instr
        (env.at_ (frame.pc + instr.size))).2 :=
    .of_execute (show lower.length < frame.base by omega) instr
      (show lower.length ≤ env.stack.size by omega) (by
        rw [size_at, holds.count, List.length_append]
        exact Nat.succ_pos _)
  rw [done] at spares upward
  rw [quiet]
  refine tied.lower (Heap.Balanced.sound holds.balanced) spares ?_ fun other among place below =>
    upward.stack place ?_
  · rw [going, holds.frames, List.map_append]
    exact List.prefix_append _ _
  · rw [going] at among
    exact Nat.lt_of_lt_of_le below (layers.reach_le explained other among)

omit layers occupies placed holds member explained tied done in
theorem stack_pushShared {before : Environment}
    (pushed : pushShared value before = (.ok (), after)) :
    after.stack = before.stack.push value := by
  unfold pushShared at pushed
  rw [action_bind_ok (action_lift _ _), push_eq] at pushed
  split at pushed
  · cases pushed
    rfl
  · cases pushed

omit layers placed member in
/-- What is pushed is the cell of the variable that is to be captured. -/
theorem executed_pushing (pushes : instr.op.pushesCell = true) :
    ∃ source cell, instr.role = .gather source ∧ after.stack = env.stack.push (.cell cell) ∧
      ∀ name, (frame.target.sheet catalogs).name? source.place = some name →
        Location.of? name (frame.target.scopes catalogs) chronicle.current =
          some (.variable (home cell)) := by
  obtain ⟨known, there, found, -⟩ := occupies.program
  have located (name : String) := @locate?_eq texts catalogs chronicle env frames frame function
    known name explained holds.frames there found
  obtain ⟨op, a, b⟩ := instr
  cases op with
  | pushCell =>
      obtain failed | ⟨cell, -, at_, got⟩ := localCell_cases (activationOf frame function program) a
        (env.at_ (frame.pc + (⟨.pushCell, a, b⟩ : Instruction).size))
      · cases (action_bind_error failed).symm.trans done
      have stack : after.stack =
          (env.at_ (frame.pc + (⟨.pushCell, a, b⟩ : Instruction).size)).stack.push (.cell cell) :=
        stack_pushShared ((action_bind_ok got).symm.trans done)
      refine ⟨.outerSlot a, cell, rfl, stack, fun name named => ?_⟩
      rw [← located]
      exact locate?_localCell explained tied holds.frames there found named at_
  | pushUpvalue =>
      obtain failed | ⟨closure, cell, runs, at_, got⟩ :=
        upvalueCell_cases (activationOf frame function program) a
          (env.at_ (frame.pc + (⟨.pushUpvalue, a, b⟩ : Instruction).size))
      · cases (action_bind_error failed).symm.trans done
      have stack : after.stack =
          (env.at_ (frame.pc + (⟨.pushUpvalue, a, b⟩ : Instruction).size)).stack.push (.cell cell) :=
        stack_pushShared ((action_bind_ok got).symm.trans done)
      refine ⟨.outerCapture a, cell, rfl, stack, fun name named => ?_⟩
      rw [← located]
      exact locate?_upvalueCell explained tied holds.frames there found named runs at_
  | _ => cases pushes

omit layers in
/-- One more cell is gathered. -/
theorem gathered_pushing (all : AllGather env.programs)
    (gathered : Gathered catalogs home chronicle env)
    (pushes : instr.op.pushesCell = true) :
    Gathered catalogs home ((chronicle.execute texts env after).leave after.frames.size)
      after := by
  obtain ⟨source, cell, role, stack, names⟩ :=
    executed_pushing occupies holds explained tied done pushes
  obtain ⟨known, there, found, verified⟩ := occupies.program
  have others : instr.op.leaves = false ∧ instr.op.isJump = false ∧
      instr.op ≠ .makeClosure := by
    generalize instr.op = op at pushes
    cases op <;> first | (exact ⟨rfl, rfl, by decide⟩) | cases pushes
  have going : (execute (activationOf frame function program) instr
      (env.at_ (frame.pc + instr.size))).2.frames.toList = _ :=
    frames_next holds _ others.1 others.2.1
  have programs := (reframes_execute (activationOf frame function program) instr
    (env.at_ (frame.pc + instr.size))).1
  rw [done] at going programs
  have size : after.frames.size = env.frames.size := by
    rw [← Array.length_toList, going, holds.count, List.length_append, List.length_append]
    rfl
  have quiet : chronicle.execute texts env after = chronicle :=
    execute_quiet occupies holds member explained others.2.2 fun place constant stores => by
      cases role.symm.trans stores
  rw [quiet, Chronicle.leave_self (size ▸ Nat.le_of_eq tied.length_chains)]
  intro frame' listing' running index from_ name sourced named
  obtain ⟨last, lists⟩ := lists_of_running? running
  rw [← Array.getLast?_toList, going, List.getLast?_concat] at last
  cases last
  rw [programs] at lists
  obtain rfl := (occupies.moved (frame.pc + instr.size)).lists.mp lists
  have next := (@Explained.codes texts catalogs env.programs function known frame.target
    explained there found).sources_next verified.listed member
  rw [role] at next
  change listing'.sources (frame.pc + instr.size) = listing'.sources frame.pc ++ [source] at next
  have few := occupies.gathered_le all placed
  have many := holds.size
  simp only [List.length_append, List.length_cons] at many
  rw [← Listing.length_sources] at few
  change (listing'.sources (frame.pc + instr.size))[index]? = some from_ at sourced
  change ∃ block, after.stack[after.stack.size -
    (listing'.sources (frame.pc + instr.size)).length + index]? = some (.cell block) ∧ _
  rw [next] at sourced ⊢
  rw [stack, Array.size_push, List.length_append, List.length_singleton, Nat.add_sub_add_right]
  rcases Nat.lt_or_ge index (listing'.sources frame.pc).length with old | new
  · rw [List.getElem?_append_left old] at sourced
    obtain ⟨block, at_, located⟩ :=
      gathered frame listing' (running?_eq occupies holds) index from_ name sourced named
    refine ⟨block, ?_, located⟩
    rw [Array.getElem?_push, if_neg (by omega)]
    exact at_
  · obtain ⟨inside, same⟩ := List.getElem?_eq_some_iff.mp sourced
    rw [List.length_append, List.length_singleton] at inside
    obtain rfl : index = (listing'.sources frame.pc).length := by omega
    rw [List.getElem_append_right (Nat.le_refl _)] at same
    simp only [Nat.sub_self, List.getElem_cons_zero] at same
    subst same
    refine ⟨cell, ?_, names name named⟩
    rw [Nat.sub_add_cancel (by omega), Array.getElem?_push_size]

omit explained tied in
/-- Behind any other instruction nothing is gathered. -/
theorem ungathered_executed (all : AllGather env.programs)
    (pushes : instr.op.pushesCell = false) : after.Ungathered := by
  have gathers := occupies.gathers all
  have programs := (reframes_execute (activationOf frame function program) instr
    (env.at_ (frame.pc + instr.size))).1
  rw [done] at programs
  intro frame' listing' running
  obtain ⟨last, lists⟩ := lists_of_running? running
  rw [← Array.getLast?_toList] at last
  rw [programs] at lists
  by_cases leaves : instr.op.leaves = true
  · rw [frames_left occupies placed holds done leaves] at last
    exact layers.gathered all last lists
  · obtain ⟨position, goes, going⟩ := frames_executed holds.frames
      (activationOf frame function program) (Bool.eq_false_iff.mpr leaves)
    rw [done] at going
    rw [going, List.getLast?_concat] at last
    cases last
    obtain rfl := (occupies.moved position).lists.mp lists
    obtain rfl | ⟨jump, rfl⟩ := goes
    · rw [gathers.next _ _ member, Instruction.cellsAfter, if_neg (Bool.eq_false_iff.mp pushes)]
    · exact gathers.aside _ _ member jump

/-- Whatever the instruction is. A variable that it boxes gets the cell. -/
theorem tied_executed (veiled : env.Veiled env.Hides) (live : env.Live)
    (gathered : Gathered catalogs home chronicle env) : ∃ home', Tied catalogs home'
      ((chronicle.execute texts env after).leave after.frames.size) after := by
  have gathers := occupies.gathers veiled.gathers
  by_cases leaves : instr.op.leaves = true
  · exact ⟨home, tied_leaving layers occupies placed holds member explained tied done leaves⟩
  have stays := Bool.eq_false_iff.mpr leaves
  by_cases aside : instr.op.handlesShared = false
  · by_cases store : instr.op = .storeLocal
    · exact ⟨home, tied_storeLocal layers occupies holds member explained done veiled tied store⟩
    · exact ⟨home, tied_quiet layers occupies placed holds member explained done tied stays aside store⟩
  obtain box | store | store | closure : instr.op = .makeCell ∨ instr.op = .storeCell ∨
      instr.op = .storeUpvalue ∨ instr.op = .makeClosure := by
    generalize instr.op = op at aside
    cases op <;> first | exact absurd rfl aside | simp
  · exact tied_makeCell layers occupies holds member explained done veiled tied live box
  · exact ⟨home, tied_storeCell layers occupies placed holds member explained done tied store⟩
  · exact ⟨home, tied_storeUpvalue layers occupies placed holds member explained done tied store⟩
  · exact ⟨home, tied_makeClosure layers occupies placed holds member explained tied done gathered live
      gathers closure⟩

/-- And so is what is gathered. -/
theorem chronicled_executed (veiled : env.Veiled env.Hides) (live : env.Live)
    (gathered : Gathered catalogs home chronicle env) : ∃ home', Chronicled catalogs home'
      ((chronicle.execute texts env after).leave after.frames.size) after := by
  by_cases pushes : instr.op.pushesCell = true
  · have others : instr.op.leaves = false ∧ instr.op.handlesShared = false ∧
        instr.op ≠ .storeLocal := by
      generalize instr.op = op at pushes
      cases op <;> first | (exact ⟨rfl, rfl, by decide⟩) | cases pushes
    exact ⟨home,
      tied_quiet layers occupies placed holds member explained done tied others.1 others.2.1 others.2.2,
      gathered_pushing occupies placed holds member explained tied done veiled.gathers gathered pushes⟩
  · obtain ⟨home', tied'⟩ :=
      tied_executed layers occupies placed holds member explained tied done veiled live gathered
    exact ⟨home', tied', (ungathered_executed layers occupies placed holds member done veiled.gathers
      (Bool.eq_false_iff.mpr pushes)).gathered⟩

end

/-! ## Steps of the topmost frame -/

include occupies placed holds member in
/-- An instruction leaves alone what belongs to those who wait. -/
theorem upward_executed (loaded : env.programs[frame.unit]? = some program) :
    Upward lower.length frames.length env
      (execute (activationOf frame function program) instr
        (env.at_ (frame.pc + instr.size))).2 := by
  have last : env.frames.back? = some frame := by
    rw [← Array.getLast?_toList, holds.frames, List.getLast?_concat]
  have size := holds.size
  rw [List.length_append] at size
  have base := occupies.base
  have upward : Upward lower.length frames.length env (executeNext env).2 :=
    .of_executeNext last (by omega) (by omega) (by
      rw [holds.count, List.length_append]
      exact Nat.lt_succ_self _)
  rwa [executeNext_member holds occupies placed loaded member] at upward

section

variable (stands : keeps.StandsFor callee) (loaded : env.programs[frame.unit]? = some program)
  (veiled : env.Veiled env.Hides)

include layers occupies placed holds member explained tied loaded

omit member placed tied explained loaded occupies in
/-- The topmost frame belongs to the innermost call. -/
theorem callers_lt : callers.frames < env.frames.size := by
  rw [holds.count, List.length_append]
  exact Nat.lt_succ_of_le layers.frames_le

/-- An instruction fails, and so does the innermost call. -/
theorem tied_failed {fault : Fault} (failed : execute (activationOf frame function program) instr
      (env.at_ (frame.pc + instr.size)) = (.error fault, after)) :
    Tied catalogs home (chronicle.next texts (⟨env, .script callers⟩ : Machine α))
      (stepScript env callers).environment := by
  have upward := upward_executed occupies placed holds member loaded
  have room := makeClosure_room occupies placed holds member
  have spares := @spares_failed (env.at_ (frame.pc + instr.size)) after
    (activationOf frame function program) instr fault (Heap.Balanced.sound holds.balanced) room
    failed
  have executed := executeNext_member holds occupies placed loaded member
  rw [failed] at upward executed
  have more := callers_lt layers holds
  have idle : (⟨env, .script callers⟩ : Machine α).executed? = none := by
    unfold executed?
    simp only [if_pos more, executed, Except.map]
  have deep := layers.depth_le
  refine tied_of_left (step_fails more executed) idle (tied.fail (Heap.Balanced.sound holds.balanced) spares
    (upward.preserves.fewer layers.frames_le) (Nat.le_of_lt more)
    (fun place below => upward.stack place (by omega)) (fun other among => ?_) fault)
  rw [holds.frames, List.take_append_of_le_length layers.frames_le] at among
  exact layers.reach_depth explained other among

include stands veiled

/-- The topmost frame calls something. -/
theorem tied_call (call : instr.op = .call) :
    Tied catalogs home (chronicle.next texts (⟨env, .script callers⟩ : Machine α))
      (stepScript env callers).environment := by
  have nothing := (occupies.gathers veiled.gathers).none member (by rw [call]; rfl)
    (by rw [call]; decide)
  obtain ⟨op, a, b⟩ := instr
  cases call
  obtain ⟨done, -⟩ := executes_call layers stands occupies placed holds loaded member
  have executed := executeNext_member holds occupies placed loaded member
  rw [done] at executed
  obtain ⟨below, taken, rfl, many⟩ := placed.split (occupies.leveled.needs _ _ member)
  obtain ⟨called, args, rfl⟩ := List.exists_cons_of_length_eq_add_one many
  have few : args.length = a.toNat := Nat.succ_inj.mp many
  generalize (⟨.call, a, b⟩ : Instruction).size = size at executed done
  simp only [Except.map, ↓reduceIte, ← few] at executed
  have more := callers_lt layers holds
  have moved : (env.at_ (frame.pc + size)).frames.toList =
      frames ++ [{ frame with pc := frame.pc + size }] := toList_modify_last holds.frames _
  have stack : (env.at_ (frame.pc + size)).stack.toList =
      (lower ++ callee :: (locals ++ below)) ++ called :: args := by
    change env.stack.toList = _
    rw [holds.stack]
    simp only [List.append_assoc, List.cons_append]
  have floor : (activationOf frame function program).floor =
      (lower ++ callee :: (locals ++ below)).length - below.length := by
    change frame.base + function.varCount.toNat = _
    rw [occupies.base, ← placed.slots]
    simp only [List.length_append, List.length_cons]
    omega
  have rest := ungathered_at occupies holds veiled nothing (frame.pc + size)
  have step : (⟨env, .script callers⟩ : Machine α).step =
      afterEntering (enterCall args.length (env.at_ (frame.pc + size))) callers :=
    step_calls more executed
  have passes : (⟨env, .script callers⟩ : Machine α).passed = args := by
    unfold passed
    simp only [executed]
    rw [toList_extract_from, stack, ← Array.length_toList, stack]
    have height : ((lower ++ callee :: (locals ++ below)) ++ called :: args).length - args.length =
        ((lower ++ callee :: (locals ++ below)) ++ [called]).length := by
      simp only [List.length_append, List.length_cons, List.length_nil]
      omega
    rw [height, List.append_cons _ called args, List.drop_left]
  have idle : (⟨env, .script callers⟩ : Machine α).executed? = none := by
    unfold executed?
    simp only [if_pos more, executed]
  refine tied_entering (tied_at holds tied (frame.pc + size)) explained holds.verified
    (Heap.Balanced.sound holds.balanced) stack (fun other among => ?_) (fun value passed => ?_)
    (by rw [size_at]; exact Nat.le_of_lt more) (fun other among => ?_) step (size_at _ _).symm passes
    idle
  · rw [moved] at among
    have reach : other.reach catalogs ≤ (activationOf frame function program).floor :=
      reach_le_floor layers occupies explained among
    omega
  · -- Above the variables nothing is boxed, and nothing is gathered here.
    obtain ⟨index, inside, rfl⟩ := List.mem_iff_getElem.mp passed
    have there : (env.at_ (frame.pc + size)).stack[
        (lower ++ callee :: (locals ++ below)).length + (index + 1)]? = some args[index] := by
      rw [← Array.getElem?_toList, stack, List.getElem?_append_right (Nat.le_add_right _ _),
        Nat.add_sub_cancel_left, List.getElem?_cons_succ, List.getElem?_eq_getElem inside]
    refine rest.visible there fun boxed => ?_
    have := layers.boxed_lt_floor occupies boxed
    change _ < (activationOf frame function program).floor at this
    omega
  · rw [moved, List.take_append_of_le_length layers.frames_le] at among
    exact layers.reach_depth explained other among

omit member loaded in
/-- A step of the topmost frame. -/
theorem tied_running (live : env.Live)
    (gathered : Gathered catalogs home chronicle env) :
    let machine : Machine α := ⟨env, .script callers⟩
    (machine.executed? = none ∧
        Tied catalogs home (chronicle.next texts machine) machine.step.environment) ∨
      ∃ home', Chronicled catalogs home' (chronicle.next texts machine) machine.step.environment := by
  intro machine
  obtain ⟨instr, member⟩ := placed.here
  obtain ⟨program, loaded, -, -⟩ := occupies.program
  have executed := executeNext_member holds occupies placed loaded member
  have more := callers_lt layers holds
  by_cases call : instr.op = .call
  · refine .inl ⟨?_, tied_call layers occupies placed holds member explained tied stands loaded veiled
      call⟩
    unfold machine executed?
    simp only [if_pos more, executed, if_pos call]
    generalize (execute _ instr _).1 = outcome
    cases outcome <;> rfl
  obtain ⟨-, reframes⟩ := reframes_execute (activationOf frame function program) instr
    (env.at_ (frame.pc + instr.size))
  rcases done : execute (activationOf frame function program) instr
    (env.at_ (frame.pc + instr.size)) with ⟨fault | _, after⟩ <;>
    rw [done] at executed reframes
  · refine .inl ⟨?_, tied_failed layers occupies placed holds member explained tied loaded done⟩
    unfold machine executed?
    simp only [if_pos more, executed, Except.map]
  simp only [Except.map, if_neg call] at executed
  have step : machine.step = ⟨after, .script callers⟩ := step_next more executed
  have ran : machine.executed? = some after := by
    unfold machine executed?
    simp only [if_pos more, executed]
  have few : after.frames.size ≤ env.frames.size := by
    cases reframes with
    | stays frames => rw [frames, size_at]
    | jumps _ frames => rw [frames, size_at, size_at]
    | leaves _ frames =>
        rw [frames, Array.size_pop, size_at]
        exact Nat.sub_le _ _
  obtain ⟨home', goesOn⟩ := chronicled_executed layers occupies placed holds member explained tied done
    veiled live gathered
  refine .inr ⟨home', ?_⟩
  rw [Chronicle.next_executed (by rw [step]; exact few) ran, step]
  exact goesOn

end

end

end Machine

/-! ## Runs -/

open Machine

variable {machine : Machine α}

/-- Every step goes on as the chronicle does. -/
theorem Chronicled.step (sound : machine.Sound terms keep) (veiled : machine.Veiled post)
    (explained : Explained texts catalogs machine.environment.programs)
    (chronicled : Chronicled catalogs home chronicle machine.environment) : ∃ home',
      Chronicled catalogs home' (chronicle.next texts machine) machine.step.environment := by
  have next := sound.step
  have bare := ungathered_step sound veiled.environment.gathers next
    (veiled.step sound).environment.gathers
  obtain ⟨tied, gathered⟩ := chronicled
  obtain ⟨veils, visible⟩ := veiled
  cases sound with
  | host env program owned holds careful =>
      exact ⟨home, tied_stepHost tied explained holds visible, (bare rfl).gathered⟩
  | native env program callers frames lower args callee owned references layers room holds
      careful =>
      exact ⟨home, tied_stepNative layers holds visible.1 tied explained, (bare rfl).gathered⟩
  | running env callers frames frame lower locals operands callee keeps references function
      listing level cells layers stands occupies placed holds =>
      obtain ⟨idle, tied'⟩ | goesOn := tied_running layers occupies placed holds explained tied stands
        veils (holds.live (layers.counted.window stands (locals ++ operands))) gathered
      · exact ⟨home, tied', (bare idle).gathered⟩
      · exact goesOn
  | ended env callers frames lower value references layers count holds =>
      have idle : (⟨env, .script callers⟩ : Machine α).executed? = none :=
        if_neg (by rw [holds.count, count]; exact Nat.lt_irrefl _)
      exact ⟨home, tied_ended layers count holds explained tied, (bare idle).gathered⟩

/-- However many steps it takes. -/
theorem Chronicled.forward (sound : machine.Sound terms keep) (veiled : machine.Veiled post)
    (chronicled : Chronicled catalogs home chronicle machine.environment) : ∀ steps,
      Explained texts catalogs (machine.forward steps).environment.programs → ∃ home',
        Chronicled catalogs home' (chronicle.after texts machine steps)
          (machine.forward steps).environment
  | 0, _ => ⟨home, chronicled⟩
  | steps + 1, explained => by
      rw [forward_succ] at explained ⊢
      have earlier := explained.fewer (Turn.step (machine.forward steps)).faithful.programs
      obtain ⟨home', before⟩ := chronicled.forward sound veiled steps earlier
      exact before.step (sound.forward steps) (veiled.forward sound steps) earlier

end PocketScript
