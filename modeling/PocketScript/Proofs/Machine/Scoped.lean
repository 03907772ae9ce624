import PocketScript.Proofs.Environment.Bindings
import PocketScript.Proofs.Machine.Explained

/-!
# Stores into variables

The topmost frame executes an instruction that stores into a variable, or boxes one, and the chronicle
does the same with the variable that the text mentions there. Which one that is follows from the name of
the place that the instruction accesses: a slot, the cell in a slot, or a captured cell
(`locate?_slot`, `locate?_localCell`, `locate?_upvalueCell`). All other instructions but the one that
makes a closure are of no concern to the chronicle (`Machine.execute_quiet`), and they leave slots and
cells as they are (`Machine.tied_quiet`).
-/

namespace PocketScript

open Environment Environment.Ground

variable {α : Type} {texts : Nat → List Outline} {catalogs : Nat → Catalog}
  {home : Handle → LocalVariable} {chronicle : Chronicle} {terms : Terms}
  {keep : α → List Reference → Prop} {env after : Environment} {callers : Callers α}
  {frames : List Frame} {frame : Frame} {lower locals operands : List Value} {callee value : Value}
  {references : List Reference} {keeps : Reference} {function : FunctionDef} {listing : Listing}
  {level cells : Nat → Nat} {program : Program} {instr : Instruction} {name : String}
  {post : α → Prop} {slot : UInt16} {block : Handle} {place : Nat} {constant : UInt16}

/-- What is written is the topmost operand. -/
theorem Chronicle.execute_write {before after : Environment} (chronicle : Chronicle)
    (written : before.mention? texts = some (.write name)) :
    chronicle.execute texts before after =
      chronicle.write (chronicle.locate? texts before name) (before.stack.back?.getD .undefined) := by
  unfold execute
  rw [written]

/-! ## What names denote for the topmost frame -/

/-- Whichever activation of its function uses a closure, its cells are those of the variables that the
names of its captures denote. -/
theorem Tied.of?_captured {target : FunctionRef} {closure : Handle}
    (tied : Tied catalogs home chronicle env)
    (explained : Explained texts catalogs env.programs)
    (loaded : env.programs[target.unit]? = some program)
    (found : program.function? target.index = some function)
    (same : ∀ other cells, env.heap.get? closure = some (.closure other cells) → other = target)
    (named : (target.sheet catalogs).name? (.capture slot) = some name)
    (there : env.heap.closureCell? closure slot.toNat = some (.cell block)) (activation : Nat) :
    Location.of? name (target.scopes catalogs) (activation :: chronicle.around closure) =
      some (.variable (home block)) := by
  obtain ⟨captured, other⟩ := Sheet.name?_capture.mp named
  obtain ⟨names, around, scopes, own⟩ := @Explained.own texts catalogs env.programs function
    program target explained loaded found fun empty => by
      rw [empty] at captured
      cases captured
  rw [scopes, Location.of?_around fun member => other ((own name).mpr member)]
  unfold Heap.closureCell? at there
  split at there
  · rename_i target' cells held
    obtain rfl := same target' cells held
    have located := tied.captured closure target' cells held slot.toNat name block captured there
    rwa [scopes] at located
  · cases there

section

variable (explained : Explained texts catalogs env.programs)
  (tied : Tied catalogs home chronicle env)
  (last : env.frames.toList = frames ++ [frame])
  (loaded : env.programs[frame.unit]? = some program)
  (found : program.function? frame.index = some function)

include explained last loaded found

theorem locate?_eq : chronicle.locate? texts env name =
    Location.of? name (frame.target.scopes catalogs) chronicle.current := by
  have top : env.frames.back? = some frame := by
    rw [← Array.getLast?_toList, last, List.getLast?_concat]
  have outline := @Explained.outline texts catalogs env.programs function program frame.target
    explained loaded found
  unfold Chronicle.locate?
  rw [top]
  change Location.of? name (frame.outline texts).scopes chronicle.current = _
  rw [show frame.outline texts = _ from outline]
  rfl

include tied

/-- The name of a slot denotes a variable of the activation. -/
theorem locate?_slot {index : Nat} (named : (frame.target.sheet catalogs).slots[index]? = some name) :
    ∃ activation, chronicle.current.head? = some activation ∧
      chronicle.locate? texts env name = some (.variable ⟨activation, name⟩) := by
  obtain ⟨chains, activation, -, current, -⟩ := tied.top last
  obtain ⟨names, around, scopes, own⟩ := @Explained.own texts catalogs env.programs function
    program frame.target explained loaded found fun empty => by
      rw [empty] at named
      cases named
  refine ⟨activation, by rw [current]; rfl, ?_⟩
  rw [locate?_eq explained last loaded found, scopes, current]
  exact Location.of?_own ((own name).mp (List.mem_of_getElem? named))

/-- In a slot lies the cell of the variable that the name of the slot denotes. -/
theorem locate?_localCell (named : (frame.target.sheet catalogs).name? (.slot slot) = some name)
    (there : env.stack[frame.base + slot.toNat]? = some (.cell block)) :
    chronicle.locate? texts env name = some (.variable (home block)) := by
  obtain ⟨activation, head, located⟩ := locate?_slot explained tied last loaded found named
  obtain ⟨chains, _, -, current, -, tie, -⟩ := tied.top last
  rw [current] at head tie
  cases head
  obtain ⟨_, -, -, slots⟩ := tie
  obtain ⟨value, at_, lies⟩ := slots slot.toNat name named
  cases there.symm.trans at_
  cases lies with
  | plain _ visible => cases visible
  | boxed _ same => rw [located, same]

/-- Among the captures is the cell of the variable that the name of the capture denotes. -/
theorem locate?_upvalueCell {closure : Handle}
    (named : (frame.target.sheet catalogs).name? (.capture slot) = some name)
    (runs : frame.closure = some closure)
    (there : env.heap.closureCell? closure slot.toNat = some (.cell block)) :
    chronicle.locate? texts env name = some (.variable (home block)) := by
  obtain ⟨chains, activation, -, current, -, tie, -⟩ := tied.top last
  rw [locate?_eq explained last loaded found, current, runs]
  rw [current] at tie
  obtain ⟨_, -, closure', -⟩ := tie
  obtain ⟨place, -, -, same⟩ := closure' closure runs
  exact tied.of?_captured explained loaded found same named there activation

omit tied

/-- A name that no function around owns denotes a global. -/
theorem locate?_global (none : ∀ own ∈ frame.target.scopes catalogs, name ∉ own) :
    chronicle.locate? texts env name = some (.global name) := by
  rw [locate?_eq explained last loaded found]
  exact Location.of?_global none

end

/-- What is gathered for a closure are the cells of the variables that are to be captured. -/
def Gathered (catalogs : Nat → Catalog) (home : Handle → LocalVariable) (chronicle : Chronicle)
    (env : Environment) : Prop :=
  ∀ frame listing, env.running? = some (frame, listing) →
    ∀ (index : Nat) source name, (listing.sources frame.pc)[index]? = some source →
      (frame.target.sheet catalogs).name? source.place = some name →
        ∃ block, env.stack[env.stack.size - (listing.sources frame.pc).length +
            index]? = some (.cell block) ∧
          Location.of? name (frame.target.scopes catalogs) chronicle.current =
            some (.variable (home block))

/-! ## The next instruction -/

/-- Besides globals there are three ways to store into a variable. -/
theorem Instruction.store_cases {place : Place} (stores : instr.role = .store place constant) :
    instr.op = .storeLocal ∨ instr.op = .storeCell ∨ instr.op = .storeUpvalue ∨
      place = .global := by
  obtain ⟨op, a, b⟩ := instr
  cases op <;> simp_all [role, Opcode.role]

namespace Machine

section

variable
  (layers : Layers terms env.programs env.config keep callers frames lower references)
  (occupies : Occupies terms env.programs env.config lower keeps frame function listing
    level cells)
  (placed : Placed function listing level cells frame.pc locals operands)
  (holds : env.Holds terms (frames ++ [frame]) (lower ++ callee :: (locals ++ operands))
    ((locals ++ operands).map .value ++ keeps :: references))
  (member : (frame.pc, instr) ∈ listing)
  (explained : Explained texts catalogs env.programs)

include occupies

include explained in
/-- The top level boxes nothing. -/
theorem scopes_of_boxes (boxes : listing.Boxes slot) : frame.target.scopes catalogs ≠ [] := by
  obtain ⟨known, there, found, verified⟩ := occupies.program
  obtain ⟨names, around, scopes, -⟩ := (@Explained.owns_of_boxes texts catalogs env.programs
    function listing known frame.target explained there found verified.listed slot boxes).mem
  rw [show frame.target.scopes catalogs = _ from scopes]
  exact List.cons_ne_nil _ _

include holds

theorem running?_eq : env.running? = some (frame, listing) := by
  obtain ⟨program, loaded, found, verified⟩ := occupies.program
  have top : env.frames.back? = some frame := by
    rw [← Array.getLast?_toList, holds.frames, List.getLast?_concat]
  have known : env.function? frame.target = some function := by
    rw [function?_eq]
    change env.programs[frame.unit]?.bind (·.function? frame.index) = _
    rw [loaded]
    exact found
  unfold running?
  simp only [top, known, verified.listed, Except.toOption, Option.bind_eq_bind, Option.bind_some,
    Option.pure_def]

include member

theorem makesClosure_eq : env.makesClosure = decide (instr.op = .makeClosure) := by
  obtain ⟨program, -, -, verified⟩ := occupies.program
  unfold makesClosure
  rw [running?_eq occupies holds]
  simp only [Option.bind_some, Code.lookup_of_mem verified.listed member, Option.any_some]

/-- An instruction that accesses no variable stands for no mention. -/
theorem mention?_aside (aside : instr.role.isAccess = false) :
    env.mention? texts = none := by
  obtain ⟨program, -, -, verified⟩ := occupies.program
  unfold mention?
  rw [running?_eq occupies holds]
  simp only [Option.bind_eq_bind, Option.bind_some, Listing.mention?,
    Code.lookup_of_mem verified.listed member, aside, Bool.false_eq_true, if_false]

include explained

/-- Others access the variable that is mentioned. -/
theorem mention?_access (access : instr.role.isAccess = true) :
    ∃ mention, env.mention? texts = some mention ∧
      (catalogs frame.unit).Accesses (frame.target.sheet catalogs) (frame.target.scopes catalogs)
        instr.role mention := by
  obtain ⟨program, loaded, found, verified⟩ := occupies.program
  obtain ⟨mention, there, accesses⟩ := (@Explained.codes texts catalogs env.programs function
    program frame.target explained loaded found).accesses verified.listed member access
  refine ⟨mention, ?_, accesses⟩
  have outline : frame.outline texts = (catalogs frame.unit).outline frame.index.toNat :=
    @Explained.outline texts catalogs env.programs function program frame.target explained
      loaded found
  unfold mention?
  rw [running?_eq occupies holds]
  simp only [Option.bind_eq_bind, Option.bind_some, outline]
  exact there

/-- Apart from stores into variables of functions and the making of closures, instructions do not
matter to the chronicle. -/
theorem execute_quiet (closure : instr.op ≠ .makeClosure)
    (quiet : ∀ place constant, instr.role = .store place constant → place = .global) :
    chronicle.execute texts env after = chronicle := by
  have makes := makesClosure_eq occupies holds member
  rw [decide_eq_false closure] at makes
  cases access : instr.role.isAccess with
  | false =>
      have mention : env.mention? texts = none :=
        mention?_aside occupies holds member access
      unfold Chronicle.execute
      rw [mention, makes]
  | true =>
      obtain ⟨mention, there, accesses⟩ := mention?_access occupies holds member explained access
      obtain ⟨program, loaded, found, verified⟩ := occupies.program
      generalize same : instr.role = role at accesses
      cases accesses with
      | store names =>
          obtain rfl := quiet _ _ same
          rw [chronicle.execute_write there, locate?_global explained holds.frames loaded found names.2]
          rfl
      | _ =>
          unfold Chronicle.execute
          rw [there, makes]

omit member explained occupies in
/-- The topmost frame is put to another position. -/
theorem tied_at (tied : Tied catalogs home chronicle env) (pc : Nat) :
    Tied catalogs home chronicle (env.at_ pc) := by
  have moved : (env.at_ pc).frames.toList = frames ++ [{ frame with pc }] :=
    toList_modify_last holds.frames _
  have still : (env.at_ pc).frames.toList.map Frame.still =
      env.frames.toList.map Frame.still := by
    rw [moved, holds.frames, List.map_append, List.map_append]
    rfl
  have left : Tied catalogs home (chronicle.leave (env.at_ pc).frames.size)
      (env.at_ pc) :=
    tied.lower (Heap.Balanced.sound holds.balanced) (.refl env.heap)
      (still ▸ List.prefix_refl _) fun _ _ _ _ => rfl
  rwa [size_at, Chronicle.leave_self (Nat.le_of_eq tied.length_chains)] at left

include layers

omit member holds in
/-- The slots of the topmost frame and of those below lie below its operands. -/
theorem reach_le_floor {other : Frame} {pc : Nat}
    (among : other ∈ frames ++ [({ frame with pc } : Frame)]) :
    other.reach catalogs ≤ (activationOf frame function program).floor := by
  have own : frame.reach catalogs ≤ frame.base + function.varCount.toNat := by
    rw [occupies.base]
    exact occupies.reach_le explained
  rcases List.mem_append.mp among with below | top
  · have := layers.reach_le explained other below
    have := occupies.base
    change _ ≤ frame.base + function.varCount.toNat
    omega
  · obtain rfl := List.mem_singleton.mp top
    exact own

omit member explained layers in
include placed in
theorem floor_le : (activationOf frame function program).floor ≤ env.stack.size := by
  change frame.base + function.varCount.toNat ≤ _
  rw [occupies.base, holds.size, List.length_append, List.length_cons, List.length_append, placed.slots]
  omega

variable (loaded : env.programs[frame.unit]? = some program)
  (done : execute (activationOf frame function program) instr
    (env.at_ (frame.pc + instr.size)) = (.ok (), after))

include placed done

omit member in
/-- Most instructions change neither the frames, but for the position of the topmost one, nor what lies
in slots. -/
theorem left_executed (stays : instr.op.leaves = false) (store : instr.op ≠ .storeLocal)
    (box : instr.op ≠ .makeCell) :
    after.frames.toList.map Frame.still <+: env.frames.toList.map Frame.still ∧
      ∀ other ∈ after.frames.toList, ∀ place < other.reach catalogs,
        after.stack[place]? = env.stack[place]? := by
  obtain ⟨position, -, going⟩ := frames_executed holds.frames (activationOf frame function program) stays
  have enough : (activationOf frame function program).floor ≤ env.stack.size :=
    floor_le occupies placed holds
  have kept {place : Nat} := @slots_kept (env.at_ (frame.pc + instr.size)) instr
    (activationOf frame function program) place stays store box enough
  rw [done] at going kept
  constructor
  · rw [going, holds.frames, List.map_append, List.map_append]
    exact List.prefix_refl _
  · intro other among place below
    rw [going] at among
    exact kept (Nat.lt_of_lt_of_le below (reach_le_floor layers occupies explained among))

/-- An instruction that has nothing to do with the variables of functions. -/
theorem tied_quiet (tied : Tied catalogs home chronicle env)
    (stays : instr.op.leaves = false) (aside : instr.op.handlesShared = false)
    (store : instr.op ≠ .storeLocal) :
    Tied catalogs home ((chronicle.execute texts env after).leave after.frames.size) after := by
  have others {op : Opcode} (shared : op.handlesShared = true) : instr.op ≠ op := by
    rintro rfl
    rw [aside] at shared
    cases shared
  obtain ⟨left, kept⟩ := left_executed layers occupies placed holds explained done stays store
    (others rfl)
  rw [execute_quiet occupies holds member explained (others rfl) fun place constant stores => ?_]
  · have spares := @sparing_execute (activationOf frame function program) instr aside
      (env.at_ (frame.pc + instr.size))
    rw [done] at spares
    exact tied.lower (Heap.Balanced.sound holds.balanced) spares left kept
  · obtain same | same | same | same := Instruction.store_cases stores
    · exact absurd same store
    · exact absurd same (others rfl)
    · exact absurd same (others rfl)
    · exact same

variable (veiled : env.Veiled env.Hides)
  (tied : Tied catalogs home chronicle env)

include tied

omit member in
/-- A value goes into a cell, which is the variable's that is mentioned. -/
theorem tied_intoCell {cell : Handle} (stays : instr.op.leaves = false)
    (store : instr.op ≠ .storeLocal) (box : instr.op ≠ .makeCell)
    (written : env.mention? texts = some (.write name))
    (located : chronicle.locate? texts env name = some (.variable (home cell)))
    (stores : storeInCell (activationOf frame function program) cell
      (env.at_ (frame.pc + instr.size)) = (.ok (), after)) :
    Tied catalogs home ((chronicle.execute texts env after).leave after.frames.size) after := by
  obtain ⟨left, kept⟩ := left_executed layers occupies placed holds explained done stays store box
  have sound := Heap.Balanced.sound holds.balanced
  obtain ⟨fault, last, failed, -⟩ | ⟨value, old, heap, -, top, held, writes, stored⟩ :=
    @storeInCell_cases (env.at_ (frame.pc + instr.size))
      (activationOf frame function program) sound cell
  · cases failed.symm.trans stores
  · cases stored.symm.trans stores
    have top : env.stack.back? = some value := top
    rw [chronicle.execute_write written, located, top]
    exact tied.write held writes left kept

/-- The topmost operand goes into a boxed variable. -/
theorem tied_storeCell (stores : instr.op = .storeCell) :
    Tied catalogs home ((chronicle.execute texts env after).leave after.frames.size) after := by
  obtain ⟨known, there, found, verified⟩ := occupies.program
  have boxes := verified.boxed _ _ member (by rw [stores]; rfl)
  have scopes := scopes_of_boxes occupies explained boxes
  obtain ⟨op, a, b⟩ := instr
  cases stores
  obtain ⟨mention, written, accesses⟩ := mention?_access occupies holds member explained rfl
  have done' : (localCell (activationOf frame function program) a >>= fun cell =>
      storeInCell (activationOf frame function program) cell)
        (env.at_ (frame.pc + (⟨.storeCell, a, b⟩ : Instruction).size)) = (.ok (), after) := done
  obtain failed | ⟨cell, -, at_, got⟩ := localCell_cases (activationOf frame function program) a
    (env.at_ (frame.pc + (⟨.storeCell, a, b⟩ : Instruction).size))
  · rw [action_bind_error failed] at done'
    cases done'
  rw [action_bind_ok got] at done'
  have accesses : (catalogs frame.unit).Accesses (frame.target.sheet catalogs)
    (frame.target.scopes catalogs) (.store (.slot a) 0) mention := accesses
  cases accesses with
  | store names =>
      exact tied_intoCell layers occupies placed holds explained done tied rfl nofun nofun written
        (locate?_localCell explained tied holds.frames there found names at_) done'
  | storeResult topLevel => exact absurd topLevel scopes

/-- The topmost operand goes into a captured variable. -/
theorem tied_storeUpvalue (stores : instr.op = .storeUpvalue) :
    Tied catalogs home ((chronicle.execute texts env after).leave after.frames.size) after := by
  obtain ⟨known, there, found, verified⟩ := occupies.program
  obtain ⟨op, a, b⟩ := instr
  cases stores
  obtain ⟨mention, written, accesses⟩ := mention?_access occupies holds member explained rfl
  have done' : (upvalueCell (activationOf frame function program) a >>= fun cell =>
      storeInCell (activationOf frame function program) cell)
        (env.at_ (frame.pc + (⟨.storeUpvalue, a, b⟩ : Instruction).size)) = (.ok (), after) := done
  obtain failed | ⟨closure, cell, runs, at_, got⟩ :=
    upvalueCell_cases (activationOf frame function program) a
      (env.at_ (frame.pc + (⟨.storeUpvalue, a, b⟩ : Instruction).size))
  · rw [action_bind_error failed] at done'
    cases done'
  rw [action_bind_ok got] at done'
  have accesses : (catalogs frame.unit).Accesses (frame.target.sheet catalogs)
    (frame.target.scopes catalogs) (.store (.capture a) 0) mention := accesses
  cases accesses with
  | store names =>
      exact tied_intoCell layers occupies placed holds explained done tied rfl nofun nofun written
        (locate?_upvalueCell explained tied holds.frames there found names runs at_) done'

omit layers occupies placed explained tied member in
/-- The topmost operand goes into a slot, and nothing else happens. -/
theorem executed_storeLocal (stores : instr.op = .storeLocal) :
    ∃ value, env.stack.back? = some value ∧
      frame.base + function.varCount.toNat < env.stack.size ∧
        instr.a.toNat < function.varCount.toNat ∧
          after.stack = env.stack.setIfInBounds (frame.base + instr.a.toNat) value ∧
            after.frames.toList = frames ++ [{ frame with pc := frame.pc + instr.size }] ∧
              Spares env after := by
  have going : (execute (activationOf frame function program) instr
      (env.at_ (frame.pc + instr.size))).2.frames.toList = _ :=
    frames_next holds _ (by rw [stores]; rfl) (by rw [stores]; rfl)
  have spares := @sparing_execute (activationOf frame function program) instr
    (by rw [stores]; rfl) (env.at_ (frame.pc + instr.size))
  rw [done] at going spares
  obtain ⟨op, a, b⟩ := instr
  cases stores
  obtain ⟨-, fault, failed⟩ | ⟨value, heap, inside, enough, top, stored⟩ :=
    storeLocal_cases (activationOf frame function program) a
      (env.at_ (frame.pc + (⟨.storeLocal, a, b⟩ : Instruction).size))
  · cases failed.symm.trans done
  · cases stored.symm.trans done
    exact ⟨value, top, enough, inside, rfl, going, spares⟩

omit placed in
/-- The result of a unit is no variable of a function. -/
theorem tied_storeResult (stores : instr.op = .storeLocal)
    (written : env.mention? texts = some .result)
    (topLevel : frame.target.scopes catalogs = []) :
    Tied catalogs home ((chronicle.execute texts env after).leave after.frames.size) after := by
  obtain ⟨known, there, found, verified⟩ := occupies.program
  obtain ⟨value, -, -, -, stack, going, spares⟩ := executed_storeLocal holds done stores
  have same : chronicle.execute texts env after = chronicle := by
    unfold Chronicle.execute
    rw [written, makesClosure_eq occupies holds member, stores]
    rfl
  have none : frame.target.sheet catalogs = {} := by
    by_contra named
    obtain ⟨names, around, scopes, -⟩ := @Explained.own texts catalogs env.programs function
      known frame.target explained there found named
    rw [topLevel] at scopes
    cases scopes
  rw [same]
  refine tied.lower (Heap.Balanced.sound holds.balanced) spares ?_ fun other among place below => ?_
  · rw [going, holds.frames, List.map_append, List.map_append]
    exact List.prefix_refl _
  · rw [stack, Array.getElem?_setIfInBounds_ne]
    have base := occupies.base
    rw [going] at among
    rcases List.mem_append.mp among with waiting | top
    · have := layers.reach_le explained other waiting
      omega
    · obtain rfl := List.mem_singleton.mp top
      change place < frame.base + (frame.target.sheet catalogs).slots.length at below
      rw [none] at below
      change place < frame.base + 0 at below
      omega

include veiled

omit placed in
/-- The topmost operand goes into a variable that is not boxed. -/
theorem tied_storeLocal (stores : instr.op = .storeLocal) :
    Tied catalogs home ((chronicle.execute texts env after).leave after.frames.size) after := by
  have access : ∃ mention, env.mention? texts = some mention ∧
      (catalogs frame.unit).Accesses (frame.target.sheet catalogs) (frame.target.scopes catalogs)
        (.store (.slot instr.a) 0) mention := by
    obtain ⟨op, a, b⟩ := instr
    cases stores
    exact mention?_access occupies holds member explained rfl
  obtain ⟨mention, written, accesses⟩ := access
  generalize same : instr.a = slot at accesses
  cases accesses with
  | storeResult topLevel =>
      exact tied_storeResult layers occupies holds member explained done tied stores written topLevel
  | store names =>
  subst same
  obtain ⟨known, there, found, verified⟩ := occupies.program
  obtain ⟨value, top, high, inside, stack, going, spares⟩ :=
    executed_storeLocal holds done stores
  obtain ⟨activation, head, located⟩ := locate?_slot explained tied holds.frames there found names
  obtain ⟨old, at_⟩ : ∃ old, env.stack[frame.base + instr.a.toNat]? = some old :=
    ⟨_, Array.getElem?_eq_getElem (Nat.lt_trans (Nat.add_lt_add_left inside frame.base) high)⟩
  -- Neither the value nor what it replaces is a cell.
  have none := (occupies.gathers veiled.gathers).none member (by rw [stores]; rfl)
    (by rw [stores]; decide)
  have rest := ungathered_at occupies holds veiled none frame.pc
  have plain := rest.visible at_ (unboxed_slot layers occupies member (by rw [stores]; rfl))
  have visible : value.Visible := by
    have last := top
    rw [Array.back?_eq_getElem?] at last
    refine rest.visible last fun boxed => ?_
    have below := layers.boxed_lt_floor occupies boxed
    omega
  have size : after.frames.size = env.frames.size := by
    rw [← Array.length_toList, going, ← Array.length_toList, holds.frames, List.length_append,
      List.length_append]
    rfl
  rw [chronicle.execute_write written, located, top, Chronicle.leave_self (by
    rw [size]
    exact Nat.le_of_eq tied.length_chains)]
  refine Tied.store holds.frames head (fun other among => ?_) names (explained.nodup there found)
    (fun place other => ?_) ?_ tied going (Heap.Balanced.sound holds.balanced) spares at_ plain visible
  · have := layers.reach_le explained other among
    have := occupies.base
    omega
  · rw [stack, Array.getElem?_setIfInBounds_ne (Ne.symm other)]
  · rw [stack, Array.getElem?_setIfInBounds_self_of_lt (Array.getElem?_eq_some_iff.mp at_).1]
    rfl

omit placed in
/-- A variable is boxed. -/
theorem tied_makeCell (live : env.Live) (box : instr.op = .makeCell) :
    ∃ home', Tied catalogs home' ((chronicle.execute texts env after).leave after.frames.size)
      after := by
  obtain ⟨known, there, found, verified⟩ := occupies.program
  have owns := @Explained.owns_of_boxes texts catalogs env.programs function listing known
    frame.target explained there found verified.listed instr.a ⟨_, _, member, box, rfl⟩
  have inside := (verified.inRange _ _ member).variable_ (.inr (.inr box))
  obtain ⟨name, named⟩ : ∃ name, (frame.target.sheet catalogs).slots[instr.a.toNat]? = some name :=
    ⟨_, List.getElem?_eq_getElem (owns.count ▸ inside)⟩
  obtain ⟨activation, head, -⟩ := locate?_slot explained tied holds.frames there found named
  have none := (occupies.gathers veiled.gathers).none member (by rw [box]; rfl)
    (by rw [box]; decide)
  have rest := ungathered_at occupies holds veiled none frame.pc
  have quiet : chronicle.execute texts env after = chronicle :=
    execute_quiet occupies holds member explained (by rw [box]; decide) fun place constant stores => by
      obtain ⟨op, a, b⟩ := instr
      cases box
      cases stores
  have going : (execute (activationOf frame function program) instr
      (env.at_ (frame.pc + instr.size))).2.frames.toList = _ :=
    frames_next holds _ (by rw [box]; rfl) (by rw [box]; rfl)
  have elsewhere := unboxed_yet layers occupies member veiled box
  rw [done] at going
  have size : after.frames.size = env.frames.size := by
    rw [← Array.length_toList, going, ← Array.length_toList, holds.frames, List.length_append,
      List.length_append]
    rfl
  rw [quiet, Chronicle.leave_self (by
    rw [size]
    exact Nat.le_of_eq tied.length_chains)]
  obtain ⟨op, a, b⟩ := instr
  cases box
  obtain ⟨fault, last, failed, -⟩ | ⟨value, block, heap, -, at_, fresh, writes, made⟩ :=
    @makeCell_cases (env.at_ (frame.pc + (⟨.makeCell, a, b⟩ : Instruction).size))
      (activationOf frame function program) a (Heap.Balanced.sound holds.balanced)
  · cases failed.symm.trans done
  cases made.symm.trans done
  refine ⟨_, Tied.box holds.frames head (fun other among => ?_) named owns.nodup
    (fun place other => ?_) ?_ tied live going fresh writes at_ (rest.visible at_ elsewhere) rfl⟩
  · have := layers.reach_le explained other among
    have := occupies.base
    omega
  · exact Array.getElem?_setIfInBounds_ne (Ne.symm other)
  · exact Array.getElem?_setIfInBounds_self_of_lt (Array.getElem?_eq_some_iff.mp at_).1

end

end Machine

end PocketScript
