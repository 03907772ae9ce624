import Mathlib.Data.List.Basic
import PocketScript.Proofs.Environment.Accounted

/-!
# The next instruction of verified code

A function whose code passes the verifier always finds what its next instruction needs: the operands
on the stack, cells in the boxed variables, the captured cells in its closure, and room for the
results (`Environment.Ground.Placed`). So the instruction does its work or fails in an ordinary way,
and the one after it finds again what it needs (`Environment.Ground.Runs.goes_execute`).
-/

namespace PocketScript

namespace Environment

namespace Ground

variable {ground : Ground} {activation : Activation} {function : FunctionDef} {listing : Listing}
  {level cells : Nat → Nat} {pc : Nat} {instr : Instruction} {locals operands rest : List Value}

/-- A function with verified code runs on the ground, which has room for all that it may need. -/
structure Runs (ground : Ground) (activation : Activation) (function : FunctionDef)
    (listing : Listing) (level cells : Nat → Nat) : Prop where
  hosts : ground.Hosts activation
  locals : activation.varCount = function.varCount.toNat
  verified : function.Verified activation.program listing
  leveled : listing.Leveled function.stackHigh.toNat level cells
  room : ground.lower.length + function.varCount.toNat + function.stackHigh.toNat ≤
    ground.config.stackSize
  captures : ground.trusted → ∃ count, listing.UsesBelow count ∧ (count = 0 ∨ ∃ closure target,
    activation.closure = some closure ∧ .callee closure target count ∈ ground.below)

/-- So many of the topmost operands are cells. -/
def OnTop (count : Nat) (operands : List Value) : Prop :=
  ∀ value ∈ operands.drop (operands.length - count), value.isCell = true

/-- The slots that are boxed in front of a position hold cells. -/
def Boxed (listing : Listing) (pc : Nat) (locals : List Value) : Prop :=
  ∀ offset instr, (offset, instr) ∈ listing → instr.op = .makeCell → offset < pc →
    ∃ cell, locals[instr.a.toNat]? = some (.cell cell)

/-- The variables and operands are as the instruction at a position finds them. -/
structure Placed (function : FunctionDef) (listing : Listing) (level cells : Nat → Nat) (pc : Nat)
    (locals operands : List Value) : Prop where
  here : ∃ instr, (pc, instr) ∈ listing
  slots : locals.length = function.varCount.toNat
  depth : operands.length = level pc
  onTop : OnTop (cells pc) operands
  boxed : Boxed listing pc locals

/-! ## What verified code says of an instruction -/

variable (runs : ground.Runs activation function listing level cells)
  (member : (pc, instr) ∈ listing)

include runs

theorem Runs.floor (placed : Placed function listing level cells pc locals operands)
    (rest : List Value) : activation.floor ≤ ground.lower.length + (locals ++ rest).length := by
  rw [Activation.floor, runs.hosts.base, runs.locals, List.length_append, placed.slots]
  omega

include member

/-- Behind an instruction that goes on, there is room for the operands that are there then. -/
theorem Runs.next (goesOn : instr.op.goesOn = true) :
    (∃ follower, (pc + instr.size, follower) ∈ listing) ∧
      (level (pc + instr.size) : Int) = level pc + instr.effect ∧
        level (pc + instr.size) ≤ function.stackHigh.toNat ∧
          cells (pc + instr.size) ≤
            if instr.op.pushesCell then cells pc + 1 else 0 := by
  obtain ⟨⟨follower, there⟩, level, cells⟩ := runs.leveled.next pc instr member goesOn
  exact ⟨⟨follower, there⟩, level, runs.leveled.room _ follower there, cells⟩

omit member in
theorem Runs.offers {created : FunctionDef} {index : UInt16} {count : Nat}
    (found : activation.program.function? index = some created)
    (uses : created.UsesBelow count) :
    Offers ground.trusted ground.programs ⟨activation.unit, index⟩ count :=
  fun _ => ⟨activation.program, created, runs.hosts.program, found, uses⟩

/-- Behind the boxing of variables, all that are boxed hold cells. -/
theorem Runs.boxes (placed : Placed function listing level cells pc locals operands)
    (other : instr.op ≠ .makeCell) {slot : UInt16} (boxed : listing.Boxes slot) :
    ∃ cell, locals[slot.toNat]? = some (.cell cell) := by
  obtain ⟨offset, boxing, there, isBoxing, rfl⟩ := boxed
  obtain ⟨front, behind, rfl, boxes, others⟩ := runs.verified.boxing
  have ordered := Code.ordered_of_disassemble runs.verified.listed
  refine placed.boxed offset boxing there isBoxing ?_
  have early : (offset, boxing) ∈ front := by
    rcases List.mem_append.mp there with early | late
    · exact early
    · exact absurd isBoxing (others _ _ late)
  have late : (pc, instr) ∈ behind := by
    rcases List.mem_append.mp member with early | late
    · exact absurd (boxes _ _ early) other
    · exact late
  have apart := (List.pairwise_append.mp ordered).2.2 _ early _ late
  have positive := boxing.op.size_pos
  simp only [Instruction.size] at apart
  omega

/-- An instruction of another kind leaves the boxed variables boxed. -/
theorem Runs.boxed (placed : Placed function listing level cells pc locals operands)
    (other : instr.op ≠ .makeCell) (position : Nat) : Boxed listing position locals :=
  fun _ boxing there isBoxing _ => runs.boxes member placed other ⟨_, boxing, there, isBoxing, rfl⟩

/-- The instruction finds a cell in the variable that it names. -/
theorem Runs.finds_local (placed : Placed function listing level cells pc locals operands)
    (refers : instr.op.refersToCell = true) (rest : List Value) :
    ground.Finds (locals ++ rest) (localCell activation instr.a) := by
  have other : instr.op ≠ .makeCell := by
    intro same
    rw [same] at refers
    cases refers
  obtain ⟨cell, there⟩ := runs.boxes member placed other
    (runs.verified.boxed pc instr member refers)
  have inside := (runs.verified.inRange pc instr member).variable_ (.inr (.inl refers))
  refine finds_localCell cell runs.hosts (runs.locals ▸ inside) ?_
  rw [List.getElem?_append_left (placed.slots ▸ inside), there]

/-- The instruction finds a captured cell. -/
theorem Runs.finds_upvalue (refers : instr.op.refersToUpvalue = true) (window : List Value) :
    ground.Finds window (upvalueCell activation instr.a) := by
  refine finds_upvalueCell fun trusted => ?_
  obtain ⟨count, uses, none | ⟨closure, target, same, callee⟩⟩ := runs.captures trusted
  · have := uses pc instr member refers
    omega
  · exact ⟨closure, target, count, same, callee, uses pc instr member refers⟩

omit runs member

/-! ## Going on -/

/-- The next instruction of the topmost frame starts at another position. -/
def at_ (ground : Ground) (pc : Nat) : Ground :=
  { ground with frames := ground.frames.modify (ground.frames.size - 1) ({ · with pc }) }

theorem at_at (ground : Ground) (first second : Nat) :
    (ground.at_ first).at_ second = ground.at_ second := by
  unfold at_
  congr 1
  apply Array.ext_getElem?
  intro index
  simp only [Array.size_modify, Array.getElem?_modify]
  split
  · cases ground.frames[index]? <;> rfl
  · rfl

theorem Bears.setPosition {window loose : List Value} {env : Environment}
    (bears : ground.Bears window loose env) (pc : Nat) :
    (ground.at_ pc).Bears window loose (Environment.setPosition pc env).2 :=
  { bears with
    frames := congrArg (fun frames : Array Frame =>
      frames.modify (frames.size - 1) ({ · with pc })) bears.frames }

theorem Runs.moved (runs : ground.Runs activation function listing level cells) (pc : Nat) :
    (ground.at_ pc).Runs activation function listing level cells :=
  { runs with hosts := ⟨runs.hosts.base, runs.hosts.program⟩ }

/-- An action comes to a position with what the instruction there needs, or it fails with nothing
loose. -/
def Goes (ground : Ground) (function : FunctionDef) (listing : Listing) (level cells : Nat → Nat)
    (next : Nat) (window : List Value) (action : Action Unit) : Prop :=
  Ensures ground.trusted ((ground.at_ next).Bears window []) action
    (fun _ env => ∃ position locals operands,
      Placed function listing level cells position locals operands ∧
        (ground.at_ position).Bears (locals ++ operands) [] env)
    (ground.at_ next).Rests

/-- The operands that an instruction needs are the topmost ones. -/
theorem Placed.split (placed : Placed function listing level cells pc locals operands)
    (enough : instr.needs ≤ level pc) :
    ∃ below taken, operands = below ++ taken ∧ taken.length = instr.needs := by
  refine ⟨operands.take (operands.length - instr.needs),
    operands.drop (operands.length - instr.needs), (List.take_append_drop _ _).symm, ?_⟩
  rw [List.length_drop, placed.depth]
  omega

theorem OnTop.mono {count fewer : Nat} (top : OnTop count operands) (few : fewer ≤ count) :
    OnTop fewer operands := fun value member =>
  top value (List.mem_of_mem_drop (i := operands.length - fewer - (operands.length - count)) (by
    rw [List.drop_drop]
    rwa [show operands.length - count + (operands.length - fewer - (operands.length - count)) =
      operands.length - fewer by omega]))

theorem onTop_zero (operands : List Value) : OnTop 0 operands := by
  intro value member
  rw [Nat.sub_zero, List.drop_length] at member
  cases member

theorem OnTop.push {count : Nat} (top : OnTop count operands) (cell : Handle) :
    OnTop (count + 1) (operands ++ [.cell cell]) := by
  intro value member
  rw [List.length_append, List.length_singleton, Nat.add_sub_add_right] at member
  rw [List.drop_append_of_le_length (Nat.sub_le _ _)] at member
  rcases List.mem_append.mp member with below | last
  · exact top value below
  · rw [List.mem_singleton.mp last]
    rfl

include runs member

theorem Runs.placed_next {values : List Value} (goesOn : instr.op.goesOn = true)
    (placed : Placed function listing level cells pc locals operands)
    {locals' : List Value} (slots : locals'.length = locals.length)
    (depth : (values.length : Int) = level pc + instr.effect)
    (onTop : OnTop (if instr.op.pushesCell then cells pc + 1 else 0) values)
    (boxed : Boxed listing (pc + instr.size) locals') :
    Placed function listing level cells (pc + instr.size) locals' values := by
  obtain ⟨there, level, -, few⟩ := runs.next member goesOn
  exact ⟨there, slots.trans placed.slots, by omega, onTop.mono few, boxed⟩

/-- Other values come in the place of the operands that an instruction takes. -/
theorem Runs.goes {taken : List Value} {given : Nat} {action : Action Unit}
    (placed : Placed function listing level cells pc locals (operands ++ taken))
    (goesOn : instr.op.goesOn = true) (noCell : instr.op.pushesCell = false)
    (other : instr.op ≠ .makeCell)
    (effect : (given : Int) = taken.length + instr.effect)
    (turns : activation.floor ≤ ground.lower.length + (locals ++ operands).length →
      ground.lower.length + (locals ++ operands).length + given ≤ ground.config.stackSize →
        (ground.at_ (pc + instr.size)).Turns (locals ++ operands) taken action given) :
    ground.Goes function listing level cells (pc + instr.size) (locals ++ (operands ++ taken))
      action := by
  obtain ⟨-, next, room, -⟩ := runs.next member goesOn
  have depth := placed.depth
  rw [List.length_append] at depth
  have low : activation.floor ≤ ground.lower.length + (locals ++ operands).length := by
    rw [Activation.floor, runs.hosts.base, runs.locals, List.length_append, placed.slots]
    omega
  have high : ground.lower.length + (locals ++ operands).length + given ≤ ground.config.stackSize := by
    have := runs.room
    rw [List.length_append, placed.slots]
    omega
  refine (turns low high).weaken (fun _ bears => ?_) (fun _ env held => ?_) fun _ => id
  · rwa [List.append_assoc]
  · obtain ⟨values, many, bears⟩ := held
    refine ⟨pc + instr.size, locals, operands ++ values, ?_, by rwa [← List.append_assoc]⟩
    refine runs.placed_next member goesOn placed rfl ?_ ?_ (runs.boxed member placed other _)
    · rw [List.length_append]
      omega
    · rw [noCell]
      exact onTop_zero _

/-- A cell that is found is pushed. -/
theorem Runs.goes_cell {action : Action Handle}
    (placed : Placed function listing level cells pc locals operands)
    (goesOn : instr.op.goesOn = true) (pushes : instr.op.pushesCell = true)
    (other : instr.op ≠ .makeCell) (effect : instr.effect = 1)
    (finds : (ground.at_ (pc + instr.size)).Finds (locals ++ operands) action) :
    ground.Goes function listing level cells (pc + instr.size) (locals ++ operands)
      (do pushShared (.cell (← action))) := by
  obtain ⟨-, next, room, -⟩ := runs.next member goesOn
  have depth := placed.depth
  have high : ground.lower.length + (locals ++ operands).length < ground.config.stackSize := by
    have := runs.room
    rw [List.length_append, placed.slots]
    omega
  refine (ensures_pushCell finds high).weaken (fun _ => id) (fun _ env held => ?_)
    fun _ => id
  obtain ⟨cell, bears⟩ := held
  refine ⟨pc + instr.size, locals, operands ++ [.cell cell], ?_, by
    rwa [← List.append_assoc]⟩
  refine runs.placed_next member goesOn placed rfl ?_ ?_ (runs.boxed member placed other _)
  · rw [List.length_append, List.length_singleton]
    omega
  · rw [pushes]
    exact placed.onTop.push cell

/-- Behind a jump that is taken, the target finds what it needs. -/
theorem Runs.placed_taken {values : List Value} (jump : instr.op.isJump = true)
    (placed : Placed function listing level cells pc locals operands)
    (depth : (values.length : Int) = level pc + instr.takenEffect) :
    Placed function listing level cells instr.a.toNat locals values := by
  obtain ⟨target, there⟩ := runs.verified.jumps pc instr member jump
  obtain ⟨level, none⟩ := runs.leveled.taken pc instr member jump
  have other : instr.op ≠ .makeCell := by
    intro same
    rw [same] at jump
    cases jump
  refine ⟨⟨target, there⟩, placed.slots, by omega, ?_, runs.boxed member placed other _⟩
  rw [none]
  exact onTop_zero _

/-- A new cell comes in the place of a variable. -/
theorem Runs.goes_makeCell (placed : Placed function listing level cells pc locals operands)
    (boxing : instr.op = .makeCell) :
    ground.Goes function listing level cells (pc + instr.size) (locals ++ operands)
      (makeCell activation instr.a) := by
  have inside : instr.a.toNat < locals.length := by
    rw [placed.slots]
    exact (runs.verified.inRange pc instr member).variable_ (.inr (.inr boxing))
  have there : (locals ++ operands)[instr.a.toNat]? = some locals[instr.a.toNat] := by
    rw [List.getElem?_append_left inside, List.getElem?_eq_getElem inside]
  have within : instr.a.toNat < activation.varCount := by
    rw [runs.locals, ← placed.slots]
    exact inside
  refine (ensures_makeCell (runs.moved _).hosts within there).weaken (fun _ => id)
    (fun _ env held => ?_) fun _ => id
  obtain ⟨cell, bears⟩ := held
  refine ⟨pc + instr.size, locals.set instr.a.toNat (.cell cell), operands, ?_, ?_⟩
  · have goesOn : instr.op.goesOn = true := by rw [boxing]; rfl
    refine runs.placed_next member goesOn placed (List.length_set ..) ?_ ?_ ?_
    · have none : instr.effect = 0 := by
        rw [Instruction.effect, boxing]
        rfl
      rw [placed.depth, none, Int.add_zero]
    · rw [show instr.op.pushesCell = false by rw [boxing]; rfl]
      exact onTop_zero _
    · intro offset earlier member' isBoxing before
      by_cases same : instr.a.toNat = earlier.a.toNat
      · exact ⟨cell, by rw [← same, List.getElem?_set_self inside]⟩
      · rw [List.getElem?_set_ne same]
        refine placed.boxed offset earlier member' isBoxing ?_
        rcases Code.apart_of_disassemble runs.verified.listed member member' with one | late | early
        · injection one with _ one
          exact absurd (congrArg (·.a.toNat) one) same
        · exact absurd (Nat.lt_of_lt_of_le before late) (Nat.lt_irrefl _)
        · have positive := earlier.op.size_pos
          simp only [Instruction.size] at early
          omega
  · rwa [List.set_append_left _ _ inside] at bears

/-- A jump on a condition drops its operand. -/
theorem Runs.goes_jumpIf {value : Value} {wanted : Bool}
    (placed : Placed function listing level cells pc locals (operands ++ [value]))
    (conditional : instr.op = .jumpIfFalse ∨ instr.op = .jumpIfTrue) :
    ground.Goes function listing level cells (pc + instr.size)
      (locals ++ (operands ++ [value])) (jumpIf activation wanted instr.a.toNat) := by
  obtain ⟨goesOn, jump, noCell, other, effect, taken⟩ : instr.op.goesOn = true ∧
      instr.op.isJump = true ∧ instr.op.pushesCell = false ∧
        instr.op ≠ .makeCell ∧ instr.effect = -1 ∧ instr.takenEffect = -1 := by
    rcases conditional with same | same <;>
      simp [Instruction.takenEffect, Instruction.effect, same, Opcode.goesOn, Opcode.leaves,
        Opcode.isJump, Opcode.pushesCell, Opcode.keepsOperand, Opcode.stackEffect]
  have depth := placed.depth
  rw [List.length_append, List.length_singleton] at depth
  unfold Goes
  rw [← List.append_assoc]
  refine (returns_pop ((runs.moved _).floor placed operands)).bind
    (ensures_view fun truthy => ?_)
  intro env given
  obtain ⟨after, released, bears⟩ := returns_release env given.1
  rw [action_bind_ok released]
  by_cases same : truthy = wanted
  · rw [if_pos same]
    refine ⟨instr.a.toNat, locals, operands, runs.placed_taken member jump placed ?_, ?_⟩
    · omega
    · have moved := bears.setPosition instr.a.toNat
      rwa [at_at] at moved
  · rw [if_neg same]
    refine ⟨pc + instr.size, locals, operands, ?_, bears⟩
    refine runs.placed_next member goesOn placed rfl (by omega) ?_
      (runs.boxed member placed other _)
    rw [noCell]
    exact onTop_zero _

/-- A jump that keeps its operand when it is taken. -/
theorem Runs.goes_jumpOrPop {value : Value} {wanted : Bool}
    (placed : Placed function listing level cells pc locals (operands ++ [value]))
    (keeps : instr.op.keepsOperand = true) :
    ground.Goes function listing level cells (pc + instr.size)
      (locals ++ (operands ++ [value])) (jumpOrPop activation wanted instr.a.toNat) := by
  obtain ⟨goesOn, jump, noCell, other, effect⟩ : instr.op.goesOn = true ∧
      instr.op.isJump = true ∧ instr.op.pushesCell = false ∧
        instr.op ≠ .makeCell ∧ instr.effect = -1 := by
    obtain same | same : instr.op = .jumpIfFalseOrPop ∨ instr.op = .jumpIfTrueOrPop := by
      simpa [Opcode.keepsOperand] using keeps
    all_goals simp [Instruction.effect, same, Opcode.goesOn, Opcode.leaves,
        Opcode.isJump, Opcode.pushesCell, Opcode.stackEffect]
  have taken : instr.takenEffect = 0 := if_pos keeps
  have depth := placed.depth
  rw [List.length_append, List.length_singleton] at depth
  have low := (runs.moved (pc + instr.size)).floor placed operands
  unfold Goes
  rw [← List.append_assoc]
  refine (@returns_peek _ (locals ++ operands) [] value activation.floor [] low).bind
    (ensures_view fun truthy => ?_)
  intro env given
  by_cases same : truthy = wanted
  · rw [if_pos same]
    refine ⟨instr.a.toNat, locals, operands ++ [value],
      runs.placed_taken member jump placed ?_, ?_⟩
    · rw [List.length_append, List.length_singleton]
      omega
    · have moved := given.1.setPosition instr.a.toNat
      rwa [at_at, List.append_assoc] at moved
  · rw [if_neg same]
    obtain ⟨middle, popped, bears⟩ := returns_pop low env given.1
    obtain ⟨after, released, bears⟩ := returns_release middle bears
    rw [action_bind_ok popped, released]
    refine ⟨pc + instr.size, locals, operands, ?_, bears⟩
    refine runs.placed_next member goesOn placed rfl (by omega) ?_
      (runs.boxed member placed other _)
    rw [noCell]
    exact onTop_zero _

/-- A variable takes over the topmost operand, which stays. -/
theorem Runs.goes_storeLocal {value : Value}
    (placed : Placed function listing level cells pc locals (operands ++ [value]))
    (stores : instr.op = .storeLocal) :
    ground.Goes function listing level cells (pc + instr.size)
      (locals ++ (operands ++ [value])) (storeLocal activation instr.a) := by
  have inside : instr.a.toNat < locals.length := by
    rw [placed.slots]
    refine (runs.verified.inRange pc instr member).variable_ (.inl ?_)
    rw [stores]
    rfl
  have there : (locals ++ operands)[instr.a.toNat]? = some locals[instr.a.toNat] := by
    rw [List.getElem?_append_left inside, List.getElem?_eq_getElem inside]
  have within : instr.a.toNat < activation.varCount := by
    rw [runs.locals, ← placed.slots]
    exact inside
  have stored : Returns ((ground.at_ (pc + instr.size)).Bears
      ((locals ++ operands) ++ [value]) []) (storeLocal activation instr.a) () _ :=
    returns_storeLocal (runs.moved _).hosts ((runs.moved _).floor placed operands) within there
  unfold Goes
  rw [← List.append_assoc]
  intro env bears
  obtain ⟨after, done, bears⟩ := stored env bears
  rw [done]
  rw [List.set_append_left _ _ inside, List.append_assoc] at bears
  refine ⟨pc + instr.size, locals.set instr.a.toNat value, operands ++ [value], ?_,
    bears⟩
  have goesOn : instr.op.goesOn = true := by rw [stores]; rfl
  refine runs.placed_next member goesOn placed (List.length_set ..) ?_ ?_ ?_
  · have none : instr.effect = 0 := by
      rw [Instruction.effect, stores]
      rfl
    rw [placed.depth, none, Int.add_zero]
  · rw [show instr.op.pushesCell = false by rw [stores]; rfl]
    exact onTop_zero _
  · intro offset boxing member' isBoxing _
    obtain ⟨cell, held⟩ := runs.boxes member placed (by rw [stores]; simp)
      ⟨offset, boxing, member', isBoxing, rfl⟩
    refine ⟨cell, ?_⟩
    rw [List.getElem?_set_ne, held]
    intro same
    refine runs.verified.unboxed pc instr member (by rw [stores]; rfl)
      ⟨offset, boxing, member', isBoxing, UInt16.toNat_inj.mp same.symm⟩

omit runs member in
theorem turns_nothing {window : List Value} : ground.Turns window [] (pure ()) 0 :=
  ensures_pure fun _ bears => ⟨[], rfl, bears⟩

omit runs member

/-! ## Families of instructions -/

/-- What instructions have to do with. -/
inductive Family where
  /-- The calls of functions and the ends of calls. -/
  | calls
  | constants
  /-- Values that are made of operands. -/
  | composites
  | copies
  | variables_
  | globals
  | operators
  | jumps

/-- The family of an instruction. -/
def family : Opcode → Family
  | .call | .ret | .retUndefined => .calls
  | .nop | .pushUndefined | .pushNaN | .pushTrue | .pushFalse | .pushZero | .pushInt | .pushNumber
  | .pushString | .pushFunction => .constants
  | .makeClosure | .makeArray | .makeObject => .composites
  | .pop | .dup | .dup2 => .copies
  | .loadLocal | .storeLocal | .loadCell | .storeCell | .makeCell | .pushCell | .loadUpvalue
  | .storeUpvalue | .pushUpvalue => .variables_
  | .loadGlobal | .storeGlobal | .defineGlobal | .declareGlobal => .globals
  | .getElem | .setElem | .neg | .not | .bitNot | .add | .sub | .mul | .div | .mod | .bitAnd
  | .bitOr | .bitXor | .shl | .shr | .eq | .ne | .lt | .le | .gt | .ge => .operators
  | .jump | .jumpIfFalse | .jumpIfTrue | .jumpIfFalseOrPop | .jumpIfTrueOrPop => .jumps

include runs member

variable {below taken : List Value}
  (placed : Placed function listing level cells pc locals (below ++ taken))
  (many : taken.length = instr.needs)

include placed many

/-- Constants are pushed. -/
theorem Runs.goes_constants (constant : family instr.op = .constants) :
    ground.Goes function listing level cells (pc + instr.size) (locals ++ (below ++ taken))
      (execute activation instr) := by
  have inRange := runs.verified.inRange pc instr member
  obtain ⟨op, a, b⟩ := instr
  cases op with
  | nop =>
      obtain rfl : taken = [] := List.eq_nil_of_length_eq_zero many
      exact runs.goes member placed rfl rfl (by simp) rfl fun _ _ => turns_nothing
  | pushUndefined | pushNaN | pushTrue | pushFalse | pushZero | pushInt =>
      obtain rfl : taken = [] := List.eq_nil_of_length_eq_zero many
      exact runs.goes member placed rfl rfl (by simp) rfl fun _ room =>
        turns_pushPlain ⟨rfl, by simp [Value.ofNat]⟩ room
  | pushNumber =>
      obtain rfl : taken = [] := List.eq_nil_of_length_eq_zero many
      exact runs.goes member placed rfl rfl (by simp) rfl fun _ room =>
        turns_pushNumber (inRange.number rfl) room
  | pushString =>
      obtain rfl : taken = [] := List.eq_nil_of_length_eq_zero many
      exact runs.goes member placed rfl rfl (by simp) rfl fun _ room =>
        turns_pushString (inRange.string rfl) room
  | pushFunction =>
      obtain rfl : taken = [] := List.eq_nil_of_length_eq_zero many
      have inside := inRange.function rfl
      have there : activation.program.function? a = some activation.program.functions[a.toNat] :=
        Array.getElem?_eq_getElem inside
      have able := runs.offers there (runs.verified.plain pc _ member rfl _ there)
      exact runs.goes member placed rfl rfl (by simp) rfl fun _ room =>
        turns_pushFunction inside able room
  | _ => cases constant

/-- Operands become an array, an object or a closure. -/
theorem Runs.goes_composites (composite : family instr.op = .composites) :
    ground.Goes function listing level cells (pc + instr.size) (locals ++ (below ++ taken))
      (execute activation instr) := by
  have inRange := runs.verified.inRange pc instr member
  obtain ⟨op, a, b⟩ := instr
  cases op with
  | makeClosure =>
      have inside := inRange.function rfl
      have there : activation.program.function? a = some activation.program.functions[a.toNat] :=
        Array.getElem?_eq_getElem inside
      have able := runs.offers there (runs.verified.closure pc _ member rfl _ there)
      have captured : b.toNat ≤ cells pc := runs.leveled.captured pc _ member rfl
      have many : taken.length = b.toNat := many
      have areCells : ∀ value ∈ taken, value.isCell = true := by
        intro value held
        refine placed.onTop.mono captured value ?_
        rwa [List.length_append, many, Nat.add_sub_cancel, List.drop_left]
      refine runs.goes member placed rfl rfl (by simp) ?_ fun low room =>
        turns_makeClosure low many areCells inside able room
      change (1 : Int) = taken.length + (1 - (b.toNat : Int))
      omega
  | makeArray =>
      have many : taken.length = a.toNat := many
      refine runs.goes member placed rfl rfl (by simp) ?_ fun low room =>
        turns_makeArray low many room
      change (1 : Int) = taken.length + (1 - (a.toNat : Int))
      omega
  | makeObject =>
      have many : taken.length = 2 * a.toNat := many
      refine runs.goes member placed rfl rfl (by simp) ?_ fun low room =>
        turns_makeObject low many room
      change (1 : Int) = taken.length + (1 - 2 * (a.toNat : Int))
      omega
  | _ => cases composite

/-- Operands are dropped or copied. -/
theorem Runs.goes_copies (copy : family instr.op = .copies) :
    ground.Goes function listing level cells (pc + instr.size) (locals ++ (below ++ taken))
      (execute activation instr) := by
  obtain ⟨op, a, b⟩ := instr
  cases op with
  | pop =>
      obtain ⟨value, rfl⟩ := List.length_eq_one_iff.mp many
      exact runs.goes member placed rfl rfl (by simp) rfl fun low _ => turns_pop low
  | dup =>
      obtain ⟨value, rfl⟩ := List.length_eq_one_iff.mp many
      exact runs.goes member placed rfl rfl (by simp) rfl fun low room => turns_dup low room
  | dup2 =>
      obtain ⟨first, second, rfl⟩ := List.length_eq_two.mp many
      exact runs.goes member placed rfl rfl (by simp) rfl fun low room => turns_dup2 low room
  | _ => cases copy

theorem Runs.goes_variables (variable_ : family instr.op = .variables_) :
    ground.Goes function listing level cells (pc + instr.size) (locals ++ (below ++ taken))
      (execute activation instr) := by
  have hosts := (runs.moved (pc + instr.size)).hosts
  have inRange := runs.verified.inRange pc instr member
  obtain ⟨op, a, b⟩ := instr
  cases op with
  | loadLocal =>
      obtain rfl : taken = [] := List.eq_nil_of_length_eq_zero many
      have inside : a.toNat < locals.length := by
        rw [placed.slots]
        exact inRange.variable_ (.inl rfl)
      have there : (locals ++ below)[a.toNat]? = some locals[a.toNat] := by
        rw [List.getElem?_append_left inside, List.getElem?_eq_getElem inside]
      refine runs.goes member placed rfl rfl (by simp) rfl fun _ room =>
        turns_loadLocal hosts ?_ there room
      rw [runs.locals, ← placed.slots]
      exact inside
  | storeLocal =>
      obtain ⟨value, rfl⟩ := List.length_eq_one_iff.mp many
      exact runs.goes_storeLocal member placed rfl
  | loadCell =>
      obtain rfl : taken = [] := List.eq_nil_of_length_eq_zero many
      refine runs.goes member placed rfl rfl (by simp) rfl fun _ room =>
        turns_pushCellValue ?_ room
      rw [List.append_nil] at placed
      exact (runs.moved _).finds_local member placed rfl _
  | storeCell =>
      obtain ⟨value, rfl⟩ := List.length_eq_one_iff.mp many
      refine runs.goes member placed rfl rfl (by simp) rfl fun low _ =>
        turns_storeInCell ?_ low
      rw [List.append_assoc]
      exact (runs.moved _).finds_local member placed rfl _
  | makeCell =>
      obtain rfl : taken = [] := List.eq_nil_of_length_eq_zero many
      exact runs.goes_makeCell member placed rfl
  | pushCell =>
      obtain rfl : taken = [] := List.eq_nil_of_length_eq_zero many
      exact runs.goes_cell member placed rfl rfl (by simp) rfl
        ((runs.moved _).finds_local member placed rfl _)
  | loadUpvalue =>
      obtain rfl : taken = [] := List.eq_nil_of_length_eq_zero many
      exact runs.goes member placed rfl rfl (by simp) rfl fun _ room =>
        turns_pushCellValue ((runs.moved _).finds_upvalue member rfl _) room
  | storeUpvalue =>
      obtain ⟨value, rfl⟩ := List.length_eq_one_iff.mp many
      exact runs.goes member placed rfl rfl (by simp) rfl fun low _ =>
        turns_storeInCell ((runs.moved _).finds_upvalue member rfl _) low
  | pushUpvalue =>
      obtain rfl : taken = [] := List.eq_nil_of_length_eq_zero many
      exact runs.goes_cell member placed rfl rfl (by simp) rfl
        ((runs.moved _).finds_upvalue member rfl _)
  | _ => cases variable_

/-- Globals are read, assigned and declared. -/
theorem Runs.goes_globals (global : family instr.op = .globals) :
    ground.Goes function listing level cells (pc + instr.size) (locals ++ (below ++ taken))
      (execute activation instr) := by
  have inRange := runs.verified.inRange pc instr member
  obtain ⟨op, a, b⟩ := instr
  cases op with
  | loadGlobal =>
      obtain rfl : taken = [] := List.eq_nil_of_length_eq_zero many
      exact runs.goes member placed rfl rfl (by simp) rfl fun _ room =>
        turns_loadGlobal (inRange.string rfl) room
  | storeGlobal =>
      obtain ⟨value, rfl⟩ := List.length_eq_one_iff.mp many
      exact runs.goes member placed rfl rfl (by simp) rfl fun low _ =>
        turns_storeGlobal low (inRange.string rfl)
  | defineGlobal =>
      obtain ⟨value, rfl⟩ := List.length_eq_one_iff.mp many
      exact runs.goes member placed rfl rfl (by simp) rfl fun low _ =>
        turns_defineNamed low (inRange.string rfl)
  | declareGlobal =>
      obtain rfl : taken = [] := List.eq_nil_of_length_eq_zero many
      exact runs.goes member placed rfl rfl (by simp) rfl fun _ _ =>
        turns_declareGlobal (inRange.string rfl)
  | _ => cases global

/-- Operands are combined, and elements looked up and assigned. -/
theorem Runs.goes_operators (operator : family instr.op = .operators) :
    ground.Goes function listing level cells (pc + instr.size) (locals ++ (below ++ taken))
      (execute activation instr) := by
  obtain ⟨op, a, b⟩ := instr
  cases op with
  | getElem =>
      obtain ⟨container, key, rfl⟩ := List.length_eq_two.mp many
      exact runs.goes member placed rfl rfl (by simp) rfl fun low room =>
        turns_pushElement low room
  | setElem =>
      obtain ⟨container, key, value, rfl⟩ := List.length_eq_three.mp many
      exact runs.goes member placed rfl rfl (by simp) rfl fun low room =>
        turns_storeElement low room
  | neg | not | bitNot =>
      obtain ⟨value, rfl⟩ := List.length_eq_one_iff.mp many
      exact runs.goes member placed rfl rfl (by simp) rfl fun low room => turns_unary low room
  | add | sub | mul | div | mod | bitAnd | bitOr | bitXor | shl | shr | eq | ne | lt | le | gt
  | ge =>
      obtain ⟨left, right, rfl⟩ := List.length_eq_two.mp many
      exact runs.goes member placed rfl rfl (by simp) rfl fun low room => turns_binary low room
  | _ => cases operator

/-- Jumps lead to their target or on to the next instruction. -/
theorem Runs.goes_jumps (jumps : family instr.op = .jumps) :
    ground.Goes function listing level cells (pc + instr.size) (locals ++ (below ++ taken))
      (execute activation instr) := by
  obtain ⟨op, a, b⟩ := instr
  cases op with
  | jump =>
      intro env bears
      have moved := bears.setPosition a.toNat
      rw [at_at] at moved
      refine ⟨a.toNat, locals, _, runs.placed_taken member rfl placed ?_, moved⟩
      rw [placed.depth]
      exact (Int.add_zero _).symm
  | jumpIfFalse =>
      obtain ⟨value, rfl⟩ := List.length_eq_one_iff.mp many
      exact runs.goes_jumpIf member placed (.inl rfl)
  | jumpIfTrue =>
      obtain ⟨value, rfl⟩ := List.length_eq_one_iff.mp many
      exact runs.goes_jumpIf member placed (.inr rfl)
  | jumpIfFalseOrPop | jumpIfTrueOrPop =>
      obtain ⟨value, rfl⟩ := List.length_eq_one_iff.mp many
      exact runs.goes_jumpOrPop member placed rfl
  | _ => cases jumps

omit placed many

/-- An instruction of verified code that does not leave its function, and is no call, goes on. -/
theorem Runs.goes_execute (placed : Placed function listing level cells pc locals operands)
    (stays : instr.op.leaves = false) (noCall : instr.op ≠ .call) :
    ground.Goes function listing level cells (pc + instr.size) (locals ++ operands)
      (execute activation instr) := by
  obtain ⟨below, taken, rfl, many⟩ := placed.split (runs.leveled.needs pc instr member)
  cases kind : family instr.op with
  | calls =>
      obtain ⟨op, a, b⟩ := instr
      cases op with
      | call => exact absurd rfl noCall
      | ret | retUndefined => cases stays
      | _ => cases kind
  | constants => exact runs.goes_constants member placed many kind
  | composites => exact runs.goes_composites member placed many kind
  | copies => exact runs.goes_copies member placed many kind
  | variables_ => exact runs.goes_variables member placed many kind
  | globals => exact runs.goes_globals member placed many kind
  | operators => exact runs.goes_operators member placed many kind
  | jumps => exact runs.goes_jumps member placed many kind

end Ground

end Environment

end PocketScript
