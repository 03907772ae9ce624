import PocketScript.Proofs.Code.Operands
import PocketScript.Proofs.Code.Listing
import PocketScript.Proofs.Compile.Expressions

/-!
# Operand depths of compiled code

A single pass over the collected instructions, which never follows a jump, gives every one of them
an operand depth (`CompleteCode.level`). In compiled code these depths are the ones at which the
instructions run: each finds the operands it needs, and a jump arrives at the depth of its target
(`CompleteCode.Sound`). Expressions raise the depth by one and statements keep it at zero, so this
follows from the shape of the code.
-/

namespace PocketScript

namespace Opcode

/-- The next instruction follows always, and neither cells nor closures are involved. -/
def isOrdinary (op : Opcode) : Bool :=
  op.goesOn && !op.isJump && !op.pushesCell && op != .makeClosure

theorem isOrdinary_iff {op : Opcode} : op.isOrdinary = true ↔
    op.goesOn = true ∧ op.isJump = false ∧ op.pushesCell = false ∧ op ≠ .makeClosure := by
  unfold isOrdinary
  simp only [Bool.and_eq_true, Bool.not_eq_true', bne_iff_ne, and_assoc]

end Opcode

namespace PendingInstruction

/-- The instruction without its target. -/
def bare (instr : PendingInstruction) : Instruction :=
  ⟨instr.op, instr.a, instr.b⟩

/-- The depth behind an instruction. Behind a jump and behind a return, control arrives from
elsewhere; the compiler puts there what runs with one operand less, or with none. -/
def levelAfter (level : Nat) (instr : PendingInstruction) : Nat :=
  if instr.op.goesOn then (level + instr.bare.effect).toNat else level - 1

/-- The number of cells on top behind an instruction. -/
def cellsAfter (cells : Nat) (instr : PendingInstruction) : Nat :=
  if instr.op.pushesCell then cells + 1 else 0

end PendingInstruction

namespace CompleteCode

/-- The operand depth at an index. -/
def level (code : CompleteCode) (index : Nat) : Nat :=
  (code.assembler.pending.toList.take index).foldl PendingInstruction.levelAfter 0

/-- The number of operands on top that are known to be cells. -/
def cells (code : CompleteCode) (index : Nat) : Nat :=
  (code.assembler.pending.toList.take index).foldl PendingInstruction.cellsAfter 0

variable {code : CompleteCode} {last index start middle stop depth : Nat}

/-- One more item is one more step. -/
theorem foldl_take_succ {α β : Type} {items : List α} {index : Nat} {item : α}
    (found : items[index]? = some item) (step : β → α → β) (first : β) :
    (items.take (index + 1)).foldl step first =
      step ((items.take index).foldl step first) item := by
  rw [List.take_add_one, found, Option.toList_some, List.foldl_append]
  rfl

/-- The depth behind an instruction depends on the depth in front of it. -/
theorem level_succ {instr : PendingInstruction}
    (found : code.assembler.pending[index]? = some instr) :
    code.level (index + 1) = instr.levelAfter (code.level index) :=
  foldl_take_succ ((Array.getElem?_toList ..).trans found) _ _

/-- And so does the number of cells on top. -/
theorem cells_succ {instr : PendingInstruction}
    (found : code.assembler.pending[index]? = some instr) :
    code.cells (index + 1) = instr.cellsAfter (code.cells index) :=
  foldl_take_succ ((Array.getElem?_toList ..).trans found) _ _

/-- So many operands, none of which has to be a cell, are on the stack at an index. -/
def Stands (code : CompleteCode) (index depth : Nat) : Prop :=
  code.level index = depth ∧ code.cells index = 0

/-- A label stands in front of an instruction, `last` at most, that runs at a depth. -/
def Leads (code : CompleteCode) (last : Nat) (label : Label) (depth : Nat) : Prop :=
  ∃ target, code.Places label target ∧ target ≤ last ∧ code.Stands target depth

/-- The instruction at an index can run at its depth, and if it jumps then to an instruction, `last`
at most, at the depth that this one runs at. -/
structure Sound (code : CompleteCode) (last index : Nat) (instr : PendingInstruction) :
    Prop where
  proper : instr.IsProper
  needs : instr.bare.needs ≤ code.level index
  room : code.level index ≤ code.assembler.maxDepth.toNat
  taken : ∀ label, instr.target = some label → ∃ depth : Nat,
    (depth : Int) = code.level index + instr.bare.takenEffect ∧ code.Leads last label depth
  /-- Cells are pushed for a closure only, and nothing else comes in between. -/
  gathers : code.cells index = 0 ∨ instr.op.pushesCell = true ∨ instr.op = .makeClosure
  captured : instr.op = .makeClosure → instr.b.toNat = code.cells index

/-- All instructions of a stretch are sound. -/
def SoundBetween (code : CompleteCode) (last start stop : Nat) : Prop :=
  ∀ index, start ≤ index → index < stop → ∃ instr,
    code.assembler.pending[index]? = some instr ∧ code.Sound last index instr

/-- An empty stretch is sound. -/
theorem SoundBetween.nil : code.SoundBetween last start start := by
  intro index above below
  omega

/-- And two sound stretches make one. -/
theorem SoundBetween.append (first : code.SoundBetween last start middle)
    (second : code.SoundBetween last middle stop) : code.SoundBetween last start stop := by
  intro index above below
  by_cases before : index < middle
  · exact first index above before
  · exact second index (by omega) below

theorem SoundBetween.single {instr : PendingInstruction}
    (found : code.assembler.pending[index]? = some instr)
    (sound : code.Sound last index instr) : code.SoundBetween last index (index + 1) := by
  intro other above below
  obtain rfl : other = index := by omega
  exact ⟨instr, found, sound⟩

/-- A sound stretch leads to a depth. -/
structure Passes (code : CompleteCode) (last start stop depth : Nat) : Prop where
  stands : code.Stands stop depth
  sound : code.SoundBetween last start stop

/-- Nothing has to be passed. -/
theorem Passes.nil (stands : code.Stands start depth) : code.Passes last start start depth :=
  ⟨stands, .nil⟩

/-- One may pass two stretches in a row. -/
theorem Passes.append {between : Nat} (first : code.Passes last start middle between)
    (second : code.Passes last middle stop depth) : code.Passes last start stop depth :=
  ⟨second.stands, first.sound.append second.sound⟩

theorem HasRoom.le (room : code.HasRoom depth) : depth ≤ code.assembler.maxDepth.toNat := by
  unfold HasRoom at room
  omega

/-! ## Single instructions -/

variable {op : Opcode} {a b : UInt16} {label : Label}

theorem Holds.sound (holds : code.Holds index op a b) (noJump : op.isJump = false)
    (canonical : (⟨op, a, b⟩ : Instruction).IsCanonical)
    (needs : (⟨op, a, b⟩ : Instruction).needs ≤ code.level index)
    (room : code.level index ≤ code.assembler.maxDepth.toNat)
    (gathers : code.cells index = 0 ∨ op.pushesCell = true ∨ op = .makeClosure)
    (captured : op = .makeClosure → b.toNat = code.cells index) :
    code.SoundBetween last index (index + 1) := by
  refine .single holds ⟨⟨⟨fun jump => ?_, fun some => ?_⟩, canonical⟩, needs, room,
    fun _ some => ?_, gathers, captured⟩
  · rw [noJump] at jump
    cases jump
  · cases some
  · cases some

/-- An ordinary instruction that finds its operands. -/
theorem Holds.passes {after : Nat} (holds : code.Holds index op a b)
    (ordinary : op.isOrdinary = true)
    (canonical : (⟨op, a, b⟩ : Instruction).IsCanonical) (stands : code.Stands index depth)
    (needs : (⟨op, a, b⟩ : Instruction).needs ≤ depth)
    (room : depth ≤ code.assembler.maxDepth.toNat)
    (effect : (after : Int) = depth + (⟨op, a, b⟩ : Instruction).effect) :
    code.Passes last index (index + 1) after := by
  obtain ⟨goesOn, noJump, noCell, noClosure⟩ := Opcode.isOrdinary_iff.mp ordinary
  obtain ⟨rfl, none⟩ := stands
  refine ⟨⟨?_, ?_⟩, holds.sound noJump canonical needs room (.inl none) fun closure =>
    absurd closure noClosure⟩
  · rw [level_succ holds, PendingInstruction.levelAfter, if_pos goesOn]
    change (code.level index + (⟨op, a, b⟩ : Instruction).effect).toNat = after
    rw [← effect, Int.toNat_natCast]
  · rw [cells_succ holds, PendingInstruction.cellsAfter, if_neg (by rw [noCell]; decide)]

/-- An instruction that ends the function. -/
theorem Holds.leaves (holds : code.Holds index op) (leaves : op.leaves = true)
    (stands : code.Stands index depth) (needs : (⟨op, 0, 0⟩ : Instruction).needs ≤ depth)
    (room : depth ≤ code.assembler.maxDepth.toNat) :
    code.Passes last index (index + 1) (depth - 1) := by
  obtain ⟨rfl, none⟩ := stands
  obtain ⟨goesOn, noCell, noJump, noClosure⟩ : op.goesOn = false ∧ op.pushesCell = false ∧
      op.isJump = false ∧ op ≠ .makeClosure := by
    cases op <;> first | decide | cases leaves
  refine ⟨⟨?_, ?_⟩, holds.sound noJump ⟨fun _ => rfl, fun _ => rfl⟩ needs room (.inl none)
    fun closure => absurd closure noClosure⟩
  · rw [level_succ holds, PendingInstruction.levelAfter, if_neg (by rw [goesOn]; decide)]
  · rw [cells_succ holds, PendingInstruction.cellsAfter, if_neg (by rw [noCell]; decide)]

theorem JumpsTo.sound {afterJump : Nat} (jumps : code.JumpsTo index op label)
    (jump : op.isJump = true) (none : code.cells index = 0)
    (needs : (⟨op, 0, 0⟩ : Instruction).needs ≤ code.level index)
    (room : code.level index ≤ code.assembler.maxDepth.toNat)
    (taken : (afterJump : Int) = code.level index + (⟨op, 0, 0⟩ : Instruction).takenEffect)
    (leads : code.Leads last label afterJump) : code.SoundBetween last index (index + 1) := by
  refine .single jumps ⟨⟨⟨fun _ => rfl, fun _ => jump⟩, fun _ => rfl, fun _ => rfl⟩, needs, room,
    fun other target => ?_, .inl none, fun closure => ?_⟩
  · cases target
    exact ⟨afterJump, taken, leads⟩
  · change op = .makeClosure at closure
    rw [closure] at jump
    cases jump

/-- A jump that looks at an operand first. -/
theorem JumpsTo.passes {afterJump : Nat} (jumps : code.JumpsTo index op label)
    (jump : op.isJump = true) (goesOn : op.goesOn = true) (stands : code.Stands index (depth + 1))
    (room : code.HasRoom (depth + 1))
    (taken : (afterJump : Int) = (depth + 1 : Nat) + (⟨op, 0, 0⟩ : Instruction).takenEffect) :
    code.Stands (index + 1) depth ∧
      (code.Leads last label afterJump → code.SoundBetween last index (index + 1)) := by
  obtain ⟨level, none⟩ := stands
  obtain ⟨noCell, needs, effect⟩ : op.pushesCell = false ∧ (⟨op, 0, 0⟩ : Instruction).needs ≤ 1 ∧
      (⟨op, 0, 0⟩ : Instruction).effect = -1 := by
    revert jump goesOn
    cases op <;> decide
  refine ⟨⟨?_, ?_⟩, fun leads => jumps.sound jump none ?_ ?_ ?_ leads⟩
  · rw [level_succ jumps, PendingInstruction.levelAfter, if_pos goesOn, level]
    change (((depth + 1 : Nat) : Int) + (⟨op, 0, 0⟩ : Instruction).effect).toNat = depth
    rw [effect]
    omega
  · rw [cells_succ jumps, PendingInstruction.cellsAfter, if_neg (by rw [noCell]; decide)]
  · omega
  · rw [level]
    exact room.le
  · rw [level]
    exact taken

/-- A jump that is always taken. -/
theorem JumpsTo.leaves (jumps : code.JumpsTo index .jump label) (stands : code.Stands index depth)
    (room : depth ≤ code.assembler.maxDepth.toNat) :
    code.Stands (index + 1) (depth - 1) ∧
      (code.Leads last label depth → code.SoundBetween last index (index + 1)) := by
  obtain ⟨rfl, none⟩ := stands
  exact ⟨⟨level_succ jumps, cells_succ jumps⟩, fun leads =>
    jumps.sound rfl none (Nat.zero_le _) room (Int.add_zero _).symm leads⟩

/-! ## Expressions -/

section

variable (op : Opcode) (a : UInt16)

theorem canonical_of_arity_one (one : op.arity = 1) : (⟨op, a, 0⟩ : Instruction).IsCanonical := by
  refine ⟨fun none => ?_, fun _ => rfl⟩
  rw [one] at none
  cases none

theorem canonical_plain : (⟨op, 0, 0⟩ : Instruction).IsCanonical := ⟨fun _ => rfl, fun _ => rfl⟩

end

/-- An instruction that pushes an operand. -/
theorem Holds.pushes (holds : code.Holds index op a) (ordinary : op.isOrdinary = true)
    (arity : op.arity = 1 ∨ a = 0) (needs : (⟨op, a, 0⟩ : Instruction).needs = 0)
    (effect : (⟨op, a, 0⟩ : Instruction).effect = 1) (stands : code.Stands index depth)
    (room : code.HasRoom (depth + 1)) : code.Passes last index (index + 1) (depth + 1) := by
  have canonical : (⟨op, a, 0⟩ : Instruction).IsCanonical := by
    obtain one | rfl := arity
    · exact canonical_of_arity_one op a one
    · exact canonical_plain op
  refine holds.passes ordinary canonical stands ?_ (room.mono (Nat.le_succ depth)).le ?_
  · rw [needs]
    exact Nat.zero_le _
  · rw [effect]
    rfl

/-- To load a name takes one operand more. -/
theorem LoadAt.passes {place : Place} {name : String} (loads : code.LoadAt place name index)
    (stands : code.Stands index depth) (room : code.HasRoom (depth + 1)) :
    code.Passes last index (index + 1) (depth + 1) := by
  cases place with
  | slot slot => exact Holds.pushes loads rfl (.inl rfl) rfl rfl stands room
  | capture capture => exact Holds.pushes loads rfl (.inl rfl) rfl rfl stands room
  | global =>
      obtain ⟨constant, holds, -⟩ := loads
      exact holds.pushes rfl (.inl rfl) rfl rfl stands room

/-- To store it leaves the operand. -/
theorem StoreAt.passes {place : Place} {name : String} (stores : code.StoreAt place name index)
    (stands : code.Stands index (depth + 1)) (room : code.HasRoom (depth + 1)) :
    code.Passes last index (index + 1) (depth + 1) := by
  have needs : 1 ≤ depth + 1 := Nat.le_add_left _ _
  cases place with
  | slot slot =>
      exact Holds.passes stores rfl (canonical_of_arity_one _ _ rfl) stands needs room.le
        (Int.add_zero _).symm
  | capture capture =>
      exact Holds.passes stores rfl (canonical_of_arity_one _ _ rfl) stands needs room.le
        (Int.add_zero _).symm
  | global =>
      obtain ⟨constant, holds, -⟩ := stores
      exact holds.passes rfl (canonical_of_arity_one _ _ rfl) stands needs room.le
        (Int.add_zero _).symm

/-- A unary operation leaves as many operands. -/
theorem unary_passes {unary : UnaryOp} (holds : code.Holds index unary.opcode)
    (stands : code.Stands index (depth + 1)) (room : code.HasRoom (depth + 1)) :
    code.Passes last index (index + 1) (depth + 1) := by
  obtain ⟨ordinary, needs, effect⟩ : unary.opcode.isOrdinary = true ∧
      (⟨unary.opcode, 0, 0⟩ : Instruction).needs = 1 ∧
        (⟨unary.opcode, 0, 0⟩ : Instruction).effect = 0 := by
    cases unary <;> decide
  refine holds.passes ordinary (canonical_plain _) stands (by omega) room.le ?_
  rw [effect, Int.add_zero]

/-- A binary operation leaves one operand less. -/
theorem binary_passes {binary : BinaryOp} (holds : code.Holds index binary.opcode)
    (stands : code.Stands index (depth + 2)) (room : code.HasRoom (depth + 2)) :
    code.Passes last index (index + 1) (depth + 1) := by
  obtain ⟨ordinary, needs, effect⟩ : binary.opcode.isOrdinary = true ∧
      (⟨binary.opcode, 0, 0⟩ : Instruction).needs = 2 ∧
        (⟨binary.opcode, 0, 0⟩ : Instruction).effect = -1 := by
    cases binary <;> decide
  refine holds.passes ordinary (canonical_plain _) stands (by omega) room.le ?_
  rw [effect]
  omega

theorem getElem_passes (holds : code.Holds index .getElem) (stands : code.Stands index (depth + 2))
    (room : code.HasRoom (depth + 2)) : code.Passes last index (index + 1) (depth + 1) := by
  refine holds.passes rfl (canonical_plain _) stands (Nat.le_add_left 2 _) room.le ?_
  change ((depth + 1 : Nat) : Int) = (depth + 2 : Nat) + -1
  omega

theorem setElem_passes (holds : code.Holds index .setElem) (stands : code.Stands index (depth + 3))
    (room : code.HasRoom (depth + 3)) : code.Passes last index (index + 1) (depth + 1) := by
  refine holds.passes rfl (canonical_plain _) stands (Nat.le_add_left 3 _) room.le ?_
  change ((depth + 1 : Nat) : Int) = (depth + 3 : Nat) + -2
  omega

theorem oldElement_passes (copies : code.Holds index .dup2) (reads : code.Holds (index + 1) .getElem)
    (stands : code.Stands index (depth + 2)) (room : code.HasRoom (depth + 4)) :
    code.Passes last index (index + 2) (depth + 3) := by
  have copied : code.Passes last index (index + 1) (depth + 2 + 2) :=
    copies.passes rfl (canonical_plain _) stands (Nat.le_add_left 2 _)
      (room.mono (Nat.le_add_right _ 2)).le
      (show ((depth + 4 : Nat) : Int) = (depth + 2 : Nat) + 2 by omega)
  exact copied.append (getElem_passes reads copied.stands room)

theorem logical_passes {logical : LogicalOp} {target : Nat}
    (jumps : code.Jumps index logical.jump target) (stands : code.Stands index (depth + 1))
    (room : code.HasRoom (depth + 1)) : code.Stands (index + 1) depth ∧
      (target ≤ last → code.Stands target (depth + 1) →
        code.SoundBetween last index (index + 1)) := by
  obtain ⟨label, jumpsTo, places⟩ := jumps
  obtain ⟨jump, goesOn, effect⟩ : logical.jump.isJump = true ∧ logical.jump.goesOn = true ∧
      (⟨logical.jump, 0, 0⟩ : Instruction).takenEffect = 0 := by
    cases logical <;> decide
  have taken : ((depth + 1 : Nat) : Int) =
      (depth + 1 : Nat) + (⟨logical.jump, 0, 0⟩ : Instruction).takenEffect := by
    rw [effect, Int.add_zero]
  obtain ⟨next, sound⟩ := jumpsTo.passes jump goesOn stands room taken
  exact ⟨next, fun inside there => sound ⟨target, places, inside, there⟩⟩

/-- A test drops its operand wherever control goes on. -/
theorem Jumps.tests {target : Nat} (jumps : code.Jumps index .jumpIfFalse target)
    (stands : code.Stands index (depth + 1)) (room : code.HasRoom (depth + 1)) :
    code.Stands (index + 1) depth ∧
      (target ≤ last → code.Stands target depth → code.SoundBetween last index (index + 1)) := by
  obtain ⟨label, jumpsTo, places⟩ := jumps
  have taken : (depth : Int) =
      (depth + 1 : Nat) + (⟨.jumpIfFalse, 0, 0⟩ : Instruction).takenEffect := by
    change (depth : Int) = (depth + 1 : Nat) + -1
    omega
  obtain ⟨next, sound⟩ := jumpsTo.passes rfl rfl stands room taken
  exact ⟨next, fun inside there => sound ⟨target, places, inside, there⟩⟩

theorem Jumps.leaves {target : Nat} (jumps : code.Jumps index .jump target)
    (stands : code.Stands index depth) (room : depth ≤ code.assembler.maxDepth.toNat) :
    code.Stands (index + 1) (depth - 1) ∧
      (target ≤ last → code.Stands target depth → code.SoundBetween last index (index + 1)) := by
  obtain ⟨label, jumpsTo, places⟩ := jumps
  obtain ⟨next, sound⟩ := jumpsTo.leaves stands room
  exact ⟨next, fun inside there => sound ⟨target, places, inside, there⟩⟩

/-- Pushing cells raises the depth and the number of cells on top. -/
theorem cells_pushed {count : Nat} (stands : code.Stands start depth)
    (room : depth + count ≤ code.assembler.maxDepth.toNat)
    (pushes : ∀ position < count, ∃ op capture, code.Holds (start + position) op capture ∧
      (op = .pushCell ∨ op = .pushUpvalue)) :
    code.level (start + count) = depth + count ∧ code.cells (start + count) = count ∧
      code.SoundBetween last start (start + count) := by
  induction count with
  | zero => exact ⟨stands.1, stands.2, .nil⟩
  | succ count ih =>
      obtain ⟨level, cells, sound⟩ :=
        ih (by omega) fun position below => pushes position (by omega)
      obtain ⟨op, capture, holds, which⟩ := pushes count (Nat.lt_succ_self count)
      obtain ⟨goesOn, noJump, pushesCell, noClosure, arity⟩ : op.goesOn = true ∧
          op.isJump = false ∧ op.pushesCell = true ∧ op ≠ .makeClosure ∧ op.arity = 1 := by
        obtain rfl | rfl := which <;> decide
      have none : (⟨op, capture, 0⟩ : Instruction).needs = 0 := by obtain rfl | rfl := which <;> rfl
      have one : (⟨op, capture, 0⟩ : Instruction).effect = 1 := by obtain rfl | rfl := which <;> rfl
      have here : code.SoundBetween last (start + count) (start + count + 1) := by
        refine holds.sound noJump (canonical_of_arity_one op capture arity) ?_ ?_
          (.inr (.inl pushesCell)) fun closure => absurd closure noClosure
        · rw [none]
          exact Nat.zero_le _
        · omega
      refine ⟨?_, ?_, sound.append here⟩
      · rw [← Nat.add_assoc, level_succ holds, PendingInstruction.levelAfter, if_pos goesOn, level]
        change (((depth + count : Nat) : Int) + (⟨op, capture, 0⟩ : Instruction).effect).toNat = _
        rw [one]
        omega
      · rw [← Nat.add_assoc, cells_succ holds, PendingInstruction.cellsAfter, if_pos pushesCell,
          cells]

theorem call_passes {count : Nat} (few : count ≤ 65535)
    (holds : code.Holds index .call (UInt16.ofNat count))
    (stands : code.Stands index (depth + 1 + count))
    (room : depth + 1 + count ≤ code.assembler.maxDepth.toNat) :
    code.Passes last index (index + 1) (depth + 1) := by
  have small := toNat_ofNat_of_le few
  have needs : (⟨.call, UInt16.ofNat count, 0⟩ : Instruction).needs = count + 1 :=
    congrArg (· + 1) small
  have effect : (⟨.call, UInt16.ofNat count, 0⟩ : Instruction).effect = -count :=
    congrArg (fun number : Nat => -(number : Int)) small
  refine holds.passes rfl (canonical_of_arity_one _ _ rfl) stands ?_ room ?_
  · rw [needs]
    omega
  · rw [effect]
    omega

/-- An array comes in the place of its elements. -/
theorem array_passes {count : Nat} (few : count ≤ 65535)
    (holds : code.Holds index .makeArray (UInt16.ofNat count))
    (stands : code.Stands index (depth + count))
    (room : depth + count ≤ code.assembler.maxDepth.toNat) :
    code.Passes last index (index + 1) (depth + 1) := by
  have small := toNat_ofNat_of_le few
  have needs : (⟨.makeArray, UInt16.ofNat count, 0⟩ : Instruction).needs = count := small
  have effect : (⟨.makeArray, UInt16.ofNat count, 0⟩ : Instruction).effect = 1 - count :=
    congrArg (fun number : Nat => 1 - (number : Int)) small
  refine holds.passes rfl (canonical_of_arity_one _ _ rfl) stands ?_ room ?_
  · rw [needs]
    omega
  · rw [effect]
    omega

/-- An object comes in the place of its keys and values. -/
theorem object_passes {count : Nat} (few : count ≤ 32767)
    (holds : code.Holds index .makeObject (UInt16.ofNat count))
    (stands : code.Stands index (depth + 2 * count))
    (room : depth + 2 * count ≤ code.assembler.maxDepth.toNat) :
    code.Passes last index (index + 1) (depth + 1) := by
  have small : (UInt16.ofNat count).toNat = count :=
    toNat_ofNat_of_le (Nat.le_trans few (by decide))
  have needs : (⟨.makeObject, UInt16.ofNat count, 0⟩ : Instruction).needs = 2 * count :=
    congrArg (2 * ·) small
  have effect : (⟨.makeObject, UInt16.ofNat count, 0⟩ : Instruction).effect = 1 - 2 * count :=
    congrArg (fun number : Nat => 1 - 2 * (number : Int)) small
  refine holds.passes rfl (canonical_of_arity_one _ _ rfl) stands ?_ room ?_
  · rw [needs]
    omega
  · rw [effect]
    omega

theorem FunctionAt.passes (function : code.FunctionAt depth start stop)
    (stands : code.Stands start depth) : code.Passes last start stop (depth + 1) := by
  cases function with
  | plain holds room => exact holds.pushes rfl (.inl rfl) rfl rfl stands room
  | @closure index count few pushes holds roomCells room =>
      obtain ⟨level, cells, sound⟩ := cells_pushed stands roomCells.le pushes
      have size := toNat_ofNat_of_le few
      have needs : (⟨.makeClosure, index, UInt16.ofNat count⟩ : Instruction).needs = count := size
      refine ⟨⟨?_, cells_succ holds⟩, sound.append (holds.sound rfl ?_ ?_ ?_ (.inr (.inr rfl)) ?_)⟩
      · rw [level_succ holds, level]
        change (((depth + count : Nat) : Int) + (1 - ((UInt16.ofNat count).toNat : Int))).toNat = _
        rw [size]
        omega
      · exact ⟨fun none => (by cases none), fun few => (by cases few with | step few => cases few)⟩
      · rw [needs, level]
        exact Nat.le_add_left _ _
      · rw [level]
        exact roomCells.le
      · intro _
        exact size.trans cells.symm

mutual

/-- The code of an expression is sound and raises the depth by one. -/
theorem ExprAt.passes {depth start stop : Nat} {tree : Expr}
    (layout : code.ExprAt depth tree start stop) (stands : code.Stands start depth)
    (inside : stop ≤ last) : code.Passes last start stop (depth + 1) := by
  cases layout with
  | literal holds room =>
      rename_i value
      cases value <;> exact holds.pushes rfl (.inr rfl) rfl rfl stands room
  | zero holds room => exact holds.pushes rfl (.inr rfl) rfl rfl stands room
  | small _ holds room => exact holds.pushes rfl (.inl rfl) rfl rfl stands room
  | number holds _ room => exact holds.pushes rfl (.inl rfl) rfl rfl stands room
  | string holds _ room => exact holds.pushes rfl (.inl rfl) rfl rfl stands room
  | name _ loads room => exact loads.passes stands room
  | unary operand holds =>
      have inner := operand.passes stands (by omega)
      exact inner.append (unary_passes holds inner.stands operand.bounds.2.2)
  | binary left right holds =>
      have bounds := right.bounds
      have one := left.passes stands (by omega)
      have two := right.passes one.stands (by omega)
      exact (one.append two).append (binary_passes holds two.stands bounds.2.2)
  | logical left jumps right =>
      have bounds := right.bounds
      have one := left.passes stands (by omega)
      obtain ⟨next, sound⟩ := logical_passes jumps one.stands left.bounds.2.2
      have two := right.passes next inside
      exact ⟨two.stands, (one.sound.append (sound inside two.stands)).append two.sound⟩
  | conditional condition tests whenTrue jumps whenFalse =>
      have first := whenTrue.bounds
      have second := whenFalse.bounds
      have one := condition.passes stands (by omega)
      obtain ⟨next, test⟩ := tests.tests one.stands condition.bounds.2.2
      have two := whenTrue.passes next (by omega)
      obtain ⟨other, jump⟩ := jumps.leaves two.stands first.2.2.le
      have three := whenFalse.passes other inside
      exact ⟨three.stands, (((one.sound.append (test (by omega) other)).append two.sound).append
        (jump inside three.stands)).append three.sound⟩
  | assignName _ value stores =>
      have inner := value.passes stands (by omega)
      exact inner.append (stores.passes inner.stands value.bounds.2.2)
  | updateName _ loads room value holds stores =>
      have bounds := value.bounds
      have one : code.Passes last _ _ _ := loads.passes stands room
      have two := value.passes one.stands (by omega)
      have three : code.Passes last _ _ _ := binary_passes holds two.stands bounds.2.2
      exact ((one.append two).append three).append (stores.passes three.stands room)
  | element container key holds =>
      have bounds := key.bounds
      have one := container.passes stands (by omega)
      have two := key.passes one.stands (by omega)
      exact (one.append two).append (getElem_passes holds two.stands bounds.2.2)
  | assignElement container key value holds =>
      have first := key.bounds
      have second := value.bounds
      have one := container.passes stands (by omega)
      have two := key.passes one.stands (by omega)
      have three := value.passes two.stands (by omega)
      exact ((one.append two).append three).append (setElem_passes holds three.stands second.2.2)
  | updateElement container key copies room reads value holds stores =>
      have first := key.bounds
      have second := value.bounds
      have one := container.passes stands (by omega)
      have two := key.passes one.stands (by omega)
      have three : code.Passes last _ _ _ := oldElement_passes copies reads two.stands room
      have four := value.passes three.stands (by omega)
      have five : code.Passes last _ _ _ := binary_passes holds four.stands second.2.2
      exact ((((one.append two).append three).append four).append five).append
        (setElem_passes stores five.stands (room.mono (Nat.le_succ _)))
  | call callee inner few holds =>
      have bounds := inner.bounds
      have one := callee.passes stands (by omega)
      obtain ⟨two, room⟩ := inner.passes one.stands (by omega) callee.bounds.2.2.le
      exact (one.append two).append (call_passes few holds two.stands room)
  | array items few holds room =>
      obtain ⟨inner, full⟩ :=
        items.passes stands (by omega) (room.mono (Nat.le_succ depth)).le
      exact inner.append (array_passes few holds inner.stands full)
  | object members few holds room =>
      obtain ⟨inner, full⟩ :=
        members.passes stands (by omega) (room.mono (Nat.le_succ depth)).le
      exact inner.append (object_passes few holds inner.stands full)
  | function body => exact body.passes stands

/-- Expressions in a row leave an operand each. -/
theorem ExprsAt.passes {depth start stop : Nat} {trees : List Expr}
    (layout : code.ExprsAt depth trees start stop) (stands : code.Stands start depth)
    (inside : stop ≤ last) (room : depth ≤ code.assembler.maxDepth.toNat) :
    code.Passes last start stop (depth + trees.length) ∧
      depth + trees.length ≤ code.assembler.maxDepth.toNat := by
  cases layout with
  | nil => exact ⟨.nil stands, room⟩
  | cons first rest =>
      have bounds := rest.bounds
      have one := first.passes stands (by omega)
      obtain ⟨others, room⟩ := rest.passes one.stands inside first.bounds.2.2.le
      rw [Nat.add_right_comm] at others room
      exact ⟨one.append others, room⟩

/-- Properties leave two operands each. -/
theorem EntriesAt.passes {depth start stop : Nat} {entries : List Entry}
    (layout : code.EntriesAt depth entries start stop) (stands : code.Stands start depth)
    (inside : stop ≤ last) (room : depth ≤ code.assembler.maxDepth.toNat) :
    code.Passes last start stop (depth + 2 * entries.length) ∧
      depth + 2 * entries.length ≤ code.assembler.maxDepth.toNat := by
  cases layout with
  | nil => exact ⟨.nil stands, room⟩
  | cons holds _ value rest =>
      have bounds := rest.bounds
      have room := value.bounds.2.2
      have one : code.Passes last _ _ _ :=
        holds.pushes rfl (.inl rfl) rfl rfl stands (room.mono (Nat.le_succ _))
      have two := value.passes one.stands (by omega)
      obtain ⟨others, room⟩ := rest.passes two.stands inside room.le
      rw [List.length_cons, Nat.mul_succ, ← Nat.add_assoc, Nat.add_right_comm]
      exact ⟨(one.append two).append others, room⟩

end

/-! ## Statements -/

/-- Where a value goes there is one operand less. -/
theorem SinkAt.passes {sink : Sink} (sinks : code.SinkAt sink index stop)
    (stands : code.Stands index 1) (room : code.HasRoom 1) : code.Passes last index stop 0 := by
  cases sink with
  | drop =>
      obtain ⟨rfl, pops⟩ := sinks
      exact pops.passes rfl (canonical_plain _) stands (Nat.le_refl _) room.le rfl
  | slot slot =>
      obtain ⟨rfl, stores, pops⟩ := sinks
      have stored : code.Passes last index (index + 1) 1 :=
        stores.passes rfl (canonical_of_arity_one _ _ rfl) stands (Nat.le_refl _) room.le rfl
      exact stored.append
        (pops.passes rfl (canonical_plain _) stored.stands (Nat.le_refl _) room.le rfl)
  | global name =>
      obtain ⟨rfl, defines⟩ := sinks
      exact defines.passes rfl (canonical_of_arity_one _ _ rfl) stands (Nat.le_refl _) room.le rfl

/-- It takes at least one instruction. -/
theorem SinkAt.bounds {sink : Sink} (sinks : code.SinkAt sink index stop) : index < stop := by
  cases sink with
  | drop =>
      obtain ⟨rfl, -⟩ := sinks
      omega
  | slot slot =>
      obtain ⟨rfl, -⟩ := sinks
      omega
  | global name =>
      obtain ⟨rfl, -⟩ := sinks
      omega

theorem DeclaratorAt.bounds {tree : Declarator} {flow : Flow}
    (layout : code.DeclaratorAt tree flow start stop) : start ≤ stop := by
  cases layout with
  | empty => exact Nat.le_refl _
  | declared => exact Nat.le_succ _
  | value inner sinks =>
      have first := inner.bounds
      have second := sinks.bounds
      omega

theorem DeclaratorsAt.bounds {trees : List Declarator} {flow : Flow}
    (layout : code.DeclaratorsAt trees flow start stop) : start ≤ stop := by
  induction layout with
  | nil => exact Nat.le_refl _
  | cons first _ rest => exact Nat.le_trans first.bounds rest

theorem ForStartAt.bounds {tree : ForStart} {flow : Flow}
    (layout : code.ForStartAt tree flow start stop) : start ≤ stop := by
  cases layout with
  | nothing => exact Nat.le_refl _
  | declare names => exact names.bounds
  | evaluate inner =>
      have bounds := inner.bounds
      omega

theorem TestAt.bounds {done : Nat} {tree : Option Expr} {test : Option Stretch}
    (layout : code.TestAt done tree test start stop) : start ≤ stop := by
  cases layout with
  | none => exact Nat.le_refl _
  | some condition =>
      have bounds := condition.bounds
      omega

theorem StepAt.bounds {test next : Nat} {tree : Option Expr} {clause : Option Stretch}
    (layout : code.StepAt test tree clause next start stop) : start ≤ stop := by
  cases layout with
  | none => exact Nat.le_refl _
  | some _ step =>
      have bounds := step.bounds
      omega

mutual

theorem StmtAt.bounds {loops : List LoopLabels} {tree : Stmt} {flow : Flow} {start stop : Nat}
    (layout : code.StmtAt loops tree flow start stop) : start ≤ stop := by
  cases layout with
  | expression value sinks =>
      have first := value.bounds
      have second := sinks.bounds
      omega
  | declare names => exact names.bounds
  | define function sinks =>
      have first := function.bounds
      have second := sinks.bounds
      omega
  | branch condition _ whenTrue =>
      have first := condition.bounds
      have second := whenTrue.bounds
      omega
  | branchElse condition _ whenTrue _ whenFalse =>
      have first := condition.bounds
      have second := whenTrue.bounds
      have third := whenFalse.bounds
      omega
  | whileLoop condition _ _ _ body =>
      have first := condition.bounds
      have second := body.bounds
      omega
  | forLoop begin test step _ _ body =>
      have first := begin.bounds
      have second := test.bounds
      have third := step.bounds
      have fourth := body.bounds
      omega
  | breakLoop => exact Nat.le_succ _
  | continueLoop => exact Nat.le_succ _
  | returnNothing => exact Nat.le_succ _
  | return_ value =>
      have bounds := value.bounds
      omega
  | block body => exact body.bounds

theorem StmtsAt.bounds {loops : List LoopLabels} {trees : List Stmt} {flow : Flow}
    {start stop : Nat} (layout : code.StmtsAt loops trees flow start stop) : start ≤ stop := by
  cases layout with
  | nil => exact Nat.le_refl _
  | cons first rest => exact Nat.le_trans first.bounds rest.bounds

end

theorem DeclaratorAt.passes {tree : Declarator} {flow : Flow}
    (layout : code.DeclaratorAt tree flow start stop) (stands : code.Stands start 0)
    (inside : stop ≤ last) : code.Passes last start stop 0 := by
  cases layout with
  | empty => exact .nil stands
  | declared holds =>
      exact holds.passes rfl (canonical_of_arity_one _ _ rfl) stands (Nat.le_refl _)
        (Nat.zero_le _) rfl
  | value inner sinks =>
      have bounds := sinks.bounds
      have one : code.Passes last _ _ _ := inner.passes stands (by omega)
      exact one.append (sinks.passes one.stands inner.bounds.2.2)

theorem DeclaratorsAt.passes {trees : List Declarator} {flow : Flow}
    (layout : code.DeclaratorsAt trees flow start stop) (stands : code.Stands start 0)
    (inside : stop ≤ last) : code.Passes last start stop 0 := by
  induction layout with
  | nil => exact .nil stands
  | cons first rest ih =>
      have bounds := rest.bounds
      have one : code.Passes last _ _ _ := first.passes stands (by omega)
      exact one.append (ih one.stands inside)

theorem ForStartAt.passes {tree : ForStart} {flow : Flow}
    (layout : code.ForStartAt tree flow start stop) (stands : code.Stands start 0)
    (inside : stop ≤ last) : code.Passes last start stop 0 := by
  cases layout with
  | nothing => exact .nil stands
  | declare names => exact names.passes stands inside
  | evaluate inner pops =>
      have one : code.Passes last _ _ _ := inner.passes stands (by omega)
      exact one.append (pops.passes rfl (canonical_plain _) one.stands (Nat.le_refl _)
        inner.bounds.2.2.le rfl)

/-- The code of a test is sound when the loop ends at a depth of zero. -/
theorem TestAt.passes (last : Nat) {done : Nat} {tree : Option Expr} {test : Option Stretch}
    (layout : code.TestAt done tree test start stop) (stands : code.Stands start 0)
    (inside : stop ≤ last) : code.Stands stop 0 ∧
      (done ≤ last → code.Stands done 0 → code.SoundBetween last start stop) := by
  cases layout with
  | none => exact ⟨stands, fun _ _ => .nil⟩
  | some condition tests =>
      have one : code.Passes last _ _ _ := condition.passes stands (by omega)
      obtain ⟨next, sound⟩ := tests.tests one.stands condition.bounds.2.2
      exact ⟨next, fun ends there => one.sound.append (sound ends there)⟩

/-- The code of a step clause is sound, and so is that of a round that starts with it. -/
theorem StepAt.passes (last : Nat) {test next : Nat} {tree : Option Expr} {clause : Option Stretch}
    (layout : code.StepAt test tree clause next start stop) (before : test ≤ start)
    (tested : code.Stands test 0) (stands : code.Stands start 0) (inside : stop ≤ last) :
    code.Passes last start stop 0 ∧ next ≤ stop ∧ code.Stands next 0 := by
  cases layout with
  | none => exact ⟨.nil stands, before, tested⟩
  | some skips step pops repeats =>
      have bounds := step.bounds
      obtain ⟨entered, skip⟩ := skips.leaves stands (Nat.zero_le _)
      have one : code.Passes last _ _ _ := step.passes entered (by omega)
      have two : code.Passes last _ _ _ :=
        pops.passes rfl (canonical_plain _) one.stands (Nat.le_refl _) bounds.2.2.le rfl
      obtain ⟨left, again⟩ := repeats.leaves two.stands (Nat.zero_le _)
      exact ⟨⟨left, (((skip inside left).append one.sound).append two.sound).append
        (again (by omega) tested)⟩, by omega, entered⟩

/-- The labels of loops stand in front of instructions that run at a depth of zero. -/
def LoopsLead (code : CompleteCode) (last : Nat) (loops : List LoopLabels) : Prop :=
  ∀ labels ∈ loops, code.Leads last labels.breakTo 0 ∧ code.Leads last labels.continueTo 0

theorem LoopsLead.cons {labels : LoopLabels} {loops : List LoopLabels} {done next : Nat}
    (lead : code.LoopsLead last loops) (breaks : code.Places labels.breakTo done)
    (continues : code.Places labels.continueTo next) (doneInside : done ≤ last)
    (nextInside : next ≤ last) (doneStands : code.Stands done 0) (nextStands : code.Stands next 0) :
    code.LoopsLead last (labels :: loops) := by
  intro other member
  obtain rfl | inner := List.mem_cons.mp member
  · exact ⟨⟨done, breaks, doneInside, doneStands⟩, ⟨next, continues, nextInside, nextStands⟩⟩
  · exact lead other inner

mutual

/-- The code of a statement keeps the depth at zero, and it is sound when the loops around it are
left and repeated at that depth. -/
theorem StmtAt.passes {loops : List LoopLabels} {tree : Stmt} {flow : Flow} {start stop : Nat}
    (layout : code.StmtAt loops tree flow start stop) (stands : code.Stands start 0)
    (inside : stop ≤ last) : code.Stands stop 0 ∧
      (code.LoopsLead last loops → code.SoundBetween last start stop) := by
  cases layout with
  | expression value sinks =>
      have bounds := sinks.bounds
      have one : code.Passes last _ _ _ := value.passes stands (by omega)
      have two := one.append (sinks.passes one.stands value.bounds.2.2)
      exact ⟨two.stands, fun _ => two.sound⟩
  | declare names =>
      have one : code.Passes last _ _ _ := names.passes stands inside
      exact ⟨one.stands, fun _ => one.sound⟩
  | define function sinks =>
      have one : code.Passes last _ _ _ := function.passes stands
      have two := one.append (sinks.passes one.stands function.bounds.2.2)
      exact ⟨two.stands, fun _ => two.sound⟩
  | branch condition tests whenTrue =>
      have bounds := whenTrue.bounds
      have one : code.Passes last _ _ _ := condition.passes stands (by omega)
      obtain ⟨next, test⟩ := tests.tests one.stands condition.bounds.2.2
      obtain ⟨ended, body⟩ := whenTrue.passes next inside
      exact ⟨ended, fun lead => (one.sound.append (test inside ended)).append (body lead)⟩
  | branchElse condition tests whenTrue jumps whenFalse =>
      have first := whenTrue.bounds
      have second := whenFalse.bounds
      have one : code.Passes last _ _ _ := condition.passes stands (by omega)
      obtain ⟨next, test⟩ := tests.tests one.stands condition.bounds.2.2
      obtain ⟨left, bodyTrue⟩ := whenTrue.passes next (by omega)
      obtain ⟨other, jump⟩ := jumps.leaves left (Nat.zero_le _)
      obtain ⟨ended, bodyFalse⟩ := whenFalse.passes other inside
      exact ⟨ended, fun lead => (((one.sound.append (test (by omega) other)).append
        (bodyTrue lead)).append (jump inside ended)).append (bodyFalse lead)⟩
  | whileLoop condition tests breaks continues body repeats =>
      have bounds := body.bounds
      have first := condition.bounds
      have one : code.Passes last _ _ _ := condition.passes stands (by omega)
      obtain ⟨next, test⟩ := tests.tests one.stands first.2.2
      obtain ⟨left, rounds⟩ := body.passes next (by omega)
      obtain ⟨ended, again⟩ := repeats.leaves left (Nat.zero_le _)
      refine ⟨ended, fun lead => ((one.sound.append (test inside ended)).append (rounds ?_)).append
        (again (by omega) stands)⟩
      exact lead.cons breaks continues inside (by omega) ended stands
  | forLoop begin test step breaks continues body repeats =>
      have second := test.bounds
      have third := step.bounds
      have fourth := body.bounds
      have one : code.Passes last _ _ _ := begin.passes stands (by omega)
      obtain ⟨tested, testing⟩ := test.passes last one.stands (by omega)
      obtain ⟨stepped, before, nextStands⟩ := step.passes last second one.stands tested (by omega)
      obtain ⟨left, rounds⟩ := body.passes stepped.stands (by omega)
      obtain ⟨ended, again⟩ := repeats.leaves left (Nat.zero_le _)
      refine ⟨ended, fun lead => (((one.sound.append (testing inside ended)).append
        stepped.sound).append (rounds ?_)).append (again (by omega) nextStands)⟩
      exact lead.cons breaks continues inside (by omega) ended nextStands
  | breakLoop jumps =>
      obtain ⟨ended, sound⟩ := jumps.leaves stands (Nat.zero_le _)
      exact ⟨ended, fun lead => sound (lead _ List.mem_cons_self).1⟩
  | continueLoop jumps =>
      obtain ⟨ended, sound⟩ := jumps.leaves stands (Nat.zero_le _)
      exact ⟨ended, fun lead => sound (lead _ List.mem_cons_self).2⟩
  | returnNothing holds =>
      have one : code.Passes last _ _ _ :=
        holds.leaves rfl stands (Nat.zero_le _) (Nat.zero_le _)
      exact ⟨one.stands, fun _ => one.sound⟩
  | return_ value holds =>
      have one : code.Passes last _ _ _ := value.passes stands (by omega)
      have two := one.append (holds.leaves rfl one.stands (Nat.le_refl _) value.bounds.2.2.le)
      exact ⟨two.stands, fun _ => two.sound⟩
  | block body => exact body.passes stands inside

theorem StmtsAt.passes {loops : List LoopLabels} {trees : List Stmt} {flow : Flow}
    {start stop : Nat} (layout : code.StmtsAt loops trees flow start stop)
    (stands : code.Stands start 0) (inside : stop ≤ last) : code.Stands stop 0 ∧
      (code.LoopsLead last loops → code.SoundBetween last start stop) := by
  cases layout with
  | nil => exact ⟨stands, fun _ => .nil⟩
  | cons first rest =>
      have bounds := rest.bounds
      obtain ⟨next, one⟩ := first.passes stands (by omega)
      obtain ⟨ended, others⟩ := rest.passes next inside
      exact ⟨ended, fun lead => (one lead).append (others lead)⟩

end

theorem stands_zero (code : CompleteCode) : code.Stands 0 0 := ⟨rfl, rfl⟩

/-- The complete code of a function is sound, and its last instruction ends the function. -/
theorem BodyAt.sound {body : List Stmt} {flow : Flow} (layout : code.BodyAt body flow) :
    ∃ last final, code.assembler.pending.size = last + 1 ∧
      code.assembler.pending[last]? = some final ∧ final.op.leaves = true ∧
        code.SoundBetween last 0 (last + 1) := by
  obtain ⟨stop, statements, ends⟩ := layout
  cases ends with
  | function holds size =>
      obtain ⟨stands, sound⟩ := statements.passes code.stands_zero (Nat.le_refl stop)
      have ended : code.Passes stop _ _ _ :=
        holds.leaves rfl stands (Nat.zero_le _) (Nat.zero_le _)
      exact ⟨stop, _, size, holds, rfl,
        (sound fun _ member => (by cases member)).append ended.sound⟩
  | unit loads holds room size =>
      obtain ⟨stands, sound⟩ := statements.passes code.stands_zero (Nat.le_succ stop)
      have loaded : code.Passes (stop + 1) _ _ _ :=
        loads.pushes rfl (.inl rfl) rfl rfl stands room
      have ended : code.Passes (stop + 1) _ _ _ :=
        holds.leaves rfl loaded.stands (Nat.le_refl _) room.le
      exact ⟨stop + 1, _, size, holds, rfl,
        ((sound fun _ member => (by cases member)).append loaded.sound).append ended.sound⟩

end CompleteCode

end PocketScript
