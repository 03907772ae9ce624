import PocketScript.Proofs.Code.Layout
import PocketScript.Proofs.Code.Operands

/-!
# Listing finished code

Code that consists of whole instructions is listed as these instructions, each with its offset
(`Code.disassemble_flatMap`). So the listing of a completed function shows the instructions that box
its captured slots and behind them the final form of everything that was collected
(`Assembler.disassemble_finish`).
-/

namespace PocketScript

namespace Code

/-- Instructions with their offsets, the first one at a given offset. -/
def listed (start : Nat) : List Instruction → List (Nat × Instruction)
  | [] => []
  | first :: rest => (start, first) :: listed (start + first.size) rest

theorem listed_append (start : Nat) (first second : List Instruction) :
    listed start (first ++ second) =
      listed start first ++ listed (start + sumOver Instruction.size first) second := by
  induction first generalizing start with
  | nil => rfl
  | cons head rest ih =>
      rw [List.cons_append, listed, ih, listed, sumOver_cons, List.cons_append, Nat.add_assoc]

/-- Each instruction is listed at the offset that is the size of all instructions before it. -/
theorem listed_eq_mapIdx (start : Nat) (instructions : List Instruction) :
    listed start instructions = instructions.mapIdx fun index instr =>
      (start + sumOver Instruction.size (instructions.take index), instr) := by
  induction instructions generalizing start with
  | nil => rfl
  | cons first rest ih =>
    rw [listed, ih, List.mapIdx_cons, List.take_zero, sumOver_nil, Nat.add_zero]
    congr 1
    apply List.ext_getElem?
    intro index
    rw [List.getElem?_mapIdx, List.getElem?_mapIdx, List.take_succ_cons, sumOver_cons, Nat.add_assoc]

/-- An instruction is listed at the offset behind those in front of it. -/
theorem mem_listed {start offset : Nat} {instructions : List Instruction} {instr : Instruction} :
    (offset, instr) ∈ listed start instructions ↔
      ∃ index, instructions[index]? = some instr ∧
        offset = start + sumOver Instruction.size (instructions.take index) := by
  induction instructions generalizing start with
  | nil =>
      constructor
      · intro impossible
        cases impossible
      · rintro ⟨index, impossible, -⟩
        cases impossible
  | cons first rest ih =>
      rw [listed, List.mem_cons, ih]
      constructor
      · rintro (same | ⟨index, found, rfl⟩)
        · cases same
          exact ⟨0, rfl, rfl⟩
        · refine ⟨index + 1, found, ?_⟩
          rw [List.take_succ_cons, sumOver_cons, Nat.add_assoc]
      · rintro ⟨index, found, rfl⟩
        cases index with
        | zero =>
            obtain rfl : first = instr := Option.some.inj found
            exact .inl rfl
        | succ index =>
            refine .inr ⟨index, found, ?_⟩
            rw [List.take_succ_cons, sumOver_cons, Nat.add_assoc]

/-- Instructions take at least one byte each, so they start at different offsets. -/
theorem sumOver_take_lt {instructions : List Instruction} {first second : Nat} (order : first < second)
    (inside : second ≤ instructions.length) :
    sumOver Instruction.size (instructions.take first) <
      sumOver Instruction.size (instructions.take second) := by
  obtain ⟨more, rfl⟩ := Nat.exists_eq_add_of_lt order
  have there : first < instructions.length := by omega
  have positive : 0 < (instructions[first]).size := instructions[first].op.size_pos
  rw [Nat.add_assoc, List.take_add, sumOver_append, List.drop_eq_getElem_cons there,
    List.take_succ_cons, sumOver_cons]
  omega

/-- Whatever is counted along instructions can be read off at their offsets. -/
theorem exists_at_offsets {α : Type} [Inhabited α] (instructions : List Instruction)
    (counted : Nat → α) : ∃ found : Nat → α, ∀ index ≤ instructions.length,
      found (sumOver Instruction.size (instructions.take index)) = counted index := by
  classical
  refine ⟨fun offset =>
    if known : ∃ index ≤ instructions.length,
        sumOver Instruction.size (instructions.take index) = offset then counted known.choose
    else default, fun index inside => ?_⟩
  have known : ∃ other ≤ instructions.length, sumOver Instruction.size (instructions.take other) =
      sumOver Instruction.size (instructions.take index) := ⟨index, inside, rfl⟩
  obtain ⟨inside', same⟩ := known.choose_spec
  simp only [dif_pos known]
  congr 1
  rcases Nat.lt_trichotomy known.choose index with before | here | behind
  · have := sumOver_take_lt before inside
    omega
  · exact here
  · have := sumOver_take_lt behind inside'
    omega

theorem getLast?_listed {start : Nat} {instructions : List Instruction} {last : Instruction}
    (ends : instructions.getLast? = some last) :
    ∃ offset, (listed start instructions).getLast? = some (offset, last) := by
  obtain ⟨front, rfl⟩ := List.getLast?_eq_some_iff.mp ends
  rw [listed_append]
  exact ⟨_, List.getLast?_concat⟩

/-- A listing goes on behind instructions that stand in the code. -/
theorem disassembleFrom_behind (front : List UInt8) {instructions : List Instruction}
    (canonical : ∀ instr ∈ instructions, instr.IsCanonical) (tail : List UInt8)
    (before : List (Nat × Instruction)) :
    disassembleFrom (front ++ (instructions.flatMap Instruction.encode ++ tail)).toArray before
        front.length =
      disassembleFrom (front ++ (instructions.flatMap Instruction.encode ++ tail)).toArray
        ((listed front.length instructions).reverse ++ before)
        (front.length + sumOver Instruction.size instructions) := by
  induction instructions generalizing front before with
  | nil => rfl
  | cons first rest ih =>
    have positive := first.op.size_pos
    have length := Instruction.length_encode first
    have size : first.size = first.op.size := rfl
    have bytes : front ++ ((first :: rest).flatMap Instruction.encode ++ tail) =
        front ++ (first.encode ++ (rest.flatMap Instruction.encode ++ tail)) := by
      rw [List.flatMap_cons, List.append_assoc]
    have here := decode_encode front (rest.flatMap Instruction.encode ++ tail)
      (canonical first List.mem_cons_self)
    have inside : front.length <
        (front ++ (first.encode ++ (rest.flatMap Instruction.encode ++ tail))).toArray.size := by
      rw [List.size_toArray, List.length_append, List.length_append]
      omega
    have next := ih (front ++ first.encode)
      (fun instr member => canonical instr (List.mem_cons_of_mem _ member))
      ((front.length, first) :: before)
    rw [List.length_append, length, List.append_assoc] at next
    rw [bytes, disassembleFrom, if_pos inside, here]
    simp only
    rw [← size, next, listed, List.reverse_cons, List.append_assoc, List.singleton_append,
      sumOver_cons, Nat.add_assoc]

/-- Whole instructions up to the end of the code are listed. -/
theorem disassembleFrom_flatMap (front : List UInt8) (instructions : List Instruction)
    (canonical : ∀ instr ∈ instructions, instr.IsCanonical)
    (before : List (Nat × Instruction)) :
    disassembleFrom (front ++ instructions.flatMap Instruction.encode).toArray before front.length =
      .ok (before.reverse ++ listed front.length instructions) := by
  have behind := disassembleFrom_behind front canonical [] before
  have ended : ¬ front.length + sumOver Instruction.size instructions <
      (front ++ instructions.flatMap Instruction.encode).toArray.size := by
    rw [List.size_toArray, List.length_append, Instruction.length_flatMap_encode]
    exact Nat.lt_irrefl _
  rw [List.append_nil] at behind
  rw [behind, disassembleFrom, if_neg ended, List.reverse_append, List.reverse_reverse]

theorem disassemble_flatMap {instructions : List Instruction}
    (canonical : ∀ instr ∈ instructions, instr.IsCanonical) :
    disassemble (instructions.flatMap Instruction.encode).toArray = .ok (listed 0 instructions) :=
  disassembleFrom_flatMap [] instructions canonical []

/-- Every instruction of a listing is decoded at its offset, and starts where the ones before it have
ended. -/
theorem disassembleFrom_eq_ok {code : Code} {before listing : List (Nat × Instruction)} {pc : Nat}
    (done : disassembleFrom code before pc = .ok listing) :
    ∃ rest, listing = before.reverse ++ rest ∧
      (∀ entry ∈ rest, pc ≤ entry.1 ∧ code.decode entry.1 = .ok entry.2) ∧
        rest.Pairwise fun one two => one.1 + one.2.size ≤ two.1 := by
  induction before, pc using disassembleFrom.induct code with
  | case1 before pc inside fault failed =>
      rw [disassembleFrom, if_pos inside, failed] at done
      cases done
  | case2 before pc inside instr decoded _ ih =>
      rw [disassembleFrom, if_pos inside, decoded] at done
      obtain ⟨rest, rfl, good, ordered⟩ := ih done
      refine ⟨(pc, instr) :: rest, by simp, fun entry member => ?_, ?_⟩
      · rcases List.mem_cons.mp member with rfl | member
        · exact ⟨Nat.le_refl _, decoded⟩
        · exact ⟨Nat.le_trans (Nat.le_add_right _ _) (good entry member).1, (good entry member).2⟩
      · exact List.pairwise_cons.mpr ⟨fun entry member => (good entry member).1, ordered⟩
  | case3 before pc outside =>
      rw [disassembleFrom, if_neg outside] at done
      injection done with done
      exact ⟨[], by simp [done], by simp, List.Pairwise.nil⟩

/-- What is listed is what a run comes upon. -/
theorem decode_of_disassemble {code : Code} {listing : List (Nat × Instruction)} {offset : Nat}
    {instr : Instruction} (done : code.disassemble = .ok listing)
    (member : (offset, instr) ∈ listing) : code.decode offset = .ok instr := by
  obtain ⟨rest, rfl, good, -⟩ := disassembleFrom_eq_ok done
  exact (good _ member).2

/-- No instruction starts within another one. -/
theorem ordered_of_disassemble {code : Code} {listing : List (Nat × Instruction)}
    (done : code.disassemble = .ok listing) :
    listing.Pairwise fun one two => one.1 + one.2.size ≤ two.1 := by
  obtain ⟨rest, rfl, -, ordered⟩ := disassembleFrom_eq_ok done
  exact ordered

/-- The first instruction starts at the beginning. -/
theorem first_of_disassemble {code : Code} {listing : List (Nat × Instruction)}
    (done : code.disassemble = .ok listing) (more : listing ≠ []) :
    ∃ instr, (0, instr) ∈ listing := by
  unfold disassemble at done
  rw [disassembleFrom] at done
  split at done
  · split at done
    · cases done
    · rename_i instr _
      obtain ⟨rest, rfl, -⟩ := disassembleFrom_eq_ok done
      exact ⟨instr, List.mem_append_left _ List.mem_cons_self⟩
  · injection done with none
    exact absurd none.symm more

/-- Two instructions are the same, or one of them ends before the other starts. -/
theorem apart_of_disassemble {code : Code} {listing : List (Nat × Instruction)}
    {first second : Nat × Instruction} (done : code.disassemble = .ok listing)
    (one : first ∈ listing) (two : second ∈ listing) :
    first = second ∨ first.1 + first.2.size ≤ second.1 ∨ second.1 + second.2.size ≤ first.1 := by
  have ordered := List.pairwise_iff_getElem.mp (ordered_of_disassemble done)
  obtain ⟨index, inside, rfl⟩ := List.getElem_of_mem one
  obtain ⟨index', inside', rfl⟩ := List.getElem_of_mem two
  rcases Nat.lt_trichotomy index index' with before | same | behind
  · exact .inr (.inl (ordered _ _ inside inside' before))
  · exact .inl (by simp only [same])
  · exact .inr (.inr (ordered _ _ inside' inside behind))

end Code

theorem Instruction.arity_of_isJump {op : Opcode} (jump : op.isJump = true) : op.arity = 1 := by
  cases op <;> first | rfl | cases jump

/-- Exactly the jumps have a label, and operands that the operation does not take are zero. -/
def PendingInstruction.IsProper (instr : PendingInstruction) : Prop :=
  (instr.op.isJump = true ↔ instr.target.isSome = true) ∧
    (⟨instr.op, instr.a, instr.b⟩ : Instruction).IsCanonical

namespace Assembler

variable {assembler : Assembler} {varCount : Nat} {argCount : UInt16} {captured : Array Bool}
  {isClosure : Bool} {function : FunctionDef}

/-- The instructions of the finished code. -/
def settled (assembler : Assembler) (captured : Array Bool) : List Instruction :=
  boxing captured.toList ++
    assembler.pending.toList.map (settle captured (assembler.target captured))

theorem mem_boxing {captured : List Bool} {instr : Instruction} :
    instr ∈ boxing captured ↔
      ∃ slot, captured[slot]? = some true ∧ instr = ⟨.makeCell, UInt16.ofNat slot, 0⟩ := by
  unfold boxing
  rw [List.mem_map]
  constructor
  · rintro ⟨⟨flag, slot⟩, member, rfl⟩
    obtain ⟨listed, isCaptured⟩ := List.mem_filter.mp member
    have there := List.mem_zipIdx_iff_getElem?.mp listed
    refine ⟨slot, ?_, rfl⟩
    rw [there]
    exact congrArg some isCaptured
  · rintro ⟨slot, there, rfl⟩
    exact ⟨(true, slot), List.mem_filter.mpr ⟨List.mem_zipIdx_iff_getElem?.mpr there, rfl⟩, rfl⟩

/-- The final operation of an instruction. -/
def settledOp (captured : Array Bool) (instr : PendingInstruction) : Opcode :=
  let isCaptured := captured.getD instr.a.toNat false
  match instr.op with
  | .loadLocal => if isCaptured then .loadCell else .loadLocal
  | .storeLocal => if isCaptured then .storeCell else .storeLocal
  | op => op

theorem settle_eq (captured : Array Bool) (place : Label → Nat) (instr : PendingInstruction) :
    settle captured place instr =
      ⟨settledOp captured instr,
        match instr.target with
        | none => instr.a
        | some label => UInt16.ofNat (place label), instr.b⟩ := by
  obtain ⟨op, a, b, target⟩ := instr
  cases target <;> rfl

/-- Accesses to a cell are like those to the slot that was boxed into it. -/
theorem settledOp_congr {α : Type} (property : Opcode → α)
    (load : property .loadCell = property .loadLocal)
    (store : property .storeCell = property .storeLocal) (captured : Array Bool)
    (instr : PendingInstruction) :
    property (settledOp captured instr) = property instr.op := by
  obtain ⟨op, a, b, target⟩ := instr
  unfold settledOp
  cases op <;> simp only <;> first | rfl | (split <;> first | assumption | rfl)

theorem settledOp_of_not_slot (captured : Array Bool) {instr : PendingInstruction}
    (other : instr.op.refersToSlot = false) :
    settledOp captured instr = instr.op := by
  obtain ⟨op, a, b, target⟩ := instr
  cases op <;> first | rfl | cases other

/-- An access to a slot goes to its cell exactly when the slot is captured. -/
theorem settledOp_of_slot (captured : Array Bool) {instr : PendingInstruction}
    (slot : instr.op.refersToSlot = true) :
    (captured[instr.a.toNat]? = some true ∧
      (settledOp captured instr).refersToCell = true) ∨
      (captured[instr.a.toNat]? ≠ some true ∧
        settledOp captured instr = instr.op) := by
  obtain ⟨op, a, b, target⟩ := instr
  have known : captured.getD a.toNat false = true ↔ captured[a.toNat]? = some true := by
    rw [Array.getD_eq_getD_getElem?]
    cases captured[a.toNat]? <;> simp
  unfold settledOp
  by_cases isCaptured : captured.getD a.toNat false = true
  · refine .inl ⟨known.mp isCaptured, ?_⟩
    simp only [isCaptured]
    cases op <;> first | rfl | cases slot
  · refine .inr ⟨fun there => isCaptured (known.mpr there), ?_⟩
    simp only [isCaptured]
    cases op <;> rfl

theorem settledOp_ne_makeCell (captured : Array Bool) {instr : PendingInstruction}
    (noBox : instr.op ≠ .makeCell) : settledOp captured instr ≠ .makeCell := by
  by_cases slot : instr.op.refersToSlot = true
  · obtain ⟨-, refers⟩ | ⟨-, same⟩ := settledOp_of_slot captured slot
    · intro box
      rw [box] at refers
      cases refers
    · rw [same]
      exact noBox
  · rw [settledOp_of_not_slot captured (eq_false_of_ne_true slot)]
    exact noBox

theorem arity_settledOp (captured : Array Bool) (instr : PendingInstruction) :
    (settledOp captured instr).arity = instr.op.arity :=
  settledOp_congr Opcode.arity rfl rfl captured instr

/-- The final form of a proper instruction takes its operands. -/
theorem isCanonical_settle {captured : Array Bool} {place : Label → Nat}
    {instr : PendingInstruction} (proper : instr.IsProper) :
    (settle captured place instr).IsCanonical := by
  obtain ⟨jumps, unusedA, unusedB⟩ := proper
  rw [settle_eq]
  refine ⟨fun none => ?_, fun few => ?_⟩
  · simp only [arity_settledOp] at none
    cases target : instr.target with
    | none => exact unusedA none
    | some label =>
        have jump : instr.op.isJump = true := jumps.mpr (by rw [target]; rfl)
        rw [Instruction.arity_of_isJump jump] at none
        cases none
  · simp only [arity_settledOp] at few
    exact unusedB few

/-- A completed function with proper instructions is listed as these in their final form, behind the
instructions that box captured slots. -/
theorem disassemble_finish
    (finished : assembler.finish varCount argCount captured isClosure = .ok function)
    (proper : ∀ instr ∈ assembler.pending.toList, instr.IsProper) :
    function.code.disassemble = .ok (Code.listed 0 (assembler.settled captured)) := by
  obtain ⟨-, -, rfl⟩ := finish_eq_ok finished
  refine Code.disassemble_flatMap fun instr member => ?_
  obtain boxes | collected := List.mem_append.mp member
  · obtain ⟨slot, -, rfl⟩ := mem_boxing.mp boxes
    exact ⟨fun none => (by cases none), fun _ => rfl⟩
  · obtain ⟨pending, there, rfl⟩ := List.mem_map.mp collected
    exact isCanonical_settle (proper pending there)

end Assembler

end PocketScript
