import PocketScript.Proofs.Code.Gathered
import PocketScript.Proofs.Compile.Orderly

/-!
# Compiled code gathers cells for closures only

The only place where the compiler pushes cells is in front of a closure that captures them all
(`CompleteCode.Sound.gathers`), and completing a function neither moves these instructions apart nor
pushes further cells. So whatever compiles gathers cells for closures only (`compile_gathers`).
-/

namespace PocketScript

namespace Origin

variable {origin : Origin} {numbers strings place : Nat} {functions : Array FunctionDef}
  {function : FunctionDef}

theorem cellsAfter_settle (origin : Origin) (count : Nat) (instr : PendingInstruction) :
    Instruction.cellsAfter count (origin.settle instr) = instr.cellsAfter count := by
  rw [Instruction.cellsAfter, op_settle, Assembler.settledOp_congr Opcode.pushesCell rfl rfl,
    PendingInstruction.cellsAfter]

/-- Boxing slots pushes nothing. -/
theorem cellsAfter_boxing {instructions : List Instruction}
    (boxes : ∀ instr ∈ instructions, instr.op = .makeCell) :
    instructions.foldl Instruction.cellsAfter 0 = 0 := by
  induction instructions with
  | nil => rfl
  | cons first rest ih =>
      rw [List.foldl_cons, Instruction.cellsAfter, boxes first List.mem_cons_self, if_neg (by decide)]
      exact ih fun other member => boxes other (List.mem_cons_of_mem _ member)

/-- In a completed function the cells are counted as they were while it was collected. -/
theorem cellsAfter_settled (origin : Origin) (position : Nat) :
    ((origin.assembler.settled origin.captured).take
        ((Assembler.boxing origin.captured.toList).length + position)).foldl
          Instruction.cellsAfter 0 = (CompleteCode.plain origin.assembler).cells position := by
  have boxes : ∀ instr ∈ Assembler.boxing origin.captured.toList, instr.op = .makeCell := by
    intro instr member
    obtain ⟨slot, -, rfl⟩ := Assembler.mem_boxing.mp member
    rfl
  rw [Assembler.settled, List.take_length_add_append, List.foldl_append, cellsAfter_boxing boxes,
    ← List.map_take, List.foldl_map]
  have same : (fun count pending => Instruction.cellsAfter count
      (Assembler.settle origin.captured (origin.assembler.target origin.captured) pending)) =
        PendingInstruction.cellsAfter :=
    funext fun count => funext fun pending => cellsAfter_settle origin count pending
  rw [same]
  rfl

/-- A slot is boxed at one place only. -/
theorem boxing_once (captured : List Bool) (small : captured.length ≤ 65535) :
    ((Assembler.boxing captured).map (·.a)).Nodup := by
  have slots : ((captured.zipIdx.filter (·.1)).map (·.2)).Nodup := by
    refine (List.filter_sublist.map _).nodup ?_
    rw [List.zipIdx_map_snd]
    exact List.nodup_range'
  have few : ∀ slot ∈ (captured.zipIdx.filter (·.1)).map (·.2), slot < 65536 := by
    intro slot member
    obtain ⟨⟨flag, slot'⟩, there, rfl⟩ := List.mem_map.mp member
    have inside := (List.mem_zipIdx_iff_getElem?.mp (List.mem_filter.mp there).1)
    obtain ⟨below, -⟩ := List.getElem?_eq_some_iff.mp inside
    change slot' < 65536
    omega
  have numbered : (Assembler.boxing captured).map (·.a) =
      ((captured.zipIdx.filter (·.1)).map (·.2)).map UInt16.ofNat := by
    rw [Assembler.boxing, List.map_map, List.map_map]
    rfl
  rw [numbered]
  refine slots.map_on fun one here two there same => ?_
  have value := congrArg UInt16.toNat same
  rwa [UInt16.toNat_ofNat_of_lt' (few one here), UInt16.toNat_ofNat_of_lt' (few two there)] at value

/-- The cells that are gathered in front of an instruction of a completed function. -/
theorem gathered_settle (origin : Origin) {position : Nat}
    (inside : position ≤ origin.assembler.pending.size) :
    Listing.gathered (Code.listed 0 (origin.assembler.settled origin.captured))
        (origin.assembler.offset origin.captured position) =
      (CompleteCode.plain origin.assembler).cells position := by
  have length := origin.length_settled
  have offset := Assembler.sumOver_take_settled origin.captured origin.assembler position
  have counted := @Code.gathered_listed (origin.assembler.settled origin.captured)
    ((Assembler.boxing origin.captured.toList).length + position) (by omega)
  rw [Assembler.settled] at counted
  rw [offset] at counted
  exact counted.trans (origin.cellsAfter_settled position)

/-- An instruction of a completed function boxes a slot, in front of all others, or it is the final
form of a collected one. -/
theorem Yields.listed_cases (yields : origin.Yields numbers strings functions place function)
    {offset : Nat} {instr : Instruction}
    (member : (offset, instr) ∈ Code.listed 0 (origin.assembler.settled origin.captured)) :
    (instr.op = .makeCell ∧ offset < origin.assembler.offset origin.captured 0 ∧
      Listing.gathered (Code.listed 0 (origin.assembler.settled origin.captured)) offset = 0) ∨
      ∃ position pending, origin.assembler.pending[position]? = some pending ∧
        instr = origin.settle pending ∧
          offset = origin.assembler.offset origin.captured position ∧
            instr.op ≠ .makeCell := by
  obtain ⟨index, found, rfl⟩ := Code.mem_listed.mp member
  obtain ⟨inside, -⟩ := List.getElem?_eq_some_iff.mp found
  rw [Nat.zero_add]
  have offsets := Assembler.sumOver_take_settled origin.captured origin.assembler
  obtain ⟨before, slot, rfl⟩ | ⟨position, pending, rfl, collected, rfl⟩ := getElem?_settled found
  · refine .inl ⟨rfl, ?_, ?_⟩
    · have first := offsets 0
      rw [← first]
      exact Code.sumOver_take_lt before (by rw [length_settled]; omega)
    · rw [Code.gathered_listed _ (Nat.le_of_lt inside), Assembler.settled,
        List.take_append_of_le_length (Nat.le_of_lt before)]
      refine cellsAfter_boxing fun instr member => ?_
      obtain ⟨slot, -, rfl⟩ := Assembler.mem_boxing.mp (List.mem_of_mem_take member)
      rfl
  · refine .inr ⟨position, pending, collected, rfl, offsets position, ?_⟩
    rw [op_settle]
    exact Assembler.settledOp_ne_makeCell _ (yields.allowed position pending collected).box

/-- Where a jump of a completed function leads. -/
theorem Yields.jumps_behind (yields : origin.Yields numbers strings functions place function)
    {offset : Nat} {instr : Instruction}
    (member : (offset, instr) ∈ Code.listed 0 (origin.assembler.settled origin.captured))
    (jump : instr.op.isJump = true) : ∃ index ≤ origin.assembler.pending.size,
      instr.a.toNat = origin.assembler.offset origin.captured index ∧
        (CompleteCode.plain origin.assembler).cells index = 0 := by
  obtain ⟨last, final, size, -, -, sound⟩ := yields.sound
  obtain ⟨box, -⟩ | ⟨position, pending, collected, rfl, -, -⟩ := yields.listed_cases member
  · rw [box] at jump
    cases jump
  · have ready := sound position pending collected
    rw [op_settle, Assembler.settledOp_congr Opcode.isJump rfl rfl] at jump
    obtain ⟨label, target⟩ := Option.isSome_iff_exists.mp (ready.proper.1.mp jump)
    obtain ⟨depth, -, index, placed, inside, -, none⟩ := ready.taken label target
    have within : index ≤ origin.assembler.pending.size := by omega
    exact ⟨index, within, yields.target_settle target placed within, none⟩

theorem settledOp_eq_makeClosure {captured : Array Bool} {instr : PendingInstruction} :
    Assembler.settledOp captured instr = .makeClosure ↔ instr.op = .makeClosure := by
  obtain ⟨op, a, b, target⟩ := instr
  unfold Assembler.settledOp
  cases op <;> simp only [reduceCtorEq] <;> split <;> simp

/-- A completed function gathers cells for closures only. -/
theorem Yields.gathers (yields : origin.Yields numbers strings functions place function) :
    function.Gathers := by
  intro listing listed
  cases yields.disassemble.symm.trans listed
  obtain ⟨last, final, size, -, -, sound⟩ := yields.sound
  have counted := @Code.gathered_listed (origin.assembler.settled origin.captured)
  refine ⟨counted (Nat.zero_le _), fun offset instr member => ?next,
    fun offset instr member => ?only, fun offset instr member closure => ?all,
    fun offset instr member jump => ?aside,
    fun offset instr member jump earlier boxing there box => ?behind,
    fun first one second two here box there box' same => ?once⟩
  case next =>
    obtain ⟨index, found, rfl⟩ := Code.mem_listed.mp member
    obtain ⟨inside, -⟩ := List.getElem?_eq_some_iff.mp found
    have behind : sumOver Instruction.size ((origin.assembler.settled origin.captured).take index) +
        instr.size =
          sumOver Instruction.size ((origin.assembler.settled origin.captured).take (index + 1)) := by
      rw [List.take_add_one, found, sumOver_append]
      rfl
    rw [Nat.zero_add, behind, counted inside, counted (Nat.le_of_lt inside),
      CompleteCode.foldl_take_succ found]
  case only =>
    obtain ⟨-, -, none⟩ | ⟨position, pending, collected, rfl, rfl, -⟩ := yields.listed_cases member
    · exact .inl none
    · obtain ⟨inside, -⟩ := Array.getElem?_eq_some_iff.mp collected
      rw [origin.gathered_settle (Nat.le_of_lt inside), op_settle,
        Assembler.settledOp_congr Opcode.pushesCell rfl rfl, settledOp_eq_makeClosure]
      exact (sound position pending collected).gathers
  case all =>
    obtain ⟨box, -⟩ | ⟨position, pending, collected, rfl, rfl, -⟩ := yields.listed_cases member
    · rw [box] at closure
      cases closure
    · obtain ⟨inside, -⟩ := Array.getElem?_eq_some_iff.mp collected
      rw [op_settle, settledOp_eq_makeClosure] at closure
      rw [origin.gathered_settle (Nat.le_of_lt inside), b_settle]
      exact (sound position pending collected).captured closure
  case aside =>
    obtain ⟨index, inside, target, none⟩ := yields.jumps_behind member jump
    rw [target, origin.gathered_settle inside]
    exact none
  case behind =>
    obtain ⟨index, inside, target, -⟩ := yields.jumps_behind member jump
    obtain ⟨-, early, -⟩ | ⟨-, -, -, -, -, other⟩ := yields.listed_cases there
    · rw [target]
      exact Nat.lt_of_lt_of_le early
        (Assembler.offset_mono origin.captured origin.assembler (Nat.zero_le _))
    · exact absurd box other
  case once =>
    have small := yields.small
    have few := yields.captured
    have unique := boxing_once origin.captured.toList (by rw [Array.length_toList]; omega)
    have numbered : ∀ {offset : Nat} {boxing : Instruction},
        (offset, boxing) ∈ Code.listed 0 (origin.assembler.settled origin.captured) →
          boxing.op = .makeCell → ∃ index : Nat,
            ((Assembler.boxing origin.captured.toList).map (·.a))[index]? = some boxing.a ∧
              offset = sumOver Instruction.size
                ((origin.assembler.settled origin.captured).take index) := by
      intro offset boxing member box
      obtain ⟨index, found, rfl⟩ := Code.mem_listed.mp member
      obtain ⟨before, -⟩ | ⟨position, pending, rfl, collected, rfl⟩ := getElem?_settled found
      · rw [Assembler.settled, List.getElem?_append_left before] at found
        exact ⟨index, by rw [List.getElem?_map, found]; rfl, Nat.zero_add _⟩
      · rw [op_settle] at box
        exact absurd box (Assembler.settledOp_ne_makeCell _
          (yields.allowed position pending collected).box)
    obtain ⟨index, found, rfl⟩ := numbered here box
    obtain ⟨index', found', rfl⟩ := numbered there box'
    obtain ⟨inside, value⟩ := List.getElem?_eq_some_iff.mp found
    obtain ⟨inside', value'⟩ := List.getElem?_eq_some_iff.mp found'
    have equal := (unique.getElem_inj_iff).mp (value.trans (same.trans value'.symm))
    rw [equal]

end Origin

/-- Whatever compiles gathers cells for closures only. -/
theorem compile_gathers {bytes : List UInt8} {limits : CompileLimits}
    {isKnownGlobal : String → Bool} {program : Program}
    (compiled : compile bytes limits isKnownGlobal = .ok program) : program.Gathers := by
  obtain ⟨done, leads, rfl⟩ := leads_of_compile compiled
  intro index function found
  obtain ⟨origin, yields⟩ := (Compiling.completed_unit leads).1 index function found
  exact yields.gathers

/-- The program was compiled from a text. -/
def Program.IsCompiled (program : Program) : Prop :=
  ∃ bytes limits isKnownGlobal, compile bytes limits isKnownGlobal = .ok program

theorem Program.IsCompiled.gathers {program : Program} (is : program.IsCompiled) : program.Gathers := by
  obtain ⟨bytes, limits, isKnownGlobal, compiled⟩ := is
  exact compile_gathers compiled

end PocketScript
