import PocketScript.Code.Assembler

/-!
# The layout of finished code

Completing a function puts its instructions one behind the other, those that box captured slots
first. An instruction whose unused operands are zero decodes to itself wherever its bytes stand
(`Code.decode_encode`), so at the offset of a collected instruction the finished code decodes to the
final form of that instruction (`Assembler.decode_finish`), and a placed label stands for the offset
of the instruction behind it (`Assembler.target_eq`).
-/

namespace PocketScript

namespace Instruction

/-- Operands that the operation does not take are zero. -/
def IsCanonical (instr : Instruction) : Prop :=
  (instr.op.arity = 0 → instr.a = 0) ∧ (instr.op.arity ≤ 1 → instr.b = 0)

instance (instr : Instruction) : Decidable instr.IsCanonical := by
  unfold IsCanonical
  infer_instance

theorem operandOf_bytes (value : UInt16) :
    operandOf (UInt8.ofNat (value.toNat % 256)) (UInt8.ofNat (value.toNat / 256)) = value := by
  have bound := value.toNat_lt
  apply UInt16.toNat_inj.mp
  simp only [operandOf, UInt8.toNat_ofNat', UInt16.toNat_ofNat']
  omega

theorem length_operandBytes (value : UInt16) : (operandBytes value).length = 2 := rfl

theorem arity_le (op : Opcode) : op.arity ≤ 2 := by
  cases op <;> decide

theorem length_encode (instr : Instruction) :
    instr.encode.length = instr.size := by
  have bound := arity_le instr.op
  unfold encode size Opcode.size
  split
  · rename_i none
    simp only [none, List.length_cons, List.length_nil]
  · rename_i one
    simp only [one, List.length_cons, length_operandBytes]
  · rename_i notZero notOne
    have two : instr.op.arity = 2 := by
      have positive : instr.op.arity ≠ 0 := fun none => notZero none
      have more : instr.op.arity ≠ 1 := fun one => notOne one
      omega
    simp only [two, List.length_cons, List.length_append, length_operandBytes]

theorem length_flatMap_encode (instructions : List Instruction) :
    (instructions.flatMap encode).length = sumOver size instructions := by
  induction instructions with
  | nil => rfl
  | cons first rest ih =>
      rw [List.flatMap_cons, List.length_append, length_encode, ih, sumOver_cons]

end Instruction

namespace Code

/-- Two bytes in the middle of some code are read as the operand they were written for. -/
theorem operandAt_bytes (front back : List UInt8) (value : UInt16) {position : Nat}
    (here : position = front.length) :
    operandAt (front ++ (Instruction.operandBytes value ++ back)).toArray position = .ok value := by
  subst here
  have low : (front ++ (Instruction.operandBytes value ++ back))[front.length]? =
      some (UInt8.ofNat (value.toNat % 256)) := by
    rw [List.getElem?_append_right (Nat.le_refl _), Nat.sub_self]
    rfl
  have high : (front ++ (Instruction.operandBytes value ++ back))[front.length + 1]? =
      some (UInt8.ofNat (value.toNat / 256)) := by
    rw [List.getElem?_append_right (Nat.le_add_right _ _), Nat.add_sub_cancel_left]
    rfl
  simp only [operandAt, List.getElem?_toArray, low, high, Instruction.operandOf_bytes]

theorem operandAt_eq_ok {code : Code} {position : Nat} {operand : UInt16}
    (there : code.operandAt position = .ok operand) : position + 1 < code.size := by
  unfold operandAt at there
  split at there
  · rename_i high
    exact (Array.getElem?_eq_some_iff.mp high).1
  · cases there

theorem except_bind_eq_ok {ε α β : Type} {first : Except ε α} {next : α → Except ε β} {value : β} :
    (first >>= next) = .ok value ↔ ∃ result, first = .ok result ∧ next result = .ok value := by
  constructor
  · intro done
    cases first with
    | error fault => cases done
    | ok result => exact ⟨result, rfl, done⟩
  · rintro ⟨_, rfl, done⟩
    exact done

/-- An instruction that can be read lies within the code. -/
theorem decode_inside {code : Code} {pc : Nat} {instr : Instruction}
    (decodes : code.decode pc = .ok instr) : pc + instr.size ≤ code.size := by
  unfold decode at decodes
  split at decodes
  · cases decodes
  · rename_i byte there
    have first := (Array.getElem?_eq_some_iff.mp there).1
    split at decodes
    · cases decodes
    · rename_i op _
      have arity := Instruction.arity_le op
      have size : ∀ a b, (⟨op, a, b⟩ : Instruction).size = 1 + 2 * op.arity := fun _ _ => rfl
      simp only at decodes
      by_cases one : 1 ≤ op.arity
      · rw [if_pos one] at decodes
        obtain ⟨a, readA, decodes⟩ := except_bind_eq_ok.mp decodes
        have insideA := operandAt_eq_ok readA
        by_cases two : 2 ≤ op.arity
        · rw [if_pos two] at decodes
          obtain ⟨b, readB, decodes⟩ := except_bind_eq_ok.mp decodes
          have insideB := operandAt_eq_ok readB
          cases decodes
          rw [size]
          omega
        · rw [if_neg two] at decodes
          cases decodes
          rw [size]
          omega
      · have none : ¬ 2 ≤ op.arity := by omega
        rw [if_neg one] at decodes
        obtain ⟨a, readA, decodes⟩ := except_bind_eq_ok.mp decodes
        rw [if_neg none] at decodes
        cases decodes
        rw [size]
        omega

/-- An instruction in the middle of some code decodes to itself. -/
theorem decode_encode (front back : List UInt8) {instr : Instruction}
    (canonical : instr.IsCanonical) :
    decode (front ++ (instr.encode ++ back)).toArray front.length = .ok instr := by
  obtain ⟨op, a, b⟩ := instr
  obtain ⟨unusedA, unusedB⟩ := canonical
  have first : (front ++ (Instruction.encode ⟨op, a, b⟩ ++ back))[front.length]? =
      some op.toByte := by
    rw [List.getElem?_append_right (Nat.le_refl _), Nat.sub_self]
    rfl
  simp only [decode, List.getElem?_toArray, first, Opcode.ofByte?_toByte]
  have bound := Instruction.arity_le op
  rcases (by omega : op.arity = 0 ∨ op.arity = 1 ∨ op.arity = 2) with none | one | two
  · simp only at unusedA unusedB
    rw [unusedA none, unusedB (by omega)]
    simp only [none]
    rfl
  · have here := @operandAt_bytes (front ++ [op.toByte]) back a (front.length + 1) (by simp)
    have split : front ++ (Instruction.encode ⟨op, a, b⟩ ++ back) =
        front ++ [op.toByte] ++ (Instruction.operandBytes a ++ back) := by
      simp [Instruction.encode, one]
    simp only at unusedB
    rw [split, here, unusedB (by omega)]
    simp only [one]
    rfl
  · have hereA := @operandAt_bytes (front ++ [op.toByte]) (Instruction.operandBytes b ++ back) a
      (front.length + 1) (by simp)
    have hereB := @operandAt_bytes (front ++ [op.toByte] ++ Instruction.operandBytes a) back b
      (front.length + 3) (by simp [Instruction.length_operandBytes])
    have split : front ++ (Instruction.encode ⟨op, a, b⟩ ++ back) =
        front ++ [op.toByte] ++ (Instruction.operandBytes a ++
          (Instruction.operandBytes b ++ back)) := by
      simp [Instruction.encode, two]
    have regroup : front ++ [op.toByte] ++ (Instruction.operandBytes a ++
        (Instruction.operandBytes b ++ back)) =
        front ++ [op.toByte] ++ Instruction.operandBytes a ++
          (Instruction.operandBytes b ++ back) := by
      simp
    rw [← regroup] at hereB
    rw [split, hereA, hereB]
    simp only [two]
    rfl

/-- Decoding at the offset of an instruction in a list of instructions. -/
theorem decode_flatMap {instructions : List Instruction} {index : Nat} {instr : Instruction}
    (found : instructions[index]? = some instr) (canonical : instr.IsCanonical) :
    decode (instructions.flatMap Instruction.encode).toArray
      (sumOver Instruction.size (instructions.take index)) = .ok instr := by
  obtain ⟨inside, same⟩ := List.getElem?_eq_some_iff.mp found
  have split : instructions =
      instructions.take index ++ instr :: instructions.drop (index + 1) := by
    rw [← same, List.getElem_cons_drop, List.take_append_drop]
  have bytes : instructions.flatMap Instruction.encode =
      (instructions.take index).flatMap Instruction.encode ++ (instr.encode ++
        (instructions.drop (index + 1)).flatMap Instruction.encode) := by
    conv => lhs; rw [split]
    rw [List.flatMap_append, List.flatMap_cons]
  rw [bytes, ← Instruction.length_flatMap_encode]
  exact decode_encode _ _ canonical

end Code

namespace Assembler

/-- The bytes that box the captured slots, in front of everything else. -/
def entrySize (captured : Array Bool) : Nat := sumOver Instruction.size (boxing captured.toList)

/-- Where an instruction starts in the finished code; where they all end, for the number of all
instructions. -/
def offset (captured : Array Bool) (assembler : Assembler) (index : Nat) : Nat :=
  entrySize captured + sumOver (·.op.size) (assembler.pending.toList.take index)

/-- What a label stands for in the finished code. -/
def target (captured : Array Bool) (assembler : Assembler) (label : Label) : Nat :=
  let (places, behind) := layout (entrySize captured) assembler.pending
  labelOffset assembler.labels places behind label

/-- The step of the layout. -/
def layOut (laid : Array Nat × Nat) (instr : PendingInstruction) : Array Nat × Nat :=
  (laid.1.push laid.2, laid.2 + instr.op.size)

theorem layout_eq_foldl (start : Nat) (pending : Array PendingInstruction) :
    layout start pending = pending.toList.foldl layOut (#[], start) := by
  rw [Array.foldl_toList]
  rfl

/-- Laying out further instructions keeps the places before, and gives each its own behind. -/
theorem foldl_layOut (instructions : List PendingInstruction) (places : Array Nat) (next : Nat) :
    (instructions.foldl layOut (places, next)).2 = next + sumOver (·.op.size) instructions ∧
      ∀ index fallback,
        (instructions.foldl layOut (places, next)).1.getD index fallback =
          if index < places.size then places.getD index fallback
          else if index < places.size + instructions.length then
            next + sumOver (·.op.size) (instructions.take (index - places.size))
          else fallback := by
  induction instructions generalizing places next with
  | nil =>
      refine ⟨rfl, fun index fallback => ?_⟩
      by_cases inside : index < places.size
      · simp [inside]
      · simp [inside, Array.getD]
  | cons first rest ih =>
      obtain ⟨size, found⟩ := ih (places.push next) (next + first.op.size)
      refine ⟨by simp only [List.foldl_cons, layOut, size, sumOver_cons]; omega, ?_⟩
      intro index fallback
      simp only [List.foldl_cons, layOut]
      rw [found]
      simp only [Array.size_push, List.length_cons]
      by_cases before : index < places.size
      · have pushed : index < places.size + 1 := by omega
        simp [before, pushed, Array.getD, Array.getElem_push_lt before]
      · by_cases here : index = places.size
        · subst here
          simp [Array.getD]
        · have notPushed : ¬ index < places.size + 1 := by omega
          have position : index - places.size = index - (places.size + 1) + 1 := by omega
          simp only [before, notPushed, ↓reduceIte]
          by_cases inside : index < places.size + 1 + rest.length
          · have inside' : index < places.size + (rest.length + 1) := by omega
            simp only [inside, inside', ↓reduceIte]
            rw [position, List.take_succ_cons, sumOver_cons]
            omega
          · have outside : ¬ index < places.size + (rest.length + 1) := by omega
            simp only [inside, outside, ↓reduceIte]

/-- A label stands for the offset of the instruction it was placed in front of, and for the end of the
code when none follows or it has no place. -/
theorem target_eq_match (captured : Array Bool) (assembler : Assembler) (label : Label) :
    assembler.target captured label =
      match assembler.labels[label.index]? with
      | some (some index) => assembler.offset captured index
      | _ => assembler.offset captured assembler.pending.size := by
  obtain ⟨size, found⟩ := foldl_layOut assembler.pending.toList #[] (entrySize captured)
  have ending : (assembler.pending.toList.foldl layOut (#[], entrySize captured)).2 =
      assembler.offset captured assembler.pending.size := by
    rw [size, offset, ← Array.length_toList, List.take_length]
  simp only [target, layout_eq_foldl, labelOffset, ending]
  rcases assembler.labels[label.index]? with _ | _ | index
  · rfl
  · rfl
  · simp only [found, Array.size_empty, Nat.not_lt_zero, ↓reduceIte, Nat.zero_add, Nat.sub_zero]
    split
    · rfl
    · rename_i behind
      have all : assembler.pending.toList.take index = assembler.pending.toList.take
          assembler.pending.size := by
        rw [List.take_of_length_le (Nat.le_of_not_lt behind), ← Array.length_toList,
          List.take_length]
      rw [offset, offset, all]

/-- A placed label stands for the offset of the instruction it was placed in front of. -/
theorem target_eq (captured : Array Bool) {assembler : Assembler} {label : Label} {index : Nat}
    (placed : assembler.labels[label.index]? = some (some index)) :
    assembler.target captured label = assembler.offset captured index := by
  rw [target_eq_match, placed]

theorem offset_succ (captured : Array Bool) {assembler : Assembler} {index : Nat}
    {instr : PendingInstruction} (found : assembler.pending[index]? = some instr) :
    assembler.offset captured (index + 1) =
      assembler.offset captured index + instr.op.size := by
  have listed : assembler.pending.toList[index]? = some instr := by
    rw [Array.getElem?_toList, found]
  obtain ⟨inside, same⟩ := List.getElem?_eq_some_iff.mp listed
  unfold offset
  rw [← List.take_append_getElem inside, sumOver_append, same, sumOver_cons, sumOver_nil]
  omega

theorem offset_mono (captured : Array Bool) (assembler : Assembler) {first second : Nat}
    (order : first ≤ second) :
    assembler.offset captured first ≤ assembler.offset captured second := by
  unfold offset
  obtain ⟨more, rfl⟩ := Nat.exists_eq_add_of_le order
  rw [List.take_add, sumOver_append]
  omega

/-- No offset lies behind the end of the code. -/
theorem offset_le (captured : Array Bool) (assembler : Assembler) (index : Nat) :
    assembler.offset captured index ≤ assembler.offset captured assembler.pending.size := by
  rcases Nat.le_total index assembler.pending.size with inside | behind
  · exact offset_mono captured assembler inside
  · have same : assembler.offset captured index =
        assembler.offset captured assembler.pending.size := by
      unfold offset
      rw [List.take_of_length_le (by simpa using behind), ← Array.length_toList, List.take_length]
    exact Nat.le_of_eq same

/-- Labels stand for places within the code. -/
theorem target_le (captured : Array Bool) (assembler : Assembler) (label : Label) :
    assembler.target captured label ≤ assembler.offset captured assembler.pending.size := by
  rw [target_eq_match]
  split
  · exact offset_le captured assembler _
  · exact Nat.le_refl _

theorem settle_size (captured : Array Bool) (place : Label → Nat)
    (instr : PendingInstruction) :
    (settle captured place instr).size = instr.op.size := by
  obtain ⟨op, a, b, target⟩ := instr
  unfold settle Instruction.size
  cases target <;> cases op <;> simp only <;> first | rfl | (split <;> rfl)

/-- The offset of a collected instruction counts the bytes of what stands in front of it. -/
theorem sumOver_take_settled (captured : Array Bool) (assembler : Assembler) (index : Nat) :
    sumOver Instruction.size ((boxing captured.toList ++
      assembler.pending.toList.map (settle captured (assembler.target captured))).take
        ((boxing captured.toList).length + index)) = assembler.offset captured index := by
  rw [List.take_length_add_append, sumOver_append, ← List.map_take]
  unfold offset entrySize
  congr 1
  induction assembler.pending.toList.take index with
  | nil => rfl
  | cons first rest ih => rw [List.map_cons, sumOver_cons, sumOver_cons, ih, settle_size]

/-- The code of a function is completed unless its stack is too deep or its code too large. -/
theorem finish_eq (assembler : Assembler) (varCount : Nat) (argCount : UInt16)
    (captured : Array Bool) (isClosure : Bool) :
    assembler.finish varCount argCount captured isClosure =
      if 65535 < assembler.maxDepth then .error .stackTooDeep
      else if 65535 < assembler.offset captured assembler.pending.size then .error .functionTooLarge
      else .ok
        { varCount := UInt16.ofNat varCount
          argCount
          stackHigh := UInt16.ofNat assembler.maxDepth.toNat
          isClosure
          code := ((boxing captured.toList ++
            assembler.pending.toList.map (settle captured (assembler.target captured))).flatMap
              Instruction.encode).toArray } := by
  have size : assembler.offset captured assembler.pending.size =
      (layout (entrySize captured) assembler.pending).2 := by
    rw [layout_eq_foldl, (foldl_layOut _ _ _).1, offset]
    rw [show assembler.pending.size = assembler.pending.toList.length from rfl, List.take_length]
  rw [size]
  rfl

/-- What is known of a function that was completed. -/
theorem finish_eq_ok {assembler : Assembler} {varCount : Nat} {argCount : UInt16}
    {captured : Array Bool} {isClosure : Bool} {function : FunctionDef}
    (finished : assembler.finish varCount argCount captured isClosure = .ok function) :
    assembler.maxDepth ≤ 65535 ∧
      assembler.offset captured assembler.pending.size ≤ 65535 ∧
      function =
        { varCount := UInt16.ofNat varCount
          argCount
          stackHigh := UInt16.ofNat assembler.maxDepth.toNat
          isClosure
          code := ((boxing captured.toList ++
            assembler.pending.toList.map (settle captured (assembler.target captured))).flatMap
              Instruction.encode).toArray } := by
  rw [finish_eq] at finished
  split at finished
  · cases finished
  · split at finished
    · cases finished
    · rename_i shallow small
      injection finished with same
      exact ⟨by omega, by omega, same.symm⟩

/-- An instruction takes at least one byte. -/
theorem length_le_sumOver (instructions : List PendingInstruction) :
    instructions.length ≤ sumOver (·.op.size) instructions := by
  induction instructions with
  | nil => exact Nat.le_refl _
  | cons first rest ih =>
      have positive := first.op.size_pos
      rw [List.length_cons, sumOver_cons]
      omega

/-- A function that was completed has few instructions. -/
theorem pending_size_le {assembler : Assembler} {varCount : Nat} {argCount : UInt16}
    {captured : Array Bool} {isClosure : Bool} {function : FunctionDef}
    (finished : assembler.finish varCount argCount captured isClosure = .ok function) :
    assembler.pending.size ≤ 65535 := by
  obtain ⟨-, small, -⟩ := finish_eq_ok finished
  have few := length_le_sumOver assembler.pending.toList
  have all : assembler.pending.toList.take assembler.pending.size = assembler.pending.toList :=
    List.take_length
  rw [offset, all] at small
  rw [Array.length_toList] at few
  omega

variable {assembler : Assembler} {varCount : Nat} {argCount : UInt16} {captured : Array Bool}
  {isClosure : Bool} {function : FunctionDef}

/-- The finished code decodes to the final form of each instruction at its offset. -/
theorem decode_finish
    (finished : assembler.finish varCount argCount captured isClosure = .ok function)
    {index : Nat} {instr : PendingInstruction}
    (found : assembler.pending[index]? = some instr)
    (canonical : (settle captured (assembler.target captured) instr).IsCanonical) :
    function.code.decode (assembler.offset captured index) =
      .ok (settle captured (assembler.target captured) instr) := by
  obtain ⟨-, -, rfl⟩ := finish_eq_ok finished
  have listed : assembler.pending.toList[index]? = some instr := by
    rw [Array.getElem?_toList, found]
  have place : (boxing captured.toList ++
      assembler.pending.toList.map (settle captured (assembler.target captured)))[
        (boxing captured.toList).length + index]? =
      some (settle captured (assembler.target captured) instr) := by
    rw [List.getElem?_append_right (Nat.le_add_right _ _), Nat.add_sub_cancel_left,
      List.getElem?_map, listed]
    rfl
  rw [← sumOver_take_settled captured assembler index]
  exact Code.decode_flatMap place canonical

theorem boxing_eq {captured : List Bool} {instr : Instruction}
    (member : instr ∈ boxing captured) : instr = ⟨.makeCell, instr.a, 0⟩ := by
  obtain ⟨slot, -, rfl⟩ := List.mem_map.mp member
  rfl

/-- Boxing a slot takes three bytes. -/
theorem sumOver_boxes {instructions : List Instruction}
    (boxes : ∀ instr ∈ instructions, instr.op = .makeCell) :
    sumOver Instruction.size instructions = 3 * instructions.length := by
  induction instructions with
  | nil => rfl
  | cons first rest ih =>
      have size : first.size = 3 := by
        rw [Instruction.size, boxes first List.mem_cons_self]
        rfl
      rw [sumOver_cons, ih fun instr member => boxes instr (List.mem_cons_of_mem _ member),
        size, List.length_cons]
      omega

theorem entrySize_eq (captured : Array Bool) :
    entrySize captured = 3 * (boxing captured.toList).length :=
  sumOver_boxes fun instr member => by rw [boxing_eq member]

/-- The finished code starts with the instructions that box the captured slots. -/
theorem decode_entry
    (finished : assembler.finish varCount argCount captured isClosure = .ok function)
    {index : Nat} {instr : Instruction}
    (found : (boxing captured.toList)[index]? = some instr) :
    function.code.decode (3 * index) = .ok instr := by
  obtain ⟨-, -, rfl⟩ := finish_eq_ok finished
  obtain ⟨inside, same⟩ := List.getElem?_eq_some_iff.mp found
  have place : (boxing captured.toList ++
      assembler.pending.toList.map (settle captured (assembler.target captured)))[index]? =
      some instr := by
    rw [List.getElem?_append_left inside, found]
  have before : ∀ item ∈ (boxing captured.toList).take index, item.op = .makeCell :=
    fun item member => by rw [boxing_eq (List.mem_of_mem_take member)]
  have here : 3 * index = sumOver Instruction.size ((boxing captured.toList ++
      assembler.pending.toList.map (settle captured (assembler.target captured))).take index) := by
    rw [List.take_append_of_le_length (Nat.le_of_lt inside), sumOver_boxes before,
      List.length_take, Nat.min_eq_left (Nat.le_of_lt inside)]
  rw [here]
  apply Code.decode_flatMap place
  have boxes : instr ∈ boxing captured.toList := same ▸ List.getElem_mem inside
  rw [boxing_eq boxes]
  exact ⟨fun none => (by cases none), fun _ => rfl⟩

end Assembler

end PocketScript
