import PocketScript.Proofs.Code.Listing

/-!
# Code and its instructions

Bytes are whole instructions, one behind the other, up to a place where they end or where no whole
instruction stands (`Code.exists_whole`). So code is listed exactly when it consists of whole
instructions, which then are what is listed, and otherwise the fault tells what is wrong at the first
place where there is none (`Code.disassemble_inverse`).
-/

namespace PocketScript

namespace Instruction

theorem operandBytes_operandOf (low high : UInt8) : operandBytes (operandOf low high) = [low, high] := by
  have lowBound := low.toNat_lt
  have highBound := high.toNat_lt
  have value : (operandOf low high).toNat = low.toNat + 256 * high.toNat := by
    rw [operandOf, UInt16.toNat_ofNat']
    omega
  have first : (low.toNat + 256 * high.toNat) % 256 = low.toNat := by omega
  have second : (low.toNat + 256 * high.toNat) / 256 = high.toNat := by omega
  rw [operandBytes, value, first, second, UInt8.ofNat_toNat, UInt8.ofNat_toNat]

end Instruction

namespace Code

/-- No whole instruction stands at the beginning of some bytes: the first one is no operation, or the
bytes end within its operands. -/
inductive Broken : List UInt8 → Fault → Prop
  | unknown (byte : UInt8) (rest : List UInt8) (none : Opcode.ofByte? byte = none) :
      Broken (byte :: rest) (.invalidOpcode byte)
  | cut (byte : UInt8) (op : Opcode) (rest : List UInt8) (known : Opcode.ofByte? byte = some op)
      (short : rest.length < 2 * op.arity) : Broken (byte :: rest) .invalidOperand

/-- At the beginning of some bytes there is a whole instruction, or there is none. -/
theorem whole_or_broken (byte : UInt8) (rest : List UInt8) :
    (∃ instr : Instruction, instr.IsCanonical ∧
      ∃ behind, byte :: rest = instr.encode ++ behind) ∨ ∃ fault, Broken (byte :: rest) fault := by
  cases known : Opcode.ofByte? byte with
  | none => exact .inr ⟨_, .unknown byte rest known⟩
  | some op =>
    by_cases short : rest.length < 2 * op.arity
    · exact .inr ⟨_, .cut byte op rest known short⟩
    · refine .inl ?_
      obtain rfl := Opcode.toByte_of_ofByte? known
      have few := Instruction.arity_le op
      rcases (by omega : op.arity = 0 ∨ op.arity = 1 ∨ op.arity = 2) with none | one | two
      · refine ⟨⟨op, 0, 0⟩, ⟨fun _ => rfl, fun _ => rfl⟩, rest, ?_⟩
        simp only [Instruction.encode, none, List.singleton_append]
      · rw [one] at short
        obtain ⟨low, high, behind, rfl⟩ : ∃ low high behind, rest = low :: high :: behind := by
          rcases rest with _ | ⟨low, _ | ⟨high, behind⟩⟩
          · simp at short
          · simp at short
          · exact ⟨low, high, behind, rfl⟩
        refine ⟨⟨op, Instruction.operandOf low high, 0⟩,
          ⟨fun none => absurd (one.symm.trans none) (by decide), fun _ => rfl⟩, behind, ?_⟩
        simp only [Instruction.encode, one, Instruction.operandBytes_operandOf, List.cons_append,
          List.nil_append]
      · rw [two] at short
        obtain ⟨low, high, low', high', behind, rfl⟩ :
            ∃ low high low' high' behind, rest = low :: high :: low' :: high' :: behind := by
          rcases rest with _ | ⟨low, _ | ⟨high, _ | ⟨low', _ | ⟨high', behind⟩⟩⟩⟩
          · simp at short
          · simp at short
          · simp at short
          · simp at short
          · exact ⟨low, high, low', high', behind, rfl⟩
        refine ⟨⟨op, Instruction.operandOf low high, Instruction.operandOf low' high'⟩,
          ⟨fun none => absurd (two.symm.trans none) (by decide),
            fun few => absurd (two ▸ few) (by decide)⟩, behind, ?_⟩
        simp only [Instruction.encode, two, Instruction.operandBytes_operandOf, List.cons_append,
          List.nil_append]

/-- Bytes are whole instructions up to their end, or up to a place where there is none. -/
theorem exists_whole (bytes : List UInt8) :
    ∃ (instructions : List Instruction) (tail : List UInt8),
      (∀ instr ∈ instructions, instr.IsCanonical) ∧
        bytes = instructions.flatMap Instruction.encode ++ tail ∧
          (tail = [] ∨ ∃ fault, Broken tail fault) := by
  induction many : bytes.length using Nat.strongRecOn generalizing bytes with
  | _ count ih =>
    cases bytes with
    | nil => exact ⟨[], [], List.forall_mem_nil _, rfl, .inl rfl⟩
    | cons byte rest =>
      obtain ⟨first, canonical, behind, split⟩ | broken := whole_or_broken byte rest
      · have positive : 0 < first.size := first.op.size_pos
        have fewer : behind.length < count := by
          rw [← many, split, List.length_append, Instruction.length_encode]
          omega
        obtain ⟨others, tail, canonical', rfl, ends⟩ := ih behind.length fewer behind rfl
        refine ⟨first :: others, tail, fun instr member => ?_, ?_, ends⟩
        · rcases List.mem_cons.mp member with rfl | later
          · exact canonical
          · exact canonical' instr later
        · rw [split, List.flatMap_cons, List.append_assoc]
      · exact ⟨[], byte :: rest, List.forall_mem_nil _, rfl, .inr broken⟩

/-- An operand is read, or the code ends before it does. -/
theorem operandAt_cases (code : Code) (position : Nat) :
    (∃ operand, code.operandAt position = .ok operand ∧ position + 1 < code.size) ∨
      code.operandAt position = .error .invalidOperand := by
  cases there : code.operandAt position with
  | ok operand => exact .inl ⟨operand, rfl, operandAt_eq_ok there⟩
  | error fault =>
    unfold operandAt at there
    split at there
    · cases there
    · cases there
      exact .inr rfl

/-- Where no whole instruction stands, none is decoded. -/
theorem decode_broken (front : List UInt8) {tail : List UInt8} {fault : Fault}
    (broken : Broken tail fault) : decode (front ++ tail).toArray front.length = .error fault := by
  have first : ∀ byte rest, tail = byte :: rest → (front ++ tail).toArray[front.length]? = some byte := by
    rintro byte rest rfl
    rw [List.getElem?_toArray, List.getElem?_append_right (Nat.le_refl _), Nat.sub_self]
    rfl
  cases broken with
  | unknown byte rest none =>
    unfold decode
    rw [first byte rest rfl]
    simp only [none]
  | cut byte op rest known short =>
    have few := Instruction.arity_le op
    have size : (front ++ byte :: rest).toArray.size = front.length + rest.length + 1 := by
      rw [List.size_toArray, List.length_append, List.length_cons, Nat.add_assoc]
    have some : 1 ≤ op.arity := by omega
    unfold decode
    rw [first byte rest rfl]
    simp only [known, if_pos some]
    obtain ⟨operand, read, inside⟩ | missing :=
      operandAt_cases (front ++ byte :: rest).toArray (front.length + 1)
    · -- The first operand is there, so it is the second one that is not.
      have two : 2 ≤ op.arity := by omega
      obtain ⟨_, -, inside'⟩ | missing :=
        operandAt_cases (front ++ byte :: rest).toArray (front.length + 3)
      · omega
      · simp only [read, if_pos two, missing]
        rfl
    · rw [missing]
      rfl

/-- Code that goes on with whole instructions up to a place where there is none is not listed. -/
theorem disassemble_broken {instructions : List Instruction}
    (canonical : ∀ instr ∈ instructions, instr.IsCanonical) {tail : List UInt8}
    {fault : Fault} (broken : Broken tail fault) :
    disassemble (instructions.flatMap Instruction.encode ++ tail).toArray = .error fault := by
  have length := Instruction.length_flatMap_encode instructions
  have failed := decode_broken (instructions.flatMap Instruction.encode) broken
  have behind := disassembleFrom_behind [] canonical tail []
  rw [List.nil_append, List.length_nil, Nat.zero_add] at behind
  have more : 0 < tail.length := by
    cases broken <;> exact Nat.succ_pos _
  have inside : sumOver Instruction.size instructions <
      (instructions.flatMap Instruction.encode ++ tail).toArray.size := by
    rw [List.size_toArray, List.length_append, length]
    omega
  rw [length] at failed
  unfold disassemble
  rw [behind, disassembleFrom, if_pos inside, failed]

/-- **Listing code and writing instructions are inverse to each other.** Code is listed when, and only
when, it consists of whole instructions whose unused operands are zero, and then just these are listed,
each with the size of all that come before it as its offset. Otherwise whole instructions lead to a
first place where there is none, and the fault tells why. -/
theorem disassemble_inverse (code : Code) :
    (∀ listing, code.disassemble = .ok listing ↔
      ∃ instructions : List Instruction, (∀ instr ∈ instructions, instr.IsCanonical) ∧
        code.toList = instructions.flatMap Instruction.encode ∧
          listing = instructions.mapIdx fun index instr =>
            (sumOver Instruction.size (instructions.take index), instr)) ∧
      ∀ fault, code.disassemble = .error fault ↔
        ∃ (instructions : List Instruction) (tail : List UInt8),
          (∀ instr ∈ instructions, instr.IsCanonical) ∧
            code.toList = instructions.flatMap Instruction.encode ++ tail ∧ Broken tail fault := by
  have lists : ∀ {instructions : List Instruction},
      (∀ instr ∈ instructions, instr.IsCanonical) →
        code.toList = instructions.flatMap Instruction.encode →
          code.disassemble = .ok (instructions.mapIdx fun index instr =>
            (sumOver Instruction.size (instructions.take index), instr)) := by
    intro instructions canonical bytes
    have offsets := listed_eq_mapIdx 0 instructions
    simp only [Nat.zero_add] at offsets
    rw [← offsets, ← disassemble_flatMap canonical, ← bytes, Array.toArray_toList]
  have fails : ∀ {instructions : List Instruction} {tail : List UInt8} {fault : Fault},
      (∀ instr ∈ instructions, instr.IsCanonical) →
        code.toList = instructions.flatMap Instruction.encode ++ tail → Broken tail fault →
          code.disassemble = .error fault := by
    intro instructions tail fault canonical bytes broken
    rw [← disassemble_broken canonical broken, ← bytes, Array.toArray_toList]
  obtain ⟨instructions, tail, canonical, bytes, ends⟩ := exists_whole code.toList
  refine ⟨fun listing => ⟨fun done => ?_, ?_⟩, fun fault => ⟨fun failed => ?_, ?_⟩⟩
  · obtain rfl | ⟨fault, broken⟩ := ends
    · rw [List.append_nil] at bytes
      rw [lists canonical bytes] at done
      injection done with done
      exact ⟨instructions, canonical, bytes, done.symm⟩
    · rw [fails canonical bytes broken] at done
      cases done
  · rintro ⟨instructions, canonical, bytes, rfl⟩
    exact lists canonical bytes
  · obtain rfl | ⟨fault', broken⟩ := ends
    · rw [List.append_nil] at bytes
      rw [lists canonical bytes] at failed
      cases failed
    · rw [fails canonical bytes broken] at failed
      injection failed with same
      exact ⟨instructions, tail, canonical, bytes, same ▸ broken⟩
  · rintro ⟨instructions, tail, canonical, bytes, broken⟩
    exact fails canonical bytes broken

end Code

end PocketScript
