import PocketScript.Proofs.Code.Verified

/-!
# How cells are gathered

Cells are pushed only to be captured. In code that gathers them (`Listing.Gathers`) the instructions
that push cells stand in a row, behind them comes the one that makes a closure of just these, and no
jump leads in between. Slots are boxed once, in front of everything that a jump may lead to.
-/

namespace PocketScript

theorem Opcode.goesOn_of_pushesCell {op : Opcode} (pushes : op.pushesCell = true) :
    op.goesOn = true := by
  cases op <;> first | rfl | cases pushes

theorem Instruction.effect_of_pushesCell {instr : Instruction}
    (pushes : instr.op.pushesCell = true) : instr.effect = 1 := by
  obtain ⟨op, a, b⟩ := instr
  cases op <;> first | rfl | cases pushes

/-- The number of cells that were pushed in a row, behind an instruction. -/
def Instruction.cellsAfter (count : Nat) (instr : Instruction) : Nat :=
  if instr.op.pushesCell then count + 1 else 0

namespace Listing

/-- The number of cells that the instructions right in front of an offset push. -/
def gathered (listing : Listing) (pc : Nat) : Nat :=
  ((listing.takeWhile (·.1 < pc)).map (·.2)).foldl Instruction.cellsAfter 0

/-- Whatever is gathered is captured by the closure that is made next. -/
structure Gathers (listing : Listing) : Prop where
  entry : listing.gathered 0 = 0
  next : ∀ offset instr, (offset, instr) ∈ listing →
    listing.gathered (offset + instr.size) =
      instr.cellsAfter (listing.gathered offset)
  only : ∀ offset instr, (offset, instr) ∈ listing → listing.gathered offset = 0 ∨
    instr.op.pushesCell = true ∨ instr.op = .makeClosure
  all : ∀ offset instr, (offset, instr) ∈ listing → instr.op = .makeClosure →
    instr.b.toNat = listing.gathered offset
  aside : ∀ offset instr, (offset, instr) ∈ listing → instr.op.isJump = true →
    listing.gathered instr.a.toNat = 0
  behind : ∀ offset instr, (offset, instr) ∈ listing → instr.op.isJump = true →
    ∀ earlier boxing, (earlier, boxing) ∈ listing → boxing.op = .makeCell →
      earlier < instr.a.toNat
  once : ∀ first one second two, (first, one) ∈ listing → one.op = .makeCell →
    (second, two) ∈ listing → two.op = .makeCell → one.a = two.a → first = second

/-- From an offset on the code pushes further cells, if any, and then makes a closure of just those
that are there, when there are so many at the offset. -/
inductive Captures (listing : Listing) : Nat → Nat → Prop
  | make (offset : Nat) (instr : Instruction) (member : (offset, instr) ∈ listing)
      (closure : instr.op = .makeClosure) : Captures listing offset instr.b.toNat
  | push (offset count : Nat) (instr : Instruction) (member : (offset, instr) ∈ listing)
      (pushes : instr.op.pushesCell = true)
      (captures : Captures listing (offset + instr.size) (count + 1)) :
      Captures listing offset count

/-- The instructions in front that box slots. -/
def prologue (listing : Listing) : Listing := listing.takeWhile (·.2.op = .makeCell)

variable {listing : Listing} {stackHigh offset count : Nat} {level cells : Nat → Nat}
  {instr : Instruction}

/-- In front of an instruction that has nothing to do with cells there are none. -/
theorem Gathers.none (gathers : listing.Gathers) (member : (offset, instr) ∈ listing)
    (pushes : instr.op.pushesCell = false) (captures : instr.op ≠ .makeClosure) :
    listing.gathered offset = 0 := by
  obtain none | others | closure := gathers.only offset instr member
  · exact none
  · exact absurd (pushes.symm.trans others) Bool.false_ne_true
  · exact absurd closure captures

/-- The code has an end. -/
theorem exists_bound (listing : Listing) : ∃ bound, ∀ entry ∈ listing, entry.1 ≤ bound := by
  induction listing with
  | nil => exact ⟨0, nofun⟩
  | cons first rest ih =>
      obtain ⟨bound, within⟩ := ih
      refine ⟨max first.1 bound, fun entry member => ?_⟩
      rcases List.mem_cons.mp member with rfl | later
      · exact Nat.le_max_left _ _
      · exact Nat.le_trans (within entry later) (Nat.le_max_right _ _)

/-- Whatever is gathered is captured. -/
theorem Gathers.captures (gathers : listing.Gathers)
    (leveled : listing.Leveled stackHigh level cells) (member : (offset, instr) ∈ listing)
    (some : listing.gathered offset ≠ 0) : listing.Captures offset (listing.gathered offset) := by
  obtain ⟨bound, within⟩ := exists_bound listing
  -- The instructions that push cells lead on towards the end of the code.
  induction ahead : bound + 1 - offset using Nat.strongRecOn
    generalizing offset instr with
  | _ ahead ih =>
    obtain none | pushes | closure := gathers.only offset instr member
    · exact absurd none some
    · obtain ⟨⟨follower, there⟩, -⟩ :=
        leveled.next offset instr member (Opcode.goesOn_of_pushesCell pushes)
      have next := gathers.next offset instr member
      rw [Instruction.cellsAfter, if_pos pushes] at next
      have positive : 0 < instr.size := instr.op.size_pos
      have inside := within _ member
      refine .push offset _ instr member pushes (next ▸ ih _ ?_ there ?_ rfl)
      · simp only at inside
        omega
      · rw [next]
        exact Nat.succ_ne_zero _
    · rw [← gathers.all offset instr member closure]
      exact .make offset instr member closure

/-- What is captured lies above what else is there. -/
theorem Captures.le_level (captures : listing.Captures offset count)
    (leveled : listing.Leveled stackHigh level cells) : count ≤ level offset := by
  induction captures with
  | make offset instr member closure =>
      have enough := leveled.needs offset instr member
      rw [Instruction.needs, closure] at enough
      exact enough
  | push offset count instr member pushes _ ih =>
      obtain ⟨-, next, -⟩ :=
        leveled.next offset instr member (Opcode.goesOn_of_pushesCell pushes)
      rw [Instruction.effect_of_pushesCell pushes] at next
      omega

/-- What is captured is known to be cells. -/
theorem Captures.le_cells (captures : listing.Captures offset count)
    (leveled : listing.Leveled stackHigh level cells) : count ≤ cells offset := by
  induction captures with
  | make offset instr member closure => exact leveled.captured offset instr member closure
  | push offset count instr member pushes _ ih =>
      obtain ⟨-, -, few⟩ :=
        leveled.next offset instr member (Opcode.goesOn_of_pushesCell pushes)
      rw [if_pos pushes] at few
      omega

end Listing

/-- Slots are boxed in front of the code only. -/
theorem FunctionDef.Verified.mem_prologue {program : Program} {function : FunctionDef}
    {listing : Listing} (verified : function.Verified program listing) {entry : Nat × Instruction} :
    entry ∈ listing.prologue ↔ entry ∈ listing ∧ entry.2.op = .makeCell := by
  obtain ⟨front, behind, rfl, boxes, others⟩ := verified.boxing
  have front' : ∀ entry ∈ front, decide (entry.2.op = .makeCell) = true := fun entry member =>
    decide_eq_true (boxes entry.1 entry.2 member)
  have behind' : behind.takeWhile (·.2.op = .makeCell) = [] := by
    cases behind with
    | nil => rfl
    | cons first rest =>
        have other := others first.1 first.2 List.mem_cons_self
        rw [List.takeWhile_cons, if_neg (by simpa using other)]
  rw [Listing.prologue, List.takeWhile_append_of_pos front', behind', List.append_nil]
  constructor
  · exact fun member => ⟨List.mem_append_left _ member, boxes entry.1 entry.2 member⟩
  · rintro ⟨member, box⟩
    exact (List.mem_append.mp member).resolve_right fun late => others entry.1 entry.2 late box

/-- The listing of the function's code gathers cells for closures only. -/
def FunctionDef.Gathers (function : FunctionDef) : Prop :=
  ∀ listing, function.code.disassemble = .ok listing → Listing.Gathers listing

/-- All functions of the program gather cells for closures only. -/
def Program.Gathers (program : Program) : Prop :=
  ∀ (index : Nat) function, program.functions[index]? = some function → function.Gathers

namespace Code

theorem map_snd_listed (start : Nat) (instructions : List Instruction) :
    (listed start instructions).map (·.2) = instructions := by
  induction instructions generalizing start with
  | nil => rfl
  | cons first rest ih => rw [listed, List.map_cons, ih]

/-- What is listed in front of an instruction are the instructions in front of it. -/
theorem takeWhile_listed (start : Nat) (instructions : List Instruction) {index : Nat}
    (inside : index ≤ instructions.length) :
    (listed start instructions).takeWhile
        (·.1 < start + sumOver Instruction.size (instructions.take index)) =
      listed start (instructions.take index) := by
  induction instructions generalizing start index with
  | nil =>
      rw [List.take_nil]
      rfl
  | cons first rest ih =>
      cases index with
      | zero =>
          have none : ¬ start < start := Nat.lt_irrefl start
          simp only [List.take_zero, sumOver_nil, Nat.add_zero, listed, List.takeWhile_cons,
            decide_eq_true_eq, none, if_false]
      | succ index =>
          have positive : 0 < first.size := first.op.size_pos
          rw [List.take_succ_cons, sumOver_cons, listed, listed, List.takeWhile_cons,
            if_pos (by simp only [decide_eq_true_eq]; omega), ← Nat.add_assoc,
            ih (start + first.size) (Nat.le_of_succ_le_succ inside)]

/-- The cells gathered in front of an instruction, counted along the instructions. -/
theorem gathered_listed (instructions : List Instruction) {index : Nat}
    (inside : index ≤ instructions.length) :
    Listing.gathered (listed 0 instructions)
        (sumOver Instruction.size (instructions.take index)) =
      (instructions.take index).foldl Instruction.cellsAfter 0 := by
  have front := takeWhile_listed 0 instructions inside
  rw [Nat.zero_add] at front
  rw [Listing.gathered, front, map_snd_listed]

end Code

end PocketScript
