import Mathlib.Data.List.Induction
import PocketScript.Proofs.Code.Listing

/-!
# Symbolic programs

An assembler is told what to do by directives: to add an instruction or a jump, to name a label or to
place it, and how deep the stack is. What the finished code should be can be said of the directives
alone, with numbers that have no bound: one instruction that boxes each captured slot, in ascending
order, and then what was added, where an access to a captured slot goes to its cell and a jump leads to
the offset of the instruction that its label was placed in front of. This is what the finished code is
listed as, and it can always be finished unless the stack or the code is too large
(`Assembler.finish_preserves`).
-/

namespace PocketScript

/-- What an assembler is told. -/
inductive Directive where
  | emit (op : Opcode) (a b : UInt16)
  | emitJump (op : Opcode) (target : Label)
  | newLabel
  | placeLabel (label : Label)
  | setDepth (depth : Int)
  deriving DecidableEq

namespace Directive

/-- The instruction that is added. -/
def emitted? : Directive → Option PendingInstruction
  | emit op a b => some ⟨op, a, b, none⟩
  | emitJump op target => some ⟨op, 0, 0, some target⟩
  | newLabel | placeLabel _ | setDepth _ => none

/-- The label that is used. -/
def used? : Directive → Option Label
  | emitJump _ target => some target
  | emit _ _ _ | newLabel | placeLabel _ | setDepth _ => none

/-- How deep the stack is afterwards. -/
def depthAfter (depth : Int) : Directive → Int
  | emit op a b => depth + op.stackEffect a b
  | emitJump op _ => depth + op.stackEffect 0 0
  | newLabel | placeLabel _ => depth
  | setDepth depth => depth

end Directive

/-- What an assembler is told from the beginning on. -/
abbrev Directives := List Directive

namespace Directives

/-- All instructions that are added. -/
def emitted (directives : Directives) : List PendingInstruction :=
  directives.filterMap Directive.emitted?

/-- Labels are placed only when they have been named; `named` of them were before. -/
def namesFirst (named : Nat) : Directives → Bool
  | [] => true
  | .newLabel :: rest => namesFirst (named + 1) rest
  | .placeLabel label :: rest => label.index < named && namesFirst named rest
  | .emit _ _ _ :: rest | .emitJump _ _ :: rest | .setDepth _ :: rest => namesFirst named rest

/-- Labels are named before they are placed, and all that are used are placed. -/
structure Orderly (directives : Directives) : Prop where
  named : directives.namesFirst 0 = true
  placed : ∀ directive ∈ directives, ∀ label ∈ directive.used?, .placeLabel label ∈ directives

/-- The depth of the stack behind all directives. -/
def depth (directives : Directives) : Int := directives.foldl Directive.depthAfter 0

/-- The stack has the depth at the beginning, or behind an instruction that is added. -/
def Tracks (directives : Directives) (depth : Int) : Prop :=
  depth = 0 ∨ ∃ before directive after, directives = before ++ directive :: after ∧
    directive.emitted?.isSome = true ∧ depth = Directives.depth (before ++ [directive])

end Directives

/-- An instruction at an offset, with operands that may be any numbers. -/
structure Line where
  offset : Nat
  op : Opcode
  a : Nat
  b : Nat
  deriving DecidableEq, Repr

/-- The line of a listed instruction. -/
def Line.ofListed (entry : Nat × Instruction) : Line :=
  ⟨entry.1, entry.2.op, entry.2.a.toNat, entry.2.b.toNat⟩

namespace Directives

/-- The captured slots in ascending order. -/
def capturedSlots (captured : Array Bool) : List Nat :=
  (List.range captured.size).filter fun slot => captured[slot]? = some true

/-- An access to a captured slot goes to its cell. -/
def finalOp (captured : Array Bool) (instr : PendingInstruction) : Opcode :=
  if captured[instr.a.toNat]? = some true then
    match instr.op with
    | .loadLocal => .loadCell
    | .storeLocal => .storeCell
    | op => op
  else instr.op

/-- The first operand of an instruction whose operation takes one: a label stands for its place. -/
def finalOperand (place : Label → Nat) (instr : PendingInstruction) : Nat :=
  if 1 ≤ instr.op.arity then
    match instr.target with
    | none => instr.a.toNat
    | some label => place label
  else 0

/-- The offset of an added instruction, behind those that box slots and those added before it. -/
def offset (captured : Array Bool) (directives : Directives) (index : Nat) : Nat :=
  3 * (capturedSlots captured).length + sumOver (·.op.size) (directives.emitted.take index)

/-- The symbolic program: a box for each captured slot, and the instructions that were added. -/
def lines (captured : Array Bool) (place : Label → Nat) (directives : Directives) : List Line :=
  ((capturedSlots captured).mapIdx fun index slot => ⟨3 * index, .makeCell, slot, 0⟩) ++
    directives.emitted.mapIdx fun index instr =>
      ⟨directives.offset captured index, finalOp captured instr,
        finalOperand place instr, if 2 ≤ instr.op.arity then instr.b.toNat else 0⟩

/-- The number of bytes of the symbolic program. -/
def codeSize (captured : Array Bool) (directives : Directives) : Nat :=
  directives.offset captured directives.emitted.length

/-- Every label has the offset of the instruction that it was last placed in front of. -/
def Places (captured : Array Bool) (directives : Directives) (place : Label → Nat) : Prop :=
  ∀ before label after, directives = before ++ .placeLabel label :: after →
    .placeLabel label ∉ after → place label = directives.offset captured (emitted before).length

end Directives

namespace Assembler

variable {assembler : Assembler} {directives : Directives} {captured : Array Bool}

def perform (assembler : Assembler) : Directive → Assembler
  | .emit op a b => assembler.emit op a b
  | .emitJump op target => assembler.emitJump op target
  | .newLabel => assembler.newLabel.2
  | .placeLabel label => assembler.placeLabel label
  | .setDepth depth => assembler.setDepth depth

/-- An assembler that has been told all of this. -/
def told (directives : Directives) : Assembler := directives.foldl perform {}

/-! ## What an assembler collects -/

theorem pending_foldl (assembler : Assembler) (directives : Directives) :
    (directives.foldl perform assembler).pending.toList =
      assembler.pending.toList ++ directives.emitted := by
  induction directives generalizing assembler with
  | nil => exact (List.append_nil _).symm
  | cons directive rest ih =>
    rw [List.foldl_cons, ih]
    cases directive with
    | emit op a b => simp only [perform, emit, push, Array.toList_push, List.append_assoc]; rfl
    | emitJump op target =>
        simp only [perform, emitJump, push, Array.toList_push, List.append_assoc]; rfl
    | newLabel | placeLabel _ | setDepth _ => rfl

theorem pending_told (directives : Directives) :
    (told directives).pending.toList = directives.emitted :=
  pending_foldl {} directives

theorem told_concat (directives : Directives) (directive : Directive) :
    told (directives ++ [directive]) = (told directives).perform directive :=
  List.foldl_append

theorem told_append (first second : Directives) :
    told (first ++ second) = second.foldl perform (told first) :=
  List.foldl_append

theorem depth_told (directives : Directives) : (told directives).depth = directives.depth := by
  induction directives using List.reverseRecOn with
  | nil => rfl
  | append_singleton before directive ih =>
    rw [told_concat, Directives.depth, List.foldl_append]
    change _ = Directive.depthAfter (Directives.depth before) directive
    rw [← ih]
    cases directive <;> rfl

end Assembler

namespace Directives

variable {directives : Directives} {directive : Directive}

/-- A further directive leads to a further depth when it adds an instruction. -/
theorem tracks_concat {depth : Int} :
    (directives ++ [directive]).Tracks depth ↔ directives.Tracks depth ∨
      directive.emitted?.isSome = true ∧ depth = Directives.depth (directives ++ [directive]) := by
  constructor
  · rintro (start | ⟨before, other, after, split, emits, same⟩)
    · exact .inl (.inl start)
    · rcases List.eq_nil_or_concat after with rfl | ⟨after, last, rfl⟩
      · obtain ⟨rfl, rfl⟩ := List.append_singleton_inj.mp split
        exact .inr ⟨emits, same⟩
      · rw [List.concat_eq_append, ← List.cons_append, ← List.append_assoc] at split
        obtain ⟨rfl, -⟩ := List.append_singleton_inj.mp split
        exact .inl (.inr ⟨before, other, after, rfl, emits, same⟩)
  · rintro ((start | ⟨before, other, after, rfl, emits, same⟩) | ⟨emits, same⟩)
    · exact .inl start
    · exact .inr ⟨before, other, after ++ [directive], by simp, emits, same⟩
    · exact .inr ⟨directives, directive, [], rfl, emits, same⟩

end Directives

namespace Assembler

variable {directives : Directives}

/-- The largest depth that an assembler has tracked is one that was tracked, and none was larger. -/
theorem maxDepth_told (directives : Directives) :
    directives.Tracks (told directives).maxDepth ∧
      ∀ depth, directives.Tracks depth → depth ≤ (told directives).maxDepth := by
  induction directives using List.reverseRecOn with
  | nil =>
    refine ⟨.inl rfl, ?_⟩
    rintro depth (rfl | ⟨before, directive, after, impossible, -⟩)
    · exact Int.le_refl _
    · cases before <;> cases impossible
  | append_singleton before directive ih =>
    obtain ⟨reached, largest⟩ := ih
    -- An instruction that is added leads to the depth behind it, anything else to no other depth.
    have adds : directive.emitted?.isSome = true →
        (told (before ++ [directive])).maxDepth =
          max (told before).maxDepth (Directives.depth (before ++ [directive])) := by
      intro emits
      rw [← depth_told, told_concat]
      cases directive with
      | emit op a b => rfl
      | emitJump op target => rfl
      | newLabel | placeLabel _ | setDepth _ => cases emits
    have keeps : directive.emitted?.isSome ≠ true →
        (told (before ++ [directive])).maxDepth = (told before).maxDepth := by
      intro silent
      rw [told_concat]
      cases directive with
      | emit op a b => exact absurd rfl silent
      | emitJump op target => exact absurd rfl silent
      | newLabel | placeLabel _ | setDepth _ => rfl
    by_cases emits : directive.emitted?.isSome = true
    · rw [adds emits]
      refine ⟨Directives.tracks_concat.mpr ?_, fun depth tracked => ?_⟩
      · rcases Int.le_total (told before).maxDepth (Directives.depth (before ++ [directive]))
          with less | more
        · exact .inr ⟨emits, Int.max_eq_right less⟩
        · exact .inl ((Int.max_eq_left more).symm ▸ reached)
      · obtain old | ⟨-, rfl⟩ := Directives.tracks_concat.mp tracked
        · exact Int.le_trans (largest depth old) (Int.le_max_left _ _)
        · exact Int.le_max_right _ _
    · rw [keeps emits]
      refine ⟨Directives.tracks_concat.mpr (.inl reached), fun depth tracked => ?_⟩
      obtain old | ⟨impossible, -⟩ := Directives.tracks_concat.mp tracked
      · exact largest depth old
      · exact absurd impossible emits

/-! ## Labels -/

/-- A place is known until the label is placed again. -/
theorem labels_foldl {label : Label} {index : Nat} (again : .placeLabel label ∉ directives)
    {assembler : Assembler} (placed : assembler.labels[label.index]? = some (some index)) :
    (directives.foldl perform assembler).labels[label.index]? = some (some index) := by
  induction directives generalizing assembler with
  | nil => exact placed
  | cons directive rest ih =>
    obtain ⟨other, others⟩ := not_or.mp fun here => again (List.mem_cons.mpr here)
    refine ih others ?_
    cases directive with
    | emit _ _ _ | emitJump _ _ | setDepth _ => exact placed
    | newLabel =>
        obtain ⟨inside, -⟩ := Array.getElem?_eq_some_iff.mp placed
        exact (Array.getElem?_push_lt inside).trans
          ((Array.getElem?_eq_getElem inside).symm.trans placed)
    | placeLabel another =>
        have differs : another.index ≠ label.index := by
          intro same
          obtain ⟨index⟩ := another
          obtain ⟨index'⟩ := label
          obtain rfl : index = index' := same
          exact other rfl
        exact (Array.getElem?_setIfInBounds_ne differs).trans placed

theorem size_labels_foldl (assembler : Assembler) (directives : Directives) :
    (directives.foldl perform assembler).labels.size =
      assembler.labels.size + directives.count .newLabel := by
  induction directives generalizing assembler with
  | nil => rfl
  | cons directive rest ih =>
    rw [List.foldl_cons, ih]
    cases directive with
    | newLabel =>
        rw [List.count_cons_self]
        simp only [perform, newLabel, Array.size_push]
        omega
    | placeLabel label =>
        rw [List.count_cons_of_ne (by simp)]
        simp only [perform, placeLabel, Array.size_setIfInBounds]
    | emit _ _ _ | emitJump _ _ | setDepth _ =>
        rw [List.count_cons_of_ne (by simp)]
        rfl

end Assembler

theorem Directives.lt_of_namesFirst {before after : Directives} {label : Label} {named : Nat}
    (orderly : namesFirst named (before ++ .placeLabel label :: after) = true) :
    label.index < named + before.count .newLabel := by
  induction before generalizing named with
  | nil =>
    obtain ⟨known, -⟩ := Bool.and_eq_true_iff.mp orderly
    exact of_decide_eq_true known
  | cons directive rest ih =>
    cases directive with
    | newLabel =>
        have := ih orderly
        rw [List.count_cons_self]
        omega
    | placeLabel other =>
        rw [List.count_cons_of_ne (by simp)]
        exact ih (Bool.and_eq_true_iff.mp orderly).2
    | emit _ _ _ | emitJump _ _ | setDepth _ =>
        rw [List.count_cons_of_ne (by simp)]
        exact ih orderly

namespace Assembler

/-- A label that was named stands for the place where it was placed last. -/
theorem labels_told {directives before after : Directives} {label : Label}
    (orderly : directives.Orderly) (split : directives = before ++ .placeLabel label :: after)
    (last : .placeLabel label ∉ after) :
    (told directives).labels[label.index]? = some (some (Directives.emitted before).length) := by
  subst split
  have named := Directives.lt_of_namesFirst orderly.named
  have inside : label.index < (told before).labels.size := by
    have size : (told before).labels.size = 0 + before.count .newLabel :=
      size_labels_foldl {} before
    rw [size]
    exact named
  rw [told_append, List.foldl_cons]
  refine labels_foldl last ?_
  change ((told before).labels.setIfInBounds label.index
    (some (told before).pending.size))[label.index]? = _
  rw [Array.getElem?_setIfInBounds_self_of_lt inside, ← Array.length_toList, pending_told]

end Assembler

/-! ## The finished code -/

namespace Instruction

/-- The instruction without operands that its operation does not take. -/
def trimmed (instr : Instruction) : Instruction where
  op := instr.op
  a := if 1 ≤ instr.op.arity then instr.a else 0
  b := if 2 ≤ instr.op.arity then instr.b else 0

theorem isCanonical_trimmed (instr : Instruction) : instr.trimmed.IsCanonical := by
  refine ⟨fun none => if_neg ?_, fun few => if_neg (Nat.not_le.mpr (Nat.lt_succ_of_le few))⟩
  have none : instr.op.arity = 0 := none
  omega

/-- Only operands that the operation takes are written. -/
theorem encode_trimmed (instr : Instruction) :
    instr.trimmed.encode = instr.encode := by
  have few := arity_le instr.op
  rcases (by omega : instr.op.arity = 0 ∨ instr.op.arity = 1 ∨ instr.op.arity = 2)
    with none | one | two
  · simp only [encode, trimmed, none]
  · simp only [encode, trimmed, one, Nat.le_refl, if_true]
  · simp only [encode, trimmed, two, Nat.le_refl, if_true, Nat.reduceLeDiff]

end Instruction

namespace Assembler

variable {directives : Directives} {captured : Array Bool}

/-- Boxing takes one instruction for each captured slot, in ascending order. -/
theorem boxing_eq_map (captured : Array Bool) :
    boxing captured.toList = (Directives.capturedSlots captured).map fun slot =>
      ⟨.makeCell, UInt16.ofNat slot, 0⟩ := by
  have slots : ∀ (flags : List Bool) (start : Nat),
      ((flags.zipIdx start).filter (·.1)).map (·.2) =
        (List.range' start flags.length).filter fun slot => flags[slot - start]? = some true := by
    intro flags
    induction flags with
    | nil => intro start; rfl
    | cons flag rest ih =>
      intro start
      have later : (List.range' (start + 1) rest.length).filter
            (fun slot => (flag :: rest)[slot - start]? = some true) =
          (List.range' (start + 1) rest.length).filter
            (fun slot => rest[slot - (start + 1)]? = some true) := by
        refine List.filter_congr fun slot member => ?_
        have beyond := (List.mem_range'_1.mp member).1
        rw [show slot - start = slot - (start + 1) + 1 by omega, List.getElem?_cons_succ]
      rw [List.zipIdx_cons, List.length_cons, List.range'_succ, List.filter_cons, List.filter_cons,
        later, ← ih, Nat.sub_self, List.getElem?_cons_zero]
      cases flag <;> rfl
  have told := slots captured.toList 0
  rw [← List.range_eq_range'] at told
  unfold boxing Directives.capturedSlots
  simp only [Nat.sub_zero, Array.length_toList, Array.getElem?_toList] at told
  rw [← told, List.map_map]
  rfl

theorem entrySize_told (captured : Array Bool) :
    entrySize captured = 3 * (Directives.capturedSlots captured).length := by
  rw [entrySize_eq, boxing_eq_map, List.length_map]

theorem offset_told (captured : Array Bool) (directives : Directives) (index : Nat) :
    (told directives).offset captured index = directives.offset captured index := by
  rw [offset, entrySize_told, pending_told]
  rfl

theorem places_told (orderly : directives.Orderly) :
    directives.Places captured ((told directives).target captured) := by
  intro before label after split last
  rw [target_eq captured (labels_told orderly split last), offset_told]

theorem finalOp_eq (captured : Array Bool) (instr : PendingInstruction) :
    Directives.finalOp captured instr = settledOp captured instr := by
  have known : captured.getD instr.a.toNat false = true ↔
      captured[instr.a.toNat]? = some true := by
    rw [Array.getD_eq_getD_getElem?]
    cases captured[instr.a.toNat]? <;> simp
  obtain ⟨op, a, b, target⟩ := instr
  unfold Directives.finalOp settledOp
  by_cases isCaptured : captured[a.toNat]? = some true
  · cases op <;> simp only [isCaptured, known.mpr isCaptured, if_true]
  · have not : captured.getD a.toNat false = false :=
      eq_false_of_ne_true fun there => isCaptured (known.mp there)
    cases op <;> simp only [isCaptured, not, if_false, Bool.false_eq_true]

/-- The final form of an instruction as a line of the symbolic program. -/
theorem ofListed_settle (captured : Array Bool) {place : Label → Nat} {offset : Nat}
    {instr : PendingInstruction}
    (small : ∀ label, instr.target = some label → place label ≤ 65535) :
    Line.ofListed (offset, (settle captured place instr).trimmed) =
      ⟨offset, Directives.finalOp captured instr, Directives.finalOperand place instr,
        if 2 ≤ instr.op.arity then instr.b.toNat else 0⟩ := by
  have operand : (match instr.target with
      | none => instr.a
      | some label => UInt16.ofNat (place label)).toNat =
        match instr.target with
        | none => instr.a.toNat
        | some label => place label := by
    cases uses : instr.target with
    | none => rfl
    | some label =>
        have bound := small label uses
        simp only [UInt16.toNat_ofNat']
        omega
  rw [settle_eq, Line.ofListed, Instruction.trimmed, finalOp_eq, Directives.finalOperand]
  simp only [arity_settledOp, ← operand]
  congr 1 <;> split <;> rfl

/-! ## The listing -/

/-- The lines of listed instructions, each at the offset behind those before it. -/
theorem map_ofListed_listed {α : Type} {start : Nat} {items : List α} {form : α → Instruction}
    {line : Nat → α → Line}
    (lines : ∀ index (inside : index < items.length),
      Line.ofListed (start + sumOver Instruction.size ((items.take index).map form),
        form items[index]) = line index items[index]) :
    (Code.listed start (items.map form)).map Line.ofListed = items.mapIdx line := by
  rw [Code.listed_eq_mapIdx]
  refine List.ext_getElem (by simp) fun index inside inside' => ?_
  rw [List.length_mapIdx] at inside'
  simp only [List.getElem_map, List.getElem_mapIdx, ← List.map_take]
  exact lines index inside'

/-- The first instructions of finished code are listed as boxes for the captured slots. -/
theorem listed_boxing (few : captured.size ≤ 65535) :
    (Code.listed 0 (boxing captured.toList)).map Line.ofListed =
      (Directives.capturedSlots captured).mapIdx fun index slot =>
        ⟨3 * index, .makeCell, slot, 0⟩ := by
  rw [boxing_eq_map]
  refine map_ofListed_listed fun index inside => ?_
  have slot : (Directives.capturedSlots captured)[index] < captured.size :=
    List.mem_range.mp (List.mem_filter.mp (List.getElem_mem inside)).1
  have boxes : ∀ instr ∈ ((Directives.capturedSlots captured).take index).map fun slot =>
      (⟨.makeCell, UInt16.ofNat slot, 0⟩ : Instruction), instr.op = .makeCell := by
    intro instr member
    obtain ⟨slot, -, rfl⟩ := List.mem_map.mp member
    rfl
  rw [sumOver_boxes boxes, List.length_map, List.length_take, Nat.min_eq_left (Nat.le_of_lt inside)]
  simp only [Line.ofListed, Nat.zero_add, UInt16.toNat_ofNat']
  rw [Nat.mod_eq_of_lt (by omega)]
  rfl

/-- The sizes of instructions in their final form are those of the instructions that were added. -/
theorem sumOver_map_trimmed (captured : Array Bool) (place : Label → Nat)
    (instructions : List PendingInstruction) :
    sumOver Instruction.size (instructions.map fun instr =>
        (settle captured place instr).trimmed) = sumOver (·.op.size) instructions := by
  induction instructions with
  | nil => rfl
  | cons first rest ih =>
    rw [List.map_cons, sumOver_cons, sumOver_cons, ih, ← settle_size captured place first]
    rfl

/-- Behind them what was collected is listed in its final form. -/
theorem listed_pending (captured : Array Bool) (assembler : Assembler)
    (small : assembler.offset captured assembler.pending.size ≤ 65535) :
    (Code.listed (entrySize captured) (assembler.pending.toList.map fun instr =>
        (settle captured (assembler.target captured) instr).trimmed)).map Line.ofListed =
      assembler.pending.toList.mapIdx fun index instr =>
        ⟨assembler.offset captured index, Directives.finalOp captured instr,
          Directives.finalOperand (assembler.target captured) instr,
          if 2 ≤ instr.op.arity then instr.b.toNat else 0⟩ := by
  refine map_ofListed_listed fun index inside => ?_
  rw [sumOver_map_trimmed]
  exact ofListed_settle captured fun label _ =>
    Nat.le_trans (target_le captured assembler label) small

/-- The finished code is made of instructions without operands that their operations do not take. -/
theorem flatMap_encode_settled (captured : Array Bool) (assembler : Assembler) :
    (assembler.settled captured).flatMap Instruction.encode =
      (boxing captured.toList ++ assembler.pending.toList.map fun instr =>
        (settle captured (assembler.target captured) instr).trimmed).flatMap
          Instruction.encode := by
  rw [settled, List.flatMap_append, List.flatMap_append, List.flatMap_map, List.flatMap_map]
  simp only [Instruction.encode_trimmed]

/-- The finished code is listed as a box for each captured slot, and what was collected. -/
theorem disassemble_settled (captured : Array Bool) (assembler : Assembler)
    (few : captured.size ≤ 65535)
    (small : assembler.offset captured assembler.pending.size ≤ 65535) :
    ∃ listing, Code.disassemble
        ((assembler.settled captured).flatMap Instruction.encode).toArray = .ok listing ∧
      listing.map Line.ofListed =
        ((Directives.capturedSlots captured).mapIdx fun index slot =>
          ⟨3 * index, .makeCell, slot, 0⟩) ++
        assembler.pending.toList.mapIdx fun index instr =>
          ⟨assembler.offset captured index, Directives.finalOp captured instr,
            Directives.finalOperand (assembler.target captured) instr,
            if 2 ≤ instr.op.arity then instr.b.toNat else 0⟩ := by
  refine ⟨Code.listed 0 (boxing captured.toList ++ assembler.pending.toList.map fun instr =>
    (settle captured (assembler.target captured) instr).trimmed), ?_, ?_⟩
  · rw [flatMap_encode_settled]
    apply Code.disassemble_flatMap
    intro instr member
    obtain boxes | added := List.mem_append.mp member
    · obtain ⟨slot, -, rfl⟩ := mem_boxing.mp boxes
      exact ⟨fun none => (by cases none), fun _ => rfl⟩
    · obtain ⟨pending, -, rfl⟩ := List.mem_map.mp added
      exact Instruction.isCanonical_trimmed _
  · rw [Code.listed_append, List.map_append, listed_boxing few, Nat.zero_add]
    exact congrArg _ (listed_pending captured assembler small)

/-- What was told is listed as the symbolic program. -/
theorem disassemble_told (few : captured.size ≤ 65535)
    (small : directives.codeSize captured ≤ 65535) :
    ∃ listing, Code.disassemble
        (((told directives).settled captured).flatMap Instruction.encode).toArray = .ok listing ∧
      listing.map Line.ofListed =
        directives.lines captured ((told directives).target captured) := by
  have size : (told directives).offset captured (told directives).pending.size =
      directives.codeSize captured := by
    rw [offset_told, ← Array.length_toList, pending_told]
    rfl
  obtain ⟨listing, listed, lines⟩ :=
    disassemble_settled captured (told directives) few (Nat.le_trans (Nat.le_of_eq size) small)
  simp only [pending_told, offset_told] at lines
  exact ⟨listing, listed, lines⟩

/-- The finished code has the size of the symbolic program. -/
theorem size_settled (captured : Array Bool) (directives : Directives) :
    (((told directives).settled captured).flatMap Instruction.encode).toArray.size =
      directives.codeSize captured := by
  have all : ((told directives).settled captured).take
      ((boxing captured.toList).length + directives.emitted.length) =
        (told directives).settled captured := by
    refine List.take_of_length_le (Nat.le_of_eq ?_)
    rw [settled, List.length_append, List.length_map, pending_told]
  rw [List.size_toArray, Instruction.length_flatMap_encode, Directives.codeSize, ← offset_told,
    ← sumOver_take_settled]
  exact congrArg _ all.symm

/-- Finishing a function preserves its symbolic program. When labels are named before they are placed
and all that are used are placed, the finished code is listed as a box for each captured slot, in
ascending order, and behind them what was added, with cells for captured slots and with each jump to
the instruction that its label was last placed in front of, or to the end. No offset exceeds 16 bits,
and the function reserves the largest depth that was tracked. It cannot be finished exactly when such a
depth or the size of the code exceeds 16 bits. -/
theorem finish_preserves (directives : Directives) (captured : Array Bool) (varCount : Nat)
    (argCount : UInt16) (isClosure : Bool) (orderly : directives.Orderly)
    (few : captured.size ≤ 65535) :
    (∀ function, (told directives).finish varCount argCount captured isClosure = .ok function →
      (∃ place listing, directives.Places captured place ∧
        function.code.disassemble = .ok listing ∧
        listing.map Line.ofListed = directives.lines captured place) ∧
      function.code.size = directives.codeSize captured ∧ function.code.size ≤ 65535 ∧
      directives.Tracks function.stackHigh.toNat ∧
      ∀ depth, directives.Tracks depth → depth ≤ function.stackHigh.toNat) ∧
    ((∃ complaint,
        (told directives).finish varCount argCount captured isClosure = .error complaint) ↔
      (∃ depth, directives.Tracks depth ∧ 65535 < depth) ∨
        65535 < directives.codeSize captured) := by
  obtain ⟨reached, largest⟩ := maxDepth_told directives
  have size : (told directives).offset captured (told directives).pending.size =
      directives.codeSize captured := by
    rw [offset_told, ← Array.length_toList, pending_told]
    rfl
  constructor
  · intro function finished
    obtain ⟨shallow, small, rfl⟩ := finish_eq_ok finished
    rw [size] at small
    have whole := size_settled captured directives
    have nonneg : 0 ≤ (told directives).maxDepth := largest 0 (.inl rfl)
    have high : ((UInt16.ofNat (told directives).maxDepth.toNat).toNat : Int) =
        (told directives).maxDepth := by
      rw [UInt16.toNat_ofNat']
      omega
    obtain ⟨listing, listed, lines⟩ := disassemble_told few small
    refine ⟨⟨_, listing, places_told orderly, listed, lines⟩, whole,
      Nat.le_trans (Nat.le_of_eq whole) small, ?_, ?_⟩
    · rw [high]
      exact reached
    · rw [high]
      exact largest
  · rw [finish_eq, size]
    by_cases deep : 65535 < (told directives).maxDepth
    · rw [if_pos deep]
      exact ⟨fun _ => .inl ⟨_, reached, deep⟩, fun _ => ⟨_, rfl⟩⟩
    · rw [if_neg deep]
      have shallow : ¬ ∃ depth, directives.Tracks depth ∧ 65535 < depth := by
        rintro ⟨depth, tracked, large⟩
        have := largest depth tracked
        omega
      by_cases large : 65535 < directives.codeSize captured
      · rw [if_pos large]
        exact ⟨fun _ => .inr large, fun _ => ⟨_, rfl⟩⟩
      · rw [if_neg large]
        constructor
        · rintro ⟨complaint, impossible⟩
          cases impossible
        · rintro (tooDeep | tooLarge)
          · exact absurd tooDeep shallow
          · exact absurd tooLarge large

/-- As long as the captured slot is true, it is assigned the other slot: a jump leads to the end, and
another one back to the beginning. -/
def looping : Directives :=
  [.newLabel, .newLabel, .placeLabel ⟨0⟩, .emit .loadLocal 1 0, .emitJump .jumpIfFalse ⟨1⟩,
    .emit .loadLocal 0 0, .emit .storeLocal 1 0, .emit .pop 0 0, .emitJump .jump ⟨0⟩,
    .placeLabel ⟨1⟩]

theorem finish_preserves_looping :
    (Directives.Orderly looping ∧ #[false, true].size ≤ 65535) ∧
      ∃ function listing, (told looping).finish 2 1 #[false, true] false = .ok function ∧
        function.code.disassemble = .ok listing ∧
        listing.map Line.ofListed =
          [⟨0, .makeCell, 1, 0⟩, ⟨3, .loadCell, 1, 0⟩, ⟨6, .jumpIfFalse, 19, 0⟩,
            ⟨9, .loadLocal, 0, 0⟩, ⟨12, .storeCell, 1, 0⟩, ⟨15, .pop, 0, 0⟩, ⟨16, .jump, 3, 0⟩] := by
  have orderly : Directives.Orderly looping :=
    ⟨rfl, by decide⟩
  obtain ⟨listed, -⟩ :=
    finish_preserves looping #[false, true] 2 1 false orderly (by decide)
  obtain ⟨function, finished⟩ : ∃ function,
      (told looping).finish 2 1 #[false, true] false = .ok function := by
    rw [finish_eq, if_neg (by decide), if_neg (by decide)]
    exact ⟨_, rfl⟩
  obtain ⟨⟨place, listing, places, decoded, lines⟩, -⟩ := listed function finished
  have beginning : place ⟨0⟩ = 3 := places [.newLabel, .newLabel] ⟨0⟩ _ rfl (by decide)
  have ending : place ⟨1⟩ = 19 := places (looping.take 9) ⟨1⟩ [] rfl (by decide)
  have symbolic : Directives.lines #[false, true] place looping =
      [⟨0, .makeCell, 1, 0⟩, ⟨3, .loadCell, 1, 0⟩, ⟨6, .jumpIfFalse, place ⟨1⟩, 0⟩,
        ⟨9, .loadLocal, 0, 0⟩, ⟨12, .storeCell, 1, 0⟩, ⟨15, .pop, 0, 0⟩,
        ⟨16, .jump, place ⟨0⟩, 0⟩] := rfl
  rw [beginning, ending] at symbolic
  exact ⟨⟨orderly, by decide⟩, function, listing, finished, decoded, lines.trans symbolic⟩

end Assembler

end PocketScript
