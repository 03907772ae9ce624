import PocketScript.Proofs.Compile.Scopes
import PocketScript.Proofs.Compile.Statements

/-!
# What a compilation keeps

Compiling only adds: instructions stand where they were put, labels stay where they were placed, and
constants keep their places (`Compilation.Grows`). So whatever has been compiled of a function is
found again in its complete code (`Compilation.Within`).
-/

namespace PocketScript

/-- The collected code of a complete function, with what its operands refer to. -/
structure CompleteCode where
  assembler : Assembler
  /-- The number constant that has an index. -/
  isNumber : UInt16 → Number → Prop
  /-- The string constant that has an index. -/
  isString : UInt16 → String → Prop
  /-- The place that a name denotes. -/
  resolves : String → Place → Prop

namespace CompleteCode

/-- The code when it does not matter what operands refer to. -/
def plain (assembler : Assembler) : CompleteCode :=
  ⟨assembler, fun _ _ => True, fun _ _ => True, fun _ _ => True⟩

/-- An instruction that is no jump stands at an index. -/
def Holds (code : CompleteCode) (index : Nat) (op : Opcode) (a : UInt16 := 0) (b : UInt16 := 0) :
    Prop :=
  code.assembler.pending[index]? = some ⟨op, a, b, none⟩

/-- A jump to a label stands at an index. -/
def JumpsTo (code : CompleteCode) (index : Nat) (op : Opcode) (label : Label) : Prop :=
  code.assembler.pending[index]? = some ⟨op, 0, 0, some label⟩

/-- A label was placed in front of the instruction at an index. -/
def Places (code : CompleteCode) (label : Label) (index : Nat) : Prop :=
  code.assembler.labels[label.index]? = some (some index)

/-- A jump to the instruction at another index stands at an index. -/
def Jumps (code : CompleteCode) (index : Nat) (op : Opcode) (target : Nat) : Prop :=
  ∃ label, code.JumpsTo index op label ∧ code.Places label target

/-- The function reserves room for so many operands. -/
def HasRoom (code : CompleteCode) (depth : Nat) : Prop :=
  (depth : Int) ≤ code.assembler.maxDepth

end CompleteCode

namespace Compilation

variable {before middle after state : Compilation} {code : CompleteCode}

/-- The instructions collected so far. -/
def size (state : Compilation) : Nat := state.assembler.pending.size

/-- What was compiled before stays. -/
structure Grows (before after : Compilation) : Prop where
  pending : ∀ (index : Nat) instr, before.assembler.pending[index]? = some instr →
    after.assembler.pending[index]? = some instr
  /-- Neither do labels move, nor are those placed that are not placed yet. -/
  labels : ∀ (index : Nat) place, before.assembler.labels[index]? = some place →
    after.assembler.labels[index]? = some place
  maxDepth : before.assembler.maxDepth ≤ after.assembler.maxDepth
  numbers : ∀ (value : Number) index, before.numbers.places[value]? = some index →
    after.numbers.places[value]? = some index
  strings : ∀ (value : String) index, before.strings.places[value]? = some index →
    after.strings.places[value]? = some index
  loops : after.loops = before.loops

/-- What was compiled is a part of some complete code. -/
structure Within (state : Compilation) (code : CompleteCode) : Prop where
  pending : ∀ (index : Nat) instr, state.assembler.pending[index]? = some instr →
    code.assembler.pending[index]? = some instr
  labels : ∀ (index : Nat) place, state.assembler.labels[index]? = some (some place) →
    code.assembler.labels[index]? = some (some place)
  maxDepth : state.assembler.maxDepth ≤ code.assembler.maxDepth
  numbers : ∀ (value : Number) index, state.numbers.places[value]? = some index → code.isNumber index value
  strings : ∀ (value : String) index, state.strings.places[value]? = some index → code.isString index value

/-- Nothing has to be added. -/
theorem Grows.refl (state : Compilation) : Grows state state :=
  ⟨fun _ _ => id, fun _ _ => id, Int.le_refl _, fun _ _ => id, fun _ _ => id, rfl⟩

/-- Code may grow step by step. -/
theorem Grows.trans (first : Grows before middle) (second : Grows middle after) :
    Grows before after where
  pending _ _ found := second.pending _ _ (first.pending _ _ found)
  labels _ _ found := second.labels _ _ (first.labels _ _ found)
  maxDepth := Int.le_trans first.maxDepth second.maxDepth
  numbers _ _ found := second.numbers _ _ (first.numbers _ _ found)
  strings _ _ found := second.strings _ _ (first.strings _ _ found)
  loops := second.loops.trans first.loops

theorem Within.of_grows (grows : Grows before after) (within : Within after code) :
    Within before code where
  pending _ _ found := within.pending _ _ (grows.pending _ _ found)
  labels _ _ found := within.labels _ _ (grows.labels _ _ found)
  maxDepth := Int.le_trans grows.maxDepth within.maxDepth
  numbers _ _ found := within.numbers _ _ (grows.numbers _ _ found)
  strings _ _ found := within.strings _ _ (grows.strings _ _ found)

/-- A list whose items are all found in another one is not longer. -/
theorem size_le_of_getElem? {α : Type} {first second : Array α}
    (found : ∀ (index : Nat) item, first[index]? = some item → second[index]? = some item) :
    first.size ≤ second.size := by
  by_cases empty : first.size = 0
  · omega
  · have inside : first.size - 1 < first.size := by omega
    have there := found _ _ (Array.getElem?_eq_getElem inside)
    obtain ⟨bound, -⟩ := Array.getElem?_eq_some_iff.mp there
    omega

theorem Within.size_le (within : Within state code) :
    state.size ≤ code.assembler.pending.size :=
  size_le_of_getElem? within.pending

/-- Labels are only added. -/
theorem Grows.labelCount_le (grows : Grows before after) :
    before.assembler.labels.size ≤ after.assembler.labels.size :=
  size_le_of_getElem? grows.labels

/-- A label that exists and is not placed stays so. -/
def Awaits (state : Compilation) (label : Label) : Prop :=
  state.assembler.labels[label.index]? = some none

theorem Awaits.mono {label : Label} (awaits : Awaits before label) (grows : Grows before after) :
    Awaits after label :=
  grows.labels _ _ awaits

/-! ## Instructions -/

/-- An instruction is added at the end. -/
theorem grows_push (state : Compilation) (instr : PendingInstruction) :
    Grows state (state.assembling (·.push instr)) := by
  refine ⟨fun index other found => ?_, fun _ _ => id, ?_, fun _ _ => id, fun _ _ => id, rfl⟩
  · obtain ⟨inside, -⟩ := Array.getElem?_eq_some_iff.mp found
    change (state.assembler.pending.push instr)[index]? = _
    rw [Array.getElem?_push_lt inside, ← Array.getElem?_eq_getElem inside]
    exact found
  · exact Int.le_max_left _ _

/-- And so is one that is emitted. -/
theorem grows_emit (state : Compilation) (op : Opcode) (a b : UInt16) :
    Grows state (state.emit op a b) :=
  grows_push _ _

/-- Or a jump. -/
theorem grows_emitJump (state : Compilation) (op : Opcode) (target : Label) :
    Grows state (state.emitJump op target) :=
  grows_push _ _

@[simp]
theorem size_emit (state : Compilation) (op : Opcode) (a b : UInt16) :
    (state.emit op a b).size = state.size + 1 :=
  Array.size_push _

@[simp]
theorem size_emitJump (state : Compilation) (op : Opcode) (target : Label) :
    (state.emitJump op target).size = state.size + 1 :=
  Array.size_push _

@[simp]
theorem depth_emit (state : Compilation) (op : Opcode) (a b : UInt16) :
    (state.emit op a b).assembler.depth = state.assembler.depth + op.stackEffect a b := rfl

@[simp]
theorem depth_emitJump (state : Compilation) (op : Opcode) (target : Label) :
    (state.emitJump op target).assembler.depth = state.assembler.depth + op.stackEffect 0 0 := rfl

/-- The emitted instruction stands behind the others, and the code has room for its operands. -/
theorem Within.emitted {op : Opcode} {a b : UInt16} (within : Within (state.emit op a b) code) :
    code.Holds state.size op a b ∧
      state.assembler.depth + op.stackEffect a b ≤ code.assembler.maxDepth := by
  refine ⟨within.pending _ _ ?_, Int.le_trans (Int.le_max_right _ _) within.maxDepth⟩
  exact Array.getElem?_push_size

theorem Within.emittedJump {op : Opcode} {target : Label}
    (within : Within (state.emitJump op target) code) :
    code.JumpsTo state.size op target :=
  within.pending _ _ Array.getElem?_push_size

/-! ## Labels -/

/-- A new label adds no code. -/
theorem grows_addLabel (state : Compilation) : Grows state state.addLabel := by
  refine ⟨fun _ _ => id, fun index place found => ?_, Int.le_refl _, fun _ _ => id, fun _ _ => id,
    rfl⟩
  obtain ⟨inside, -⟩ := Array.getElem?_eq_some_iff.mp found
  change (state.assembler.labels.push none)[index]? = _
  rw [Array.getElem?_push_lt inside, ← Array.getElem?_eq_getElem inside]
  exact found

/-- It has to be placed. -/
theorem awaits_addLabel (state : Compilation) : Awaits state.addLabel state.nextLabel :=
  Array.getElem?_push_size

@[simp]
theorem size_addLabel (state : Compilation) : state.addLabel.size = state.size := rfl

@[simp]
theorem depth_addLabel (state : Compilation) :
    state.addLabel.assembler.depth = state.assembler.depth := rfl

@[simp]
theorem size_placeLabel (state : Compilation) (label : Label) :
    (state.placeLabel label).size = state.size := rfl

@[simp]
theorem depth_placeLabel (state : Compilation) (label : Label) :
    (state.placeLabel label).assembler.depth = state.assembler.depth := rfl

@[simp]
theorem size_setDepth (state : Compilation) (depth : Int) : (state.setDepth depth).size = state.size :=
  rfl

/-- The corrected depth is the one wanted. -/
@[simp]
theorem depth_setDepth (state : Compilation) (depth : Int) :
    (state.setDepth depth).assembler.depth = depth := rfl

/-- So code only grows meanwhile. -/
theorem grows_setDepth (state : Compilation) (depth : Int) : Grows state (state.setDepth depth) :=
  ⟨fun _ _ => id, fun _ _ => id, Int.le_refl _, fun _ _ => id, fun _ _ => id, rfl⟩

/-- To place a label leaves the other labels where they are. -/
theorem labels_placeLabel (state : Compilation) (label : Label) (index : Nat)
    (other : index ≠ label.index) :
    (state.placeLabel label).assembler.labels[index]? = state.assembler.labels[index]? := by
  change (state.assembler.labels.setIfInBounds label.index _)[index]? = _
  rw [Array.getElem?_setIfInBounds_ne (Ne.symm other)]

/-- To place a label that was made later keeps what there was before. -/
theorem Grows.placeLabel {label : Label} (grows : Grows before after)
    (new : before.assembler.labels.size ≤ label.index) : Grows before (after.placeLabel label) := by
  refine ⟨grows.pending, fun index place found => ?_, grows.maxDepth, grows.numbers, grows.strings,
    grows.loops⟩
  obtain ⟨inside, -⟩ := Array.getElem?_eq_some_iff.mp found
  rw [labels_placeLabel _ _ _ (by omega)]
  exact grows.labels _ _ found

/-- A label that waited for its place has it in the complete code. -/
theorem Within.placed {label : Label} (within : Within (state.placeLabel label) code)
    (awaits : Awaits state label) : Within state code ∧ code.Places label state.size := by
  obtain ⟨inside, -⟩ := Array.getElem?_eq_some_iff.mp awaits
  constructor
  · refine ⟨within.pending, fun index place found => ?_, within.maxDepth, within.numbers,
      within.strings⟩
    apply within.labels
    rw [labels_placeLabel]
    · exact found
    · rintro rfl
      have impossible := found.symm.trans awaits
      cases impossible
  · apply within.labels
    exact Array.getElem?_setIfInBounds_self_of_lt inside

/-! ## Constants, names and loops -/

theorem places_add {α : Type} [BEq α] [LawfulBEq α] [Hashable α] {limit : Nat}
    {table table' : ConstantTable α} {item : α} {index : UInt16}
    (added : table.add limit item = (some index, table')) :
    table'.places[item]? = some index ∧
      ∀ (other : α) place, table.places[other]? = some place → table'.places[other]? = some place := by
  unfold ConstantTable.add at added
  split at added
  · rename_i found
    simp only [Prod.mk.injEq, Option.some.injEq] at added
    obtain ⟨rfl, rfl⟩ := added
    exact ⟨found, fun _ _ => id⟩
  · rename_i missing
    split at added
    · cases added
    · simp only [Prod.mk.injEq, Option.some.injEq] at added
      obtain ⟨rfl, rfl⟩ := added
      refine ⟨Std.HashMap.getElem?_insert_self, fun other place found => ?_⟩
      rw [Std.HashMap.getElem?_insert]
      split
      · rename_i same
        rw [← eq_of_beq same, missing] at found
        cases found
      · exact found

/-- Number constants are no code. -/
theorem grows_addNumber {limit : Nat} {value : Number} {index : UInt16} {numbers}
    (added : state.numbers.add limit value = (some index, numbers)) :
    Grows state { state with numbers } :=
  ⟨fun _ _ => id, fun _ _ => id, Int.le_refl _, (places_add added).2, fun _ _ => id, rfl⟩

/-- Nor are string constants. -/
theorem grows_addString {limit : Nat} {value : String} {index : UInt16} {strings}
    (added : state.strings.add limit value = (some index, strings)) :
    Grows state { state with strings } :=
  ⟨fun _ _ => id, fun _ _ => id, Int.le_refl _, fun _ _ => id, (places_add added).2, rfl⟩

/-- Nor are scopes. -/
theorem grows_scopes (state : Compilation) (scopes : Scopes) : Grows state { state with scopes } :=
  ⟨fun _ _ => id, fun _ _ => id, Int.le_refl _, fun _ _ => id, fun _ _ => id, rfl⟩

/-- Nor are globals. -/
theorem grows_addGlobal (state : Compilation) (name : String) : Grows state (state.addGlobal name) :=
  ⟨fun _ _ => id, fun _ _ => id, Int.le_refl _, fun _ _ => id, fun _ _ => id, rfl⟩

/-- What happens inside a loop keeps what there was before it. -/
theorem Grows.leaving {labels : LoopLabels} (grows : Grows (before.entering labels) after) :
    Grows before (after.leaving before) :=
  ⟨grows.pending, grows.labels, grows.maxDepth, grows.numbers, grows.strings, rfl⟩

/-- To leave a loop adds no code. -/
theorem Within.of_leaving {outer : Compilation} (within : Within (state.leaving outer) code) :
    Within state code :=
  ⟨within.pending, within.labels, within.maxDepth, within.numbers, within.strings⟩

@[simp]
theorem size_leaving (state outer : Compilation) : (state.leaving outer).size = state.size := rfl

@[simp]
theorem size_entering (state : Compilation) (labels : LoopLabels) :
    (state.entering labels).size = state.size := rfl

end Compilation

end PocketScript
