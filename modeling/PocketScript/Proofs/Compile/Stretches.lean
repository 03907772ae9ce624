import PocketScript.Proofs.Compile.Levels

/-!
# Code that keeps to itself

The code of an expression is entered at its first instruction and left behind its last one: nothing
in it leaves the function, and its jumps lead forward within it (`ExprAt.computes`). Its first
instruction is none of those that statements add to the code of their expressions.
-/

namespace PocketScript

/-- The instruction belongs to a statement, unless it stands inside an expression. -/
def Opcode.isControl (op : Opcode) : Bool :=
  op.leaves || op == .pop || op == .storeLocal || op == .defineGlobal || op == .declareGlobal ||
    op == .jump || op == .jumpIfFalse

namespace CompleteCode

variable {code : CompleteCode} {low high low' high' start middle stop index depth : Nat}

/-- The instruction at an index is followed by another one of its function; a jump leads behind
`low`, and not beyond `high`. -/
def Keeps (code : CompleteCode) (low high index : Nat) : Prop :=
  ∃ instr, code.assembler.pending[index]? = some instr ∧
    instr.op.leaves = false ∧ instr.op ≠ .makeCell ∧
      ∀ label, instr.target = some label →
        ∃ target, code.Places label target ∧ low < target ∧ target ≤ high

/-- All instructions of a stretch keep within bounds. -/
def KeepsAll (code : CompleteCode) (low high start stop : Nat) : Prop :=
  ∀ index, start ≤ index → index < stop → code.Keeps low high index

/-- The instruction at an index starts an expression. -/
def Starts (code : CompleteCode) (index : Nat) : Prop :=
  ∃ instr, code.assembler.pending[index]? = some instr ∧
    instr.op.isControl = false

/-- The code between two indices starts an expression and keeps to itself. -/
structure Computes (code : CompleteCode) (start stop : Nat) : Prop where
  starts : code.Starts start
  nonempty : start < stop
  keeps : code.KeepsAll start stop start stop

theorem Keeps.mono (keeps : code.Keeps low high index) (lower : low' ≤ low) (higher : high ≤ high') :
    code.Keeps low' high' index := by
  obtain ⟨instr, found, stays, noBox, jumps⟩ := keeps
  refine ⟨instr, found, stays, noBox, fun label target => ?_⟩
  obtain ⟨place, placed, above, below⟩ := jumps label target
  exact ⟨place, placed, by omega, by omega⟩

theorem KeepsAll.mono (keeps : code.KeepsAll low high start stop) (lower : low' ≤ low)
    (higher : high ≤ high') : code.KeepsAll low' high' start stop :=
  fun index above below => (keeps index above below).mono lower higher

/-- An empty stretch has none. -/
theorem KeepsAll.nil : code.KeepsAll low high start start := by
  intro index above below
  omega

/-- Two stretches make one. -/
theorem KeepsAll.append (first : code.KeepsAll low high start middle)
    (second : code.KeepsAll low high middle stop) : code.KeepsAll low high start stop := by
  intro index above below
  by_cases before : index < middle
  · exact first index above before
  · exact second index (by omega) below

/-- And one instruction is a stretch. -/
theorem KeepsAll.single (keeps : code.Keeps low high index) :
    code.KeepsAll low high index (index + 1) := by
  intro other above below
  obtain rfl : other = index := by omega
  exact keeps

variable {op : Opcode} {a b : UInt16}

theorem Holds.keeps (holds : code.Holds index op a b) (stays : op.leaves = false)
    (noBox : op ≠ .makeCell) : code.KeepsAll low high index (index + 1) :=
  .single ⟨_, holds, stays, noBox, fun _ target => by cases target⟩

theorem Holds.starts (holds : code.Holds index op a b) (first : op.isControl = false) :
    code.Starts index :=
  ⟨_, holds, first⟩

/-- A jump stays within a stretch with its target. -/
theorem Jumps.keeps {target : Nat} (jumps : code.Jumps index op target) (stays : op.leaves = false)
    (noBox : op ≠ .makeCell) (above : low < target) (below : target ≤ high) :
    code.KeepsAll low high index (index + 1) := by
  obtain ⟨label, jumpsTo, places⟩ := jumps
  refine .single ⟨_, jumpsTo, stays, noBox, fun other found => ?_⟩
  cases found
  exact ⟨target, places, above, below⟩

/-- An expression of one instruction. -/
theorem Holds.computes (holds : code.Holds index op a b) (first : op.isControl = false)
    (noBox : op ≠ .makeCell) : code.Computes index (index + 1) := by
  refine ⟨holds.starts first, Nat.lt_succ_self _, holds.keeps ?_ noBox⟩
  revert first
  cases op <;> decide

/-- To load a name is computed at once. -/
theorem LoadAt.computes {place : Place} {name : String} (loads : code.LoadAt place name index) :
    code.Computes index (index + 1) := by
  cases place with
  | slot slot => exact Holds.computes loads rfl (by decide)
  | capture capture => exact Holds.computes loads rfl (by decide)
  | global =>
      obtain ⟨_, holds, -⟩ := loads
      exact holds.computes rfl (by decide)

/-- And so it is to store it. -/
theorem StoreAt.keeps {place : Place} {name : String} (stores : code.StoreAt place name index) :
    code.KeepsAll low high index (index + 1) := by
  cases place with
  | slot slot => exact Holds.keeps stores rfl (by decide)
  | capture capture => exact Holds.keeps stores rfl (by decide)
  | global =>
      obtain ⟨_, holds, -⟩ := stores
      exact holds.keeps rfl (by decide)

/-- A function is computed with its captures. -/
theorem FunctionAt.computes (function : code.FunctionAt depth start stop) :
    code.Computes start stop := by
  cases function with
  | plain holds => exact holds.computes rfl (by decide)
  | closure count few pushes holds =>
      have cells : code.KeepsAll start (start + count + 1) start (start + count) := by
        intro index above below
        obtain ⟨op, capture, pushed, which⟩ := pushes (index - start) (by omega)
        rw [Nat.add_sub_cancel' above] at pushed
        have one : code.KeepsAll start (start + count + 1) index (index + 1) := by
          obtain rfl | rfl := which <;> exact pushed.keeps rfl (by decide)
        exact one index (Nat.le_refl _) (Nat.lt_succ_self _)
      refine ⟨?_, by omega, cells.append (holds.keeps rfl (by decide))⟩
      by_cases none : count = 0
      · subst none
        exact holds.starts rfl
      · obtain ⟨op, capture, pushed, which⟩ := pushes 0 (by omega)
        obtain rfl | rfl := which <;> exact Holds.starts pushed rfl

/-- An operation is one instruction. -/
theorem binary_keeps {binary : BinaryOp} (holds : code.Holds index binary.opcode) :
    code.KeepsAll low high index (index + 1) := by
  refine holds.keeps ?_ ?_ <;> cases binary <;> decide

/-- An expression may be followed by more of a larger one. -/
theorem Computes.append (first : code.Computes start middle)
    (second : code.KeepsAll start stop middle stop) (order : middle ≤ stop) :
    code.Computes start stop :=
  ⟨first.starts, Nat.lt_of_lt_of_le first.nonempty order,
    (first.keeps.mono (Nat.le_refl _) order).append second⟩

/-- An expression that is a part of a larger one. -/
theorem Computes.inside (inner : code.Computes start stop) (lower : low ≤ start)
    (higher : stop ≤ high) : code.KeepsAll low high start stop :=
  inner.keeps.mono lower higher

mutual

/-- The code of an expression keeps to itself. -/
theorem ExprAt.computes {depth start stop : Nat} {tree : Expr}
    (layout : code.ExprAt depth tree start stop) : code.Computes start stop := by
  cases layout with
  | @literal _ value _ holds => cases value <;> exact holds.computes rfl (by decide)
  | zero holds => exact holds.computes rfl (by decide)
  | small _ holds => exact holds.computes rfl (by decide)
  | number holds => exact holds.computes rfl (by decide)
  | string holds => exact holds.computes rfl (by decide)
  | name _ loads => exact loads.computes
  | @unary _ op _ _ _ operand holds =>
      refine operand.computes.append (holds.keeps ?_ ?_) (Nat.le_succ _) <;> cases op <;> decide
  | binary left right holds =>
      have one := left.computes
      have two := right.computes
      have order := two.nonempty
      exact one.append ((two.inside (Nat.le_of_lt one.nonempty) (Nat.le_succ _)).append
        (binary_keeps holds)) (by omega)
  | @logical _ op _ _ _ _ _ left jumps right =>
      have one := left.computes
      have two := right.computes
      have first := one.nonempty
      have second := two.nonempty
      refine one.append ((jumps.keeps ?_ ?_ (by omega) (Nat.le_refl _)).append
        (two.inside (by omega) (Nat.le_refl _))) (by omega) <;> cases op <;> decide
  | conditional condition tests whenTrue jumps whenFalse =>
      have one := condition.computes
      have two := whenTrue.computes
      have three := whenFalse.computes
      have first := one.nonempty
      have second := two.nonempty
      have third := three.nonempty
      exact one.append ((tests.keeps rfl (by decide) (by omega) (by omega)).append
        ((two.inside (by omega) (by omega)).append
          ((jumps.keeps rfl (by decide) (by omega) (Nat.le_refl _)).append
            (three.inside (by omega) (Nat.le_refl _))))) (by omega)
  | assignName _ value stores =>
      exact value.computes.append stores.keeps (Nat.le_succ _)
  | updateName _ loads _ value holds stores =>
      have one := value.computes
      have order := one.nonempty
      exact loads.computes.append ((one.inside (Nat.le_succ _) (Nat.le_add_right _ _)).append
        ((binary_keeps holds).append stores.keeps)) (by omega)
  | element container key holds =>
      have one := container.computes
      have two := key.computes
      have order := two.nonempty
      exact one.append ((two.inside (Nat.le_of_lt one.nonempty) (Nat.le_succ _)).append
        (holds.keeps rfl (by decide))) (by omega)
  | assignElement container key value holds =>
      have one := container.computes
      have two := key.computes
      have three := value.computes
      have first := one.nonempty
      have second := two.nonempty
      have third := three.nonempty
      exact one.append ((two.inside (by omega) (by omega)).append
        ((three.inside (by omega) (by omega)).append (holds.keeps rfl (by decide)))) (by omega)
  | updateElement container key copies _ reads value holds stores =>
      have one := container.computes
      have two := key.computes
      have three := value.computes
      have first := one.nonempty
      have second := two.nonempty
      have third := three.nonempty
      exact one.append ((two.inside (by omega) (by omega)).append
        ((copies.keeps rfl (by decide)).append ((reads.keeps rfl (by decide)).append
          ((three.inside (by omega) (by omega)).append
            ((binary_keeps holds).append (stores.keeps rfl (by decide))))))) (by omega)
  | call callee args _ holds =>
      have one := callee.computes
      have order := args.bounds
      have below := one.nonempty
      exact one.append ((args.keeps (by omega) (Nat.le_succ _)).append
        (holds.keeps rfl (by decide))) (by omega)
  | array items _ holds =>
      cases items with
      | nil => exact holds.computes rfl (by decide)
      | cons first rest =>
          have order := rest.bounds
          have one := first.computes
          have below := one.nonempty
          exact one.append ((rest.keeps (by omega) (Nat.le_succ _)).append
            (holds.keeps rfl (by decide))) (by omega)
  | object members _ holds =>
      cases members with
      | nil => exact holds.computes rfl (by decide)
      | cons pushes _ value rest =>
          have order := rest.bounds
          have one := value.computes
          have below := one.nonempty
          exact (pushes.computes rfl (by decide)).append ((one.inside (by omega) (by omega)).append
            ((rest.keeps (by omega) (Nat.le_succ _)).append (holds.keeps rfl (by decide))))
              (by omega)
  | function body => exact body.computes

/-- Expressions in a row stay among themselves. -/
theorem ExprsAt.keeps {depth start stop low high : Nat} {trees : List Expr}
    (layout : code.ExprsAt depth trees start stop) (lower : low ≤ start) (higher : stop ≤ high) :
    code.KeepsAll low high start stop := by
  cases layout with
  | nil => exact .nil
  | cons first rest =>
      have order := rest.bounds
      have one := first.computes
      have below := one.nonempty
      exact (one.inside lower (by omega)).append (rest.keeps (by omega) higher)

/-- And so do properties. -/
theorem EntriesAt.keeps {depth start stop low high : Nat} {entries : List Entry}
    (layout : code.EntriesAt depth entries start stop) (lower : low ≤ start) (higher : stop ≤ high) :
    code.KeepsAll low high start stop := by
  cases layout with
  | nil => exact .nil
  | cons pushes _ value rest =>
      have order := rest.bounds
      have one := value.computes
      have below := one.nonempty
      exact (pushes.keeps rfl (by decide)).append ((one.inside (by omega) (by omega)).append
        (rest.keeps (by omega) higher))

end

end CompleteCode

end PocketScript
