import PocketScript.Code.Opcode

/-!
# Operators

The operators of the language, and the operation that applies each of those that always evaluate
their operands.
-/

namespace PocketScript

inductive UnaryOp where
  | neg
  | not
  | bitNot
  deriving DecidableEq, Repr

/-- The operators that always evaluate both operands. -/
inductive BinaryOp where
  | bitOr
  | bitXor
  | bitAnd
  | eq
  | ne
  | lt
  | le
  | gt
  | ge
  | shl
  | shr
  | add
  | sub
  | mul
  | div
  | mod
  deriving DecidableEq, Repr

/-- The operators whose right operand is evaluated only when the left one does not decide. -/
inductive LogicalOp where
  | or
  | and
  deriving DecidableEq, Repr

/-- The operation that applies an operator to the topmost operand. -/
def UnaryOp.opcode : UnaryOp → Opcode
  | neg => .neg
  | not => .not
  | bitNot => .bitNot

/-- The operation that applies an operator to the two topmost operands. -/
def BinaryOp.opcode : BinaryOp → Opcode
  | bitOr => .bitOr
  | bitXor => .bitXor
  | bitAnd => .bitAnd
  | eq => .eq
  | ne => .ne
  | lt => .lt
  | le => .le
  | gt => .gt
  | ge => .ge
  | shl => .shl
  | shr => .shr
  | add => .add
  | sub => .sub
  | mul => .mul
  | div => .div
  | mod => .mod

/-- The jump that keeps the left operand when it decides, and drops it otherwise. -/
def LogicalOp.jump : LogicalOp → Opcode
  | or => .jumpIfTrueOrPop
  | and => .jumpIfFalseOrPop

end PocketScript
