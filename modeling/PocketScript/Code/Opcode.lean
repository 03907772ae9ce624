/-!
# Operations

The operation of an instruction is one byte. Its arity says how many 16-bit operands follow, its
stack effect how the number of operands on the evaluation stack changes when the next instruction
is reached without a jump.
-/

namespace PocketScript

inductive Opcode where
  | nop
  | pushUndefined
  | pushNaN
  | pushTrue
  | pushFalse
  | pushZero
  | pushInt
  | pushNumber
  | pushString
  | pushFunction
  | makeClosure
  | makeArray
  | makeObject
  | pop
  | dup
  | dup2
  | loadLocal
  | storeLocal
  | loadCell
  | storeCell
  | makeCell
  | pushCell
  | loadUpvalue
  | storeUpvalue
  | pushUpvalue
  | loadGlobal
  | storeGlobal
  | defineGlobal
  | declareGlobal
  | getElem
  | setElem
  | neg
  | not
  | bitNot
  | add
  | sub
  | mul
  | div
  | mod
  | bitAnd
  | bitOr
  | bitXor
  | shl
  | shr
  | eq
  | ne
  | lt
  | le
  | gt
  | ge
  | jump
  | jumpIfFalse
  | jumpIfTrue
  | jumpIfFalseOrPop
  | jumpIfTrueOrPop
  | call
  | ret
  | retUndefined
  deriving DecidableEq, Hashable, Repr

namespace Opcode

/-- Every operation, each at the place its byte counts from zero. -/
def all : Array Opcode :=
  #[nop, pushUndefined, pushNaN, pushTrue, pushFalse, pushZero, pushInt, pushNumber, pushString,
    pushFunction, makeClosure, makeArray, makeObject, pop, dup, dup2, loadLocal, storeLocal,
    loadCell, storeCell, makeCell, pushCell, loadUpvalue, storeUpvalue, pushUpvalue, loadGlobal,
    storeGlobal, defineGlobal, declareGlobal, getElem, setElem, neg, not, bitNot, add, sub, mul,
    div, mod, bitAnd, bitOr, bitXor, shl, shr, eq, ne, lt, le, gt, ge, jump, jumpIfFalse,
    jumpIfTrue, jumpIfFalseOrPop, jumpIfTrueOrPop, call, ret, retUndefined]

/-- The byte of an operation. -/
def toByte (op : Opcode) : UInt8 := UInt8.ofNat op.ctorIdx

/-- The operation a byte stands for. -/
def ofByte? (byte : UInt8) : Option Opcode := all[byte.toNat]?

theorem ofByte?_toByte (op : Opcode) : ofByte? op.toByte = some op := by
  cases op <;> rfl

theorem toByte_all (place : Fin all.size) : all[place].toByte.toNat = place.val := by
  decide +revert

theorem toByte_of_ofByte? {byte : UInt8} {op : Opcode} (known : ofByte? byte = some op) :
    op.toByte = byte := by
  obtain ⟨inside, found⟩ := Array.getElem?_eq_some_iff.mp known
  apply UInt8.toNat_inj.mp
  rw [← found]
  exact toByte_all ⟨byte.toNat, inside⟩

/-- The name of an operation in a listing. -/
def mnemonic : Opcode → String
  | nop => "nop"
  | pushUndefined => "push_undefined"
  | pushNaN => "push_nan"
  | pushTrue => "push_true"
  | pushFalse => "push_false"
  | pushZero => "push_zero"
  | pushInt => "push_int"
  | pushNumber => "push_number"
  | pushString => "push_string"
  | pushFunction => "push_function"
  | makeClosure => "make_closure"
  | makeArray => "make_array"
  | makeObject => "make_object"
  | pop => "pop"
  | dup => "dup"
  | dup2 => "dup2"
  | loadLocal => "load_local"
  | storeLocal => "store_local"
  | loadCell => "load_cell"
  | storeCell => "store_cell"
  | makeCell => "make_cell"
  | pushCell => "push_cell"
  | loadUpvalue => "load_upvalue"
  | storeUpvalue => "store_upvalue"
  | pushUpvalue => "push_upvalue"
  | loadGlobal => "load_global"
  | storeGlobal => "store_global"
  | defineGlobal => "define_global"
  | declareGlobal => "declare_global"
  | getElem => "get_elem"
  | setElem => "set_elem"
  | neg => "neg"
  | not => "not"
  | bitNot => "bit_not"
  | add => "add"
  | sub => "sub"
  | mul => "mul"
  | div => "div"
  | mod => "mod"
  | bitAnd => "bit_and"
  | bitOr => "bit_or"
  | bitXor => "bit_xor"
  | shl => "shl"
  | shr => "shr"
  | eq => "eq"
  | ne => "ne"
  | lt => "lt"
  | le => "le"
  | gt => "gt"
  | ge => "ge"
  | jump => "jump"
  | jumpIfFalse => "jump_if_false"
  | jumpIfTrue => "jump_if_true"
  | jumpIfFalseOrPop => "jump_if_false_or_pop"
  | jumpIfTrueOrPop => "jump_if_true_or_pop"
  | call => "call"
  | ret => "return"
  | retUndefined => "return_undefined"

/-- How many operands follow the operation's byte. -/
def arity : Opcode → Nat
  | pushInt | pushNumber | pushString | pushFunction | makeArray | makeObject | loadLocal
  | storeLocal | loadCell | storeCell | makeCell | pushCell | loadUpvalue | storeUpvalue
  | pushUpvalue | loadGlobal | storeGlobal | defineGlobal | declareGlobal | jump | jumpIfFalse
  | jumpIfTrue | jumpIfFalseOrPop | jumpIfTrueOrPop | call => 1
  | makeClosure => 2
  | _ => 0

/-- The bytes an instruction with this operation takes. -/
def size (op : Opcode) : Nat := 1 + 2 * op.arity

theorem size_pos (op : Opcode) : 0 < op.size := by
  unfold size; omega

/-- The operation may continue at its operand instead of at the next instruction. -/
def isJump : Opcode → Bool
  | jump | jumpIfFalse | jumpIfTrue | jumpIfFalseOrPop | jumpIfTrueOrPop => true
  | _ => false

/-- The change in evaluation depth when the next instruction follows. The two jumps that keep their
operand when taken count as if they dropped it. -/
def stackEffect (op : Opcode) (a b : UInt16) : Int :=
  match op with
  | nop | jump | makeCell | neg | not | bitNot => 0
  | pushUndefined | pushNaN | pushTrue | pushFalse | pushZero | pushInt | pushNumber | pushString
  | pushFunction | dup | loadLocal | loadCell | pushCell | loadUpvalue | pushUpvalue
  | loadGlobal => 1
  | storeLocal | storeCell | storeUpvalue | storeGlobal | declareGlobal => 0
  | dup2 => 2
  | makeClosure => 1 - (b.toNat : Int)
  | makeArray => 1 - (a.toNat : Int)
  | makeObject => 1 - 2 * (a.toNat : Int)
  | pop | defineGlobal | jumpIfFalse | jumpIfTrue | jumpIfFalseOrPop | jumpIfTrueOrPop => -1
  | getElem => -1
  | setElem => -2
  | add | sub | mul | div | mod | bitAnd | bitOr | bitXor | shl | shr | eq | ne | lt | le | gt
  | ge => -1
  | call => -(a.toNat : Int)
  | ret => -1
  | retUndefined => 0

end Opcode

end PocketScript
