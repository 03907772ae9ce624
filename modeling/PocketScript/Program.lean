import PocketScript.Code.Instruction
import PocketScript.Number
import PocketScript.Sum

/-!
# Compiled programs

A program is what a unit of program text compiles to: tables of number and string constants and a
table of functions, of which the first one is the unit's top level.
-/

namespace PocketScript

/-- A compiled function. Of its `varCount` slots the first `argCount` hold the arguments. -/
structure FunctionDef where
  varCount : UInt16
  argCount : UInt16
  /-- The most operands the function's code ever holds on the stack. -/
  stackHigh : UInt16
  /-- The function uses variables of the functions around it. -/
  isClosure : Bool
  code : Code
  deriving DecidableEq, Repr, Inhabited

structure Program where
  numbers : Array Number
  strings : Array String
  functions : Array FunctionDef
  deriving DecidableEq, Repr, Inhabited

namespace Program

/-- The bytes of code space a loaded program takes: its constants, its code, and four or eight
bytes of bookkeeping for each string and function. -/
def footprint (program : Program) : Nat :=
  program.numbers.size * 8 +
    sumOver (fun text => text.utf8ByteSize + 4) program.strings.toList +
    sumOver (fun function => function.code.size + 8) program.functions.toList

def number? (program : Program) (index : UInt16) : Option Number := program.numbers[index.toNat]?

def string? (program : Program) (index : UInt16) : Option String := program.strings[index.toNat]?

def function? (program : Program) (index : UInt16) : Option FunctionDef :=
  program.functions[index.toNat]?

/-- Two programs agree when their numbers are equal as values and all else is the same; a program
with a NaN does not even agree with itself. -/
def agrees (left right : Program) : Bool :=
  left.numbers.isEqv right.numbers Number.equals && left.strings == right.strings &&
    left.functions == right.functions

end Program

/-- The limits a compilation keeps. -/
structure CompileLimits where
  /-- Slots of a function, captured variables of a function, and arguments of a call. -/
  maxLocals : Nat := 64
  /-- How deeply expressions nest. -/
  maxExprDepth : Nat := 48
  /-- Numbers, and likewise strings, of a program. -/
  maxConstants : Nat := 1024
  deriving DecidableEq, Repr

end PocketScript
