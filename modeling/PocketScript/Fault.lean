/-!
# Faults

A fault ends the running execution; a script cannot catch it. The host sees its status code and its
message.
-/

namespace PocketScript

/-- Why an execution ended early. -/
inductive Fault where
  /-- No free block is large enough, or the code space is used up. -/
  | outOfMemory
  /-- The value stack is full. -/
  | stackOverflow
  | callDepthExceeded
  | stackUnderflow
  | notCallable
  /-- The operation is not defined on values of this kind. -/
  | typeMismatch
  | invalidIndex
  | undefinedVariable (name : String)
  | invalidOpcode (byte : UInt8)
  /-- An instruction's operand is missing or refers to nothing. -/
  | invalidOperand
  /-- A native function reported a failure of its own. -/
  | native (reason : String)
  deriving DecidableEq, Repr

namespace Fault

/-- The status code reported to the host. -/
def code : Fault → Int
  | outOfMemory => -20
  | stackOverflow => -21
  | callDepthExceeded => -22
  | stackUnderflow => -23
  | notCallable => -30
  | typeMismatch => -31
  | invalidIndex => -32
  | undefinedVariable _ => -33
  | invalidOpcode _ => -34
  | invalidOperand => -35
  | native _ => -36

/-- A byte as two hexadecimal digits. -/
def hexByte (byte : UInt8) : String :=
  String.ofList [Nat.digitChar (byte.toNat / 16), Nat.digitChar (byte.toNat % 16)]

def message : Fault → String
  | outOfMemory => "out of memory"
  | stackOverflow => "value stack overflow"
  | callDepthExceeded => "maximum call depth exceeded"
  | stackUnderflow => "value stack underflow"
  | notCallable => "value is not callable"
  | typeMismatch => "operation not supported on this type"
  | invalidIndex => "invalid index"
  | undefinedVariable name => s!"'{name}' is not defined"
  | invalidOpcode byte => s!"invalid opcode 0x{hexByte byte}"
  | invalidOperand => "invalid instruction operand"
  | native reason => s!"native function failed: {reason}"

end Fault

end PocketScript
