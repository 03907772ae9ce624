import PocketScript.Environment.Values
import PocketScript.Operator

/-!
# Operators and elements

What operators make of their operands, and how elements and properties are read and written. The
operands stay owned by whoever applies the operator; the result is a new reference.
-/

namespace PocketScript

/-- The value of an arithmetic operator on numbers. A quotient and a remainder by zero are NaN; the
operators on bits work on 32-bit integers, and shift by the low five bits of the right operand. A
comparison has no number for its value. -/
def BinaryOp.onNumbers (op : BinaryOp) (left right : Number) : Number :=
  match op with
  | add => left.add right
  | sub => left.sub right
  | mul => left.mul right
  | div => if right.isZero then Number.nan else left.div right
  | mod => if right.isZero then Number.nan else left.remainder right
  | bitAnd => Number.ofInt32 (left.toInt32 &&& right.toInt32)
  | bitOr => Number.ofInt32 (left.toInt32 ||| right.toInt32)
  | bitXor => Number.ofInt32 (left.toInt32 ^^^ right.toInt32)
  | shl => Number.ofInt32 (left.toInt32 <<< (right.toInt32 &&& 31))
  | shr => Number.ofInt32 (left.toInt32 >>> (right.toInt32 &&& 31))
  | eq | ne | lt | le | gt | ge => Number.nan

/-- The value of an arithmetic operator; anything but two numbers gives NaN. -/
def BinaryOp.onValues (op : BinaryOp) (left right : Value) : Value :=
  match left, right with
  | .number left, .number right => Value.ofNumber (op.onNumbers left right)
  | _, _ => .nan

namespace Environment

/-- Applies an operator to a value. -/
def applyUnary (environment : Environment) (op : UnaryOp) (value : Value) : Value :=
  match op, value with
  | .neg, .number value => Value.ofNumber value.negate
  | .bitNot, .number value => .number (Number.ofInt32 (~~~value.toInt32))
  | .neg, _ | .bitNot, _ => .nan
  | .not, value => .boolean !(environment.isTruthy value)

/-- Applies an operator to two values. Adding to a string appends the text of the other value. -/
def applyBinary (op : BinaryOp) (left right : Value) : Action Value := do
  match op with
  | .eq => return .boolean (← view (·.equals left right))
  | .ne => return .boolean !(← view (·.equals left right))
  | .lt => return .boolean ((← view (·.order? left right)) == some .lt)
  | .le => return .boolean ((← view (·.order? left right)).any (· != .gt))
  | .gt => return .boolean ((← view (·.order? left right)) == some .gt)
  | .ge => return .boolean ((← view (·.order? left right)).any (· != .lt))
  | .add =>
      if left.isString || right.isString then
        let text ← view fun environment => environment.text left ++ environment.text right
        onHeap (·.allocString text)
      else return op.onValues left right
  | _ => return op.onValues left right

/-- The index that a value selects, or a fault. -/
def elementIndex (key : Value) : Action Nat :=
  match key.elementIndex? with
  | some index => pure index
  | none => throw .invalidIndex

/-- The name of the property that a value selects, or a fault. -/
def propertyKey (key : Value) : Action String := do
  match ← view (·.propertyKey? key) with
  | some name => return name
  | none => throw .typeMismatch

/-- A property of a string or an array. There is only the length; others are undefined. -/
def lengthOr (key : Value) (length : Environment → Nat) : Action Value := do
  if (← view (·.string? key)) = some "length" then
    return Value.ofNat (← view length)
  else return .undefined

/-- A new reference to what was found; undefined when nothing was. -/
def readElement (found : Option Value) : Action Value := do
  let value := found.getD .undefined
  retain value
  return value

/-- Reads an element of an array, a property of an object, or a character of a string. -/
def getElement (container key : Value) : Action Value := do
  match container with
  | .array block =>
      if key.isString then
        lengthOr key fun environment => (environment.heap.arrayLength? block).getD 0
      else
        let index ← elementIndex key
        readElement (← view (·.heap.arrayGet? block index))
  | .object block =>
      let name ← propertyKey key
      readElement (← view (·.heap.objectGet? block name))
  | .constant _ | .string _ | .foreign _ =>
      if key.isString then
        lengthOr key fun environment => ((environment.string? container).map (·.length)).getD 0
      else
        let index ← elementIndex key
        let text ← view (·.string? container)
        match text.bind (·.toList[index]?) with
        | some character => onHeap (·.allocString character.toString)
        | none => return .undefined
  | _ => throw .typeMismatch

/-- Writes an element of an array or a property of an object, which counts a reference of its
own. -/
def setElement (container key value : Value) : Action Unit := do
  match container with
  | .array block =>
      let index ← elementIndex key
      retain value
      onHeap (·.arraySet block index value)
  | .object block =>
      let name ← propertyKey key
      retain value
      onHeap (·.objectSet block name value)
  | _ => throw .typeMismatch

end Environment

end PocketScript
