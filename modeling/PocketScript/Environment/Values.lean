import PocketScript.Decimal.Text
import PocketScript.Environment.Basic

/-!
# Values in an environment

What scripts can tell of a value without calling anything: its text, its truth, whether it equals
another one and which of the two comes first. Strings count by their text, whether they are
constants of a program, strings on the heap or strings of the host; other values with a block are
equal only to themselves.
-/

namespace PocketScript

namespace Environment

/-- The text of a string. -/
def string? (environment : Environment) (value : Value) : Option String :=
  match value with
  | .constant text => do
      let unit ← environment.units[text.unit]?
      unit.program.string? text.index
  | _ => environment.heap.text? value

def isTruthy (environment : Environment) (value : Value) : Bool :=
  match value with
  | .undefined | .nan => false
  | .boolean value => value
  | .number value => !value.isZero
  | .constant _ | .string _ | .foreign _ => (environment.string? value).any (!·.isEmpty)
  | _ => true

/-- Strict equality. A NaN equals nothing, and a string that is gone not even itself. -/
def equals (environment : Environment) (left right : Value) : Bool :=
  match left, right with
  | .undefined, .undefined => true
  | .boolean left, .boolean right => left == right
  | .number left, .number right => left.equals right
  | .function left, .function right => left == right
  | .native left, .native right => left == right
  | _, _ =>
      if left.isString && right.isString then
        match environment.string? left, environment.string? right with
        | some left, some right => left == right
        | _, _ => false
      else
        match left.block?, right.block? with
        | some left, some right => left == right
        | _, _ => false

/-- How two numbers, or two strings, stand to each other; other values stand in no order. -/
def order? (environment : Environment) (left right : Value) : Option Ordering :=
  match left, right with
  | .number left, .number right => left.order? right
  | _, _ =>
      if left.isString && right.isString then do
        let left ← environment.string? left
        let right ← environment.string? right
        pure (compareOfLessAndEq left right)
      else none

/-- The text of a function of a program. -/
def functionText (target : FunctionRef) : String :=
  s!"function:{target.unit.repr}.{target.index.toNat.repr}"

/-- The text of a value as a part of a longer text. -/
def text (environment : Environment) (value : Value) : String :=
  match value with
  | .undefined => "undefined"
  | .nan => "NaN"
  | .boolean value => if value then "true" else "false"
  | .number value => value.text
  | .constant _ | .string _ | .foreign _ => (environment.string? value).getD ""
  | .object _ | .array _ | .cell _ => "object"
  | .function target => functionText target
  | .closure block =>
      match environment.heap.closureTarget? block with
      | some target => functionText target
      | none => "function"
  | .native id =>
      match environment.nativeName? id with
      | some name => s!"function:{name}"
      | none => "function"

/-- How a value is shown in printed output: strings between quotes, numbers that are not whole with
six places. -/
def display (environment : Environment) (value : Value) : String :=
  match value with
  | .number value => value.display
  | .constant _ | .string _ | .foreign _ =>
      "\"" ++ (environment.string? value).getD "" ++ "\""
  | _ => environment.text value

/-- The name of the property that a value selects. -/
def propertyKey? (environment : Environment) (key : Value) : Option String :=
  match key with
  | .number value => some value.text
  | _ => environment.string? key

end Environment

/-- The largest index of an element. -/
def maxElementIndex : Nat := Nat.pow 2 32 - 1

/-- The index of the element that a value selects. -/
def Value.elementIndex? : Value → Option Nat
  | number value =>
      let index := value.truncated
      if value.isIntegral ∧ 0 ≤ index ∧ index ≤ maxElementIndex then some index.toNat else none
  | _ => none

end PocketScript
