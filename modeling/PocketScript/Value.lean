import PocketScript.Number
import PocketScript.Pool

/-!
# Values

A value is small and freely copied. Values on the heap are handles; whoever keeps a copy of one
counts as a reference to its block.
-/

namespace PocketScript

/-- A function of a loaded unit. -/
structure FunctionRef where
  unit : Nat
  index : UInt16
  deriving DecidableEq, Repr, Inhabited

/-- A string constant of a loaded unit. -/
structure StringRef where
  unit : Nat
  index : UInt16
  deriving DecidableEq, Repr, Inhabited

inductive Value where
  | undefined
  | nan
  | boolean (value : Bool)
  | number (value : Number)
  /-- A string constant, which takes no block. -/
  | constant (text : StringRef)
  | string (block : Handle)
  /-- A string that the host owns. -/
  | foreign (block : Handle)
  | object (block : Handle)
  | array (block : Handle)
  /-- A variable that functions share. No script ever sees it. -/
  | cell (block : Handle)
  | function (target : FunctionRef)
  | closure (block : Handle)
  | native (id : Nat)
  deriving DecidableEq, Repr, Inhabited

namespace Value

/-- A number as a value; a NaN is a value of its own. -/
def ofNumber (value : Number) : Value := if value.isNaN then nan else number value

def ofNat (value : Nat) : Value := number (Number.ofNat value)

def isUndefined : Value → Bool
  | undefined => true
  | _ => false

def isNaN : Value → Bool
  | nan => true
  | _ => false

def isBoolean : Value → Bool
  | boolean _ => true
  | _ => false

def isNumber : Value → Bool
  | number _ => true
  | _ => false

def isString : Value → Bool
  | constant _ | string _ | foreign _ => true
  | _ => false

def isObject : Value → Bool
  | object _ | array _ | cell _ => true
  | _ => false

def isFunction : Value → Bool
  | function _ | closure _ | native _ => true
  | _ => false

def isArray : Value → Bool
  | array _ => true
  | _ => false

def isCell : Value → Bool
  | cell _ => true
  | _ => false

/-- A finite number without a fractional part. -/
def isInteger : Value → Bool
  | number value => value.isIntegral
  | _ => false

def number? : Value → Option Number
  | number value => some value
  | _ => none

def boolean? : Value → Option Bool
  | boolean value => some value
  | _ => none

/-- The block that the value refers to. -/
def block? : Value → Option Handle
  | string block | foreign block | object block | array block | cell block | closure block =>
      some block
  | _ => none

/-- The name of the value's kind, as scripts' users know it. -/
def kindName : Value → String
  | undefined => "undefined"
  | nan => "NaN"
  | boolean _ => "boolean"
  | number _ => "number"
  | constant _ | string _ | foreign _ => "string"
  | array _ => "array"
  | object _ | cell _ => "object"
  | function _ | closure _ | native _ => "function"

end Value

end PocketScript
