import PocketScript.CompileError

/-!
# Names in nested functions

Variables belong to functions. Inside a function a name denotes the slot of the nearest function
around it that declares the name; a slot of an outer function is reached through a chain of
captures, one in each function on the way. Names that no function declares are global, and the top
level has no slots of its own: its names are global too.
-/

namespace PocketScript

/-- What a name denotes, seen from the innermost function. -/
inductive Place where
  | slot (index : UInt16)
  | capture (index : UInt16)
  | global
  deriving DecidableEq, Repr

/-- Where a function finds the variable it captures when it is created: in a slot or among the
captures of the function around it. -/
inductive CaptureSource where
  | outerSlot (index : UInt16)
  | outerCapture (index : UInt16)
  deriving DecidableEq, Repr

/-- The names of one function. -/
structure FunctionScope where
  /-- The names of the slots, the parameters first. -/
  slots : Array String := #[]
  /-- Which slots an inner function captures. -/
  captured : Array Bool := #[]
  /-- What the function captures itself. -/
  captures : Array CaptureSource := #[]
  argCount : UInt16 := 0
  deriving DecidableEq, Repr, Inhabited

namespace FunctionScope

def find? (scope : FunctionScope) (name : String) : Option Nat :=
  scope.slots.findIdx? (· == name)

/-- Gives a name a slot unless it has one, and tells its slot. -/
def declare (limit : Nat) (scope : FunctionScope) (name : String) :
    Except Complaint (UInt16 × FunctionScope) :=
  match scope.find? name with
  | some index => .ok (UInt16.ofNat index, scope)
  | none =>
      let index := scope.slots.size
      if limit ≤ index ∨ 65535 ≤ index then .error .tooManyLocals
      else
        .ok (UInt16.ofNat index,
          { scope with slots := scope.slots.push name, captured := scope.captured.push false })

/-- Gives a parameter its slot. -/
def declareParameter (limit : Nat) (scope : FunctionScope) (name : String) :
    Except Complaint (UInt16 × FunctionScope) :=
  match scope.find? name with
  | some _ => .error .duplicateParameter
  | none => do
      let (index, declared) ← scope.declare limit name
      pure (index, { declared with argCount := declared.argCount + 1 })

/-- The capture with a given source, added unless the function has it already. -/
def capture (limit : Nat) (scope : FunctionScope) (source : CaptureSource) :
    Except Complaint (UInt16 × FunctionScope) :=
  match scope.captures.findIdx? (· == source) with
  | some index => .ok (UInt16.ofNat index, scope)
  | none =>
      let index := scope.captures.size
      if limit ≤ index then .error .tooManyCaptures
      else .ok (UInt16.ofNat index, { scope with captures := scope.captures.push source })

def markCaptured (scope : FunctionScope) (index : Nat) : FunctionScope :=
  { scope with captured := scope.captured.setIfInBounds index true }

end FunctionScope

/-- The functions being compiled, the innermost first; empty at the top level. -/
abbrev Scopes := List FunctionScope

namespace Scopes

/-- The capture through which a function sees a name of the functions around it, if one of these
declares the name. Captures missing on the way are added. -/
def captureFrom (limit : Nat) (name : String) (scope : FunctionScope) :
    List FunctionScope → Except Complaint (Option UInt16 × FunctionScope × List FunctionScope)
  | [] => .ok (none, scope, [])
  | outer :: rest =>
      match outer.find? name with
      | some index => do
          let (found, captured) ← scope.capture limit (.outerSlot (UInt16.ofNat index))
          pure (some found, captured, outer.markCaptured index :: rest)
      | none => do
          let (through, outer, rest) ← captureFrom limit name outer rest
          match through with
          | none => pure (none, scope, outer :: rest)
          | some through => do
              let (found, captured) ← scope.capture limit (.outerCapture through)
              pure (some found, captured, outer :: rest)

/-- What a name denotes in the innermost function. -/
def resolve (limit : Nat) (name : String) : Scopes → Except Complaint (Place × Scopes)
  | [] => .ok (.global, [])
  | scope :: rest =>
      match scope.find? name with
      | some index => .ok (.slot (UInt16.ofNat index), scope :: rest)
      | none => do
          let (found, scope, rest) ← captureFrom limit name scope rest
          match found with
          | some index => pure (.capture index, scope :: rest)
          | none => pure (.global, scope :: rest)

end Scopes

end PocketScript
