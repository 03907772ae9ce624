import PocketScript.Proofs.Compile.Captures

/-!
# Names without bounds

The names of nested functions as they would be resolved if slots and captures could have any number
(`Draft.resolve`). Scopes whose captures have 16 bits resolve and declare names in the same way
(`Scopes.resolve_widened`, `FunctionScope.declare_widened`).
-/

namespace PocketScript

namespace Draft

/-- What a name denotes, seen from the innermost function. -/
inductive Spot where
  | slot (index : Nat)
  | capture (index : Nat)
  | global
  deriving DecidableEq, Repr

/-- Where a function finds the variable it captures when it is created. -/
inductive Source where
  | outerSlot (index : Nat)
  | outerCapture (index : Nat)
  deriving DecidableEq, Repr

/-- The names of one function. -/
structure Scope where
  slots : Array String := #[]
  captured : Array Bool := #[]
  captures : Array Source := #[]
  argCount : Nat := 0
  deriving DecidableEq, Repr

/-- The index of an item, which is added behind the others unless it is among them. -/
def enter {α : Type} [BEq α] (items : Array α) (item : α) : Nat × Array α :=
  match items.findIdx? (· == item) with
  | some index => (index, items)
  | none => (items.size, items.push item)

namespace Scope

def find? (scope : Scope) (name : String) : Option Nat := scope.slots.findIdx? (· == name)

/-- Gives a name a slot unless it has one, and tells its slot. -/
def declare (scope : Scope) (name : String) : Nat × Scope :=
  match scope.find? name with
  | some index => (index, scope)
  | none =>
      (scope.slots.size,
        { scope with slots := scope.slots.push name, captured := scope.captured.push false })

/-- Gives a parameter its slot. -/
def declareParameter (scope : Scope) (name : String) : Scope :=
  let declared := (scope.declare name).2
  { declared with argCount := declared.argCount + 1 }

/-- The capture with a given source, added unless the function has it already. -/
def capture (scope : Scope) (source : Source) : Nat × Scope :=
  let (index, captures) := enter scope.captures source
  (index, { scope with captures })

def markCaptured (scope : Scope) (index : Nat) : Scope :=
  { scope with captured := scope.captured.setIfInBounds index true }

end Scope

/-- The capture through which a function sees a name of the functions around it, if one of these
declares the name. -/
def captureFrom (name : String) (scope : Scope) : List Scope → Option Nat × Scope × List Scope
  | [] => (none, scope, [])
  | outer :: rest =>
      match outer.find? name with
      | some index =>
          let (found, captured) := scope.capture (.outerSlot index)
          (some found, captured, outer.markCaptured index :: rest)
      | none =>
          let (through, outer, rest) := captureFrom name outer rest
          match through with
          | none => (none, scope, outer :: rest)
          | some through =>
              let (found, captured) := scope.capture (.outerCapture through)
              (some found, captured, outer :: rest)

/-- Gives a name a slot in the innermost function, and tells its slot. -/
def declareIn (name : String) : List Scope → Nat × List Scope
  | [] => (0, [])
  | scope :: outer =>
      let (index, scope) := scope.declare name
      (index, scope :: outer)

/-- Gives a parameter of the innermost function its slot. -/
def declareParameterIn (name : String) : List Scope → List Scope
  | [] => []
  | scope :: outer => scope.declareParameter name :: outer

/-- What a name denotes in the innermost function. -/
def resolveIn (name : String) : List Scope → Spot × List Scope
  | [] => (.global, [])
  | scope :: rest =>
      match scope.find? name with
      | some index => (.slot index, scope :: rest)
      | none =>
          let (found, scope, rest) := captureFrom name scope rest
          match found with
          | some index => (.capture index, scope :: rest)
          | none => (.global, scope :: rest)

end Draft

def Place.widened : Place → Draft.Spot
  | .slot index => .slot index.toNat
  | .capture index => .capture index.toNat
  | .global => .global

def CaptureSource.widened : CaptureSource → Draft.Source
  | .outerSlot index => .outerSlot index.toNat
  | .outerCapture index => .outerCapture index.toNat

theorem CaptureSource.widened_inj {one two : CaptureSource} :
    one.widened = two.widened ↔ one = two := by
  cases one <;> cases two <;> simp [widened, UInt16.toNat_inj]

namespace FunctionScope

variable {scope scope' : FunctionScope} {limit : Nat} {name : String} {index : UInt16}
  {source : CaptureSource}

/-- A scope whose numbers have no bound. -/
def widened (scope : FunctionScope) : Draft.Scope where
  slots := scope.slots
  captured := scope.captured
  captures := scope.captures.map CaptureSource.widened
  argCount := scope.argCount.toNat

theorem widened_empty : widened {} = {} := by
  simp only [widened, Array.map_empty]
  rfl

theorem find?_widened (scope : FunctionScope) (name : String) :
    scope.widened.find? name = scope.find? name := rfl

/-- A declared name has its slot, whose index is not cut off. -/
theorem declare_widened (proper : scope.Proper)
    (declared : scope.declare limit name = .ok (index, scope')) :
    scope.widened.declare name = (index.toNat, scope'.widened) := by
  unfold declare at declared
  rw [Draft.Scope.declare, find?_widened]
  cases found : scope.find? name with
  | some place =>
      rw [found] at declared
      cases declared
      have inside := find?_lt found
      have small := proper.small
      rw [toNat_ofNat_of_le (by omega)]
  | none =>
      rw [found] at declared
      simp only at declared
      split at declared
      · cases declared
      · rename_i room
        cases declared
        rw [toNat_ofNat_of_le (by omega)]
        rfl

/-- A parameter is counted, and the count is not cut off. -/
theorem declareParameter_widened (proper : scope.Proper)
    (declared : scope.declareParameter limit name = .ok (index, scope')) :
    scope.widened.declareParameter name = scope'.widened := by
  unfold declareParameter at declared
  split at declared
  · cases declared
  · rename_i missing
    obtain ⟨⟨place, named⟩, declaring, same⟩ := Scopes.bind_eq_ok declared
    cases same
    have grown := (declare_widens proper declaring).1
    have fewer : named.argCount.toNat + 1 ≤ named.slots.size := by
      unfold declare at declaring
      rw [missing] at declaring
      simp only at declaring
      split at declaring
      · cases declaring
      · cases declaring
        rw [Array.size_push]
        exact Nat.succ_le_succ proper.args
    have small := grown.small
    have counted : (named.argCount + 1).toNat = named.argCount.toNat + 1 := by
      rw [UInt16.toNat_add]
      exact Nat.mod_eq_of_lt (show named.argCount.toNat + 1 < 65536 by omega)
    rw [Draft.Scope.declareParameter, declare_widened proper declaring]
    simp only [widened, counted]

/-- A captured source has its place, whose index is not cut off as long as there are not too many. -/
theorem capture_widened (captured : scope.capture limit source = .ok (index, scope'))
    (few : scope'.captures.size ≤ 65535) :
    scope.widened.capture source.widened = (index.toNat, scope'.widened) := by
  have search : scope.widened.captures.findIdx? (· == source.widened) =
      scope.captures.findIdx? (· == source) := by
    rw [widened, Array.findIdx?_map]
    congr 1
    funext other
    rw [Bool.eq_iff_iff, Function.comp_apply, beq_iff_eq, beq_iff_eq, CaptureSource.widened_inj]
  unfold capture at captured
  rw [Draft.Scope.capture, Draft.enter, search]
  cases found : scope.captures.findIdx? (· == source) with
  | some place =>
      rw [found] at captured
      cases captured
      obtain ⟨inside, -⟩ := Array.findIdx?_eq_some_iff_getElem.mp found
      rw [toNat_ofNat_of_le (by omega)]
  | none =>
      rw [found] at captured
      simp only at captured
      split at captured
      · cases captured
      · cases captured
        rw [Array.size_push] at few
        rw [toNat_ofNat_of_le (by omega)]
        simp only [widened, Array.size_map, Array.map_push]

end FunctionScope

namespace Scopes

variable {scope scope' : FunctionScope} {outer outer' scopes scopes' : Scopes} {limit : Nat}
  {name : String}

/-- Scopes whose numbers have no bound. -/
def widened (scopes : Scopes) : List Draft.Scope := scopes.map FunctionScope.widened

/-- The captures of all functions have 16 bits. -/
def Bounded (scopes : Scopes) : Prop := ∀ scope ∈ scopes, scope.captures.size ≤ 65535

theorem Bounded.of_widen (bounded : Bounded scopes') (widen : Widen scopes scopes') :
    Bounded scopes := by
  induction widen with
  | nil => exact bounded
  | cons head _ _ ih =>
      intro scope member
      obtain rfl | member := List.mem_cons.mp member
      · exact Nat.le_trans head.captures_le (bounded _ List.mem_cons_self)
      · exact ih (fun scope member => bounded scope (List.mem_cons_of_mem _ member)) scope member

theorem captureFrom_widened {through : Option UInt16} (sane : Sane (scope :: outer))
    (captured : captureFrom limit name scope outer = .ok (through, scope', outer'))
    (bounded : Bounded (scope' :: outer')) :
    Draft.captureFrom name scope.widened (widened outer) =
      (through.map UInt16.toNat, scope'.widened, widened outer') := by
  induction outer generalizing scope scope' through outer' with
  | nil =>
      cases captured
      rfl
  | cons next rest ih =>
      obtain ⟨proper, found, saneNext⟩ := sane
      have few := bounded scope' List.mem_cons_self
      have boundedOuter : Bounded outer' := fun scope member =>
        bounded scope (List.mem_cons_of_mem _ member)
      unfold captureFrom at captured
      rw [widened, List.map_cons, Draft.captureFrom, FunctionScope.find?_widened]
      cases there : next.find? name with
      | some slot =>
          rw [there] at captured
          obtain ⟨⟨place, taken⟩, capturing, same⟩ := bind_eq_ok captured
          cases same
          have inside := FunctionScope.find?_lt there
          have small := saneNext.1.small
          have source : (CaptureSource.outerSlot (UInt16.ofNat slot)).widened = .outerSlot slot := by
            rw [CaptureSource.widened, toNat_ofNat_of_le (by omega)]
          simp only [← source, FunctionScope.capture_widened capturing few]
          rfl
      | none =>
          rw [there] at captured
          obtain ⟨⟨through, next', rest'⟩, seen, captured⟩ := bind_eq_ok captured
          cases through with
          | none =>
              cases captured
              have inner := ih saneNext seen boundedOuter
              rw [widened] at inner
              simp only [inner]
              rfl
          | some through =>
              obtain ⟨⟨place, taken⟩, capturing, same⟩ := bind_eq_ok captured
              cases same
              have inner := ih saneNext seen boundedOuter
              have source : (CaptureSource.outerCapture through).widened =
                  .outerCapture through.toNat := rfl
              rw [widened] at inner
              simp only [inner, Option.map_some, ← source,
                FunctionScope.capture_widened capturing few]
              rfl

/-- A name denotes what it would denote without bounds. -/
theorem resolve_widened {place : Place} (sane : Sane scopes)
    (resolved : resolve limit name scopes = .ok (place, scopes')) (bounded : Bounded scopes') :
    Draft.resolveIn name (widened scopes) = (place.widened, widened scopes') := by
  cases scopes with
  | nil =>
      cases resolved
      rfl
  | cons scope outer =>
      rw [resolve] at resolved
      rw [widened, List.map_cons, Draft.resolveIn, FunctionScope.find?_widened]
      cases found : scope.find? name with
      | some slot =>
          rw [found] at resolved
          cases resolved
          have inside := FunctionScope.find?_lt found
          have small := sane.1.small
          rw [Place.widened, toNat_ofNat_of_le (by omega)]
          rfl
      | none =>
          rw [found] at resolved
          obtain ⟨⟨through, scope', outer'⟩, captured, resolved⟩ := bind_eq_ok resolved
          cases through
          all_goals
            cases resolved
            have inner := captureFrom_widened sane captured bounded
            rw [widened] at inner
            simp only [inner]
            rfl

end Scopes

end PocketScript
