import PocketScript.Proofs.Compile.Scopes

/-!
# Captures lead to variables

While functions are compiled, whatever one of them captures is found in the function around it: in a
slot that is known to be captured, or among the captures of that function (`Scopes.Sane`). Resolving
and declaring names keeps this, and leaves everything found before where it was (`Scopes.Widen`).
-/

namespace PocketScript

namespace FunctionScope

variable {before middle after scope scope' : FunctionScope} {limit slot : Nat} {index : UInt16}
  {name : String} {source : CaptureSource}

/-- An inner function captures the variable in a slot. -/
def Captured (scope : FunctionScope) (slot : Nat) : Prop := scope.captured[slot]? = some true

/-- The parts of a scope fit together, and slots have 16 bits. -/
structure Proper (scope : FunctionScope) : Prop where
  captured : scope.captured.size = scope.slots.size
  small : scope.slots.size ≤ 65535
  args : scope.argCount.toNat ≤ scope.slots.size

/-- There are further slots and captures behind those there were. -/
structure Widens (before after : FunctionScope) : Prop where
  slots : ∃ more, after.slots = before.slots ++ more
  captures : ∃ more, after.captures = before.captures ++ more
  captured : ∀ slot, before.Captured slot → after.Captured slot

/-- A scope is as wide as itself. -/
theorem Widens.refl (scope : FunctionScope) : Widens scope scope :=
  ⟨⟨#[], Array.append_empty.symm⟩, ⟨#[], Array.append_empty.symm⟩, fun _ => id⟩

/-- And it may be widened step by step. -/
theorem Widens.trans (first : Widens before middle) (second : Widens middle after) :
    Widens before after := by
  obtain ⟨⟨slots, sameSlots⟩, ⟨captures, sameCaptures⟩, captured⟩ := first
  obtain ⟨⟨slots', sameSlots'⟩, ⟨captures', sameCaptures'⟩, captured'⟩ := second
  exact ⟨⟨slots ++ slots', by rw [sameSlots', sameSlots, Array.append_assoc]⟩,
    ⟨captures ++ captures', by rw [sameCaptures', sameCaptures, Array.append_assoc]⟩,
    fun slot there => captured' slot (captured slot there)⟩

/-- Slots are only added. -/
theorem Widens.slots_le (widens : Widens before after) :
    before.slots.size ≤ after.slots.size := by
  obtain ⟨more, same⟩ := widens.slots
  rw [same, Array.size_append]
  omega

/-- And so are captures. -/
theorem Widens.captures_le (widens : Widens before after) :
    before.captures.size ≤ after.captures.size := by
  obtain ⟨more, same⟩ := widens.captures
  rw [same, Array.size_append]
  omega

/-- Those that were there stay. -/
theorem Widens.mem_captures (widens : Widens before after) (member : source ∈ before.captures) :
    source ∈ after.captures := by
  obtain ⟨more, same⟩ := widens.captures
  rw [same]
  exact Array.mem_append_left more member

/-- A captured slot is one of the scope. -/
theorem Captured.lt (proper : scope.Proper) (captured : scope.Captured slot) :
    slot < scope.slots.size := by
  obtain ⟨inside, -⟩ := Array.getElem?_eq_some_iff.mp captured
  exact proper.captured ▸ inside

/-- So its number has 16 bits. -/
theorem Captured.toNat_ofNat (proper : scope.Proper) (captured : scope.Captured slot) :
    (UInt16.ofNat slot).toNat = slot := by
  have inside := captured.lt proper
  have small := proper.small
  exact UInt16.toNat_ofNat_of_lt' (show slot < 65536 by omega)

theorem toNat_ofNat_le (count : Nat) : (UInt16.ofNat count).toNat ≤ count := by
  rw [UInt16.toNat_ofNat']
  exact Nat.mod_le _ _

/-- A name is found in one of the slots. -/
theorem find?_lt {slot : Nat} (found : scope.find? name = some slot) : slot < scope.slots.size := by
  obtain ⟨inside, -⟩ := Array.findIdx?_eq_some_iff_getElem.mp found
  exact inside

/-! ## Declaring names -/

/-- A declared name has its slot among those of the function. -/
theorem declare_widens (proper : scope.Proper)
    (declared : scope.declare limit name = .ok (index, scope')) :
    scope'.Proper ∧ Widens scope scope' ∧ index.toNat < scope'.slots.size ∧
      scope'.captures = scope.captures ∧ ∀ slot, scope'.Captured slot → scope.Captured slot := by
  unfold declare at declared
  split at declared
  · rename_i place found
    cases declared
    exact ⟨proper, .refl scope, Nat.lt_of_le_of_lt (toNat_ofNat_le place) (find?_lt found), rfl,
      fun _ => id⟩
  · simp only at declared
    split at declared
    · cases declared
    · rename_i room
      cases declared
      have same := proper.captured
      have args := proper.args
      refine ⟨⟨?_, ?_, ?_⟩, ⟨⟨#[name], rfl⟩, ⟨#[], Array.append_empty.symm⟩, fun slot there => ?_⟩,
        ?_, rfl, fun slot there => ?_⟩
      · simp only [Array.size_push, same]
      · rw [Array.size_push]
        omega
      · rw [Array.size_push]
        exact Nat.le_succ_of_le args
      · have inside := there.lt proper
        exact (Array.getElem?_push_lt (same ▸ inside)).trans
          ((Array.getElem?_eq_getElem (same ▸ inside)).symm.trans there)
      · rw [Array.size_push]
        exact Nat.lt_succ_of_le (toNat_ofNat_le _)
      · change (scope.captured.push false)[slot]? = some true at there
        rw [Array.getElem?_push] at there
        split at there
        · cases there
        · exact there

/-- To declare a parameter widens the scope by its slot. -/
theorem declareParameter_widens (proper : scope.Proper)
    (declared : scope.declareParameter limit name = .ok (index, scope')) :
    scope'.Proper ∧ Widens scope scope' ∧ scope'.captures = scope.captures ∧
      ∀ slot, scope'.Captured slot → scope.Captured slot := by
  unfold declareParameter at declared
  split at declared
  · cases declared
  · rename_i missing
    obtain ⟨⟨place, named⟩, declaring, same⟩ := Scopes.bind_eq_ok declared
    cases same
    have size : named.slots.size = scope.slots.size + 1 ∧ named.argCount = scope.argCount := by
      unfold declare at declaring
      rw [missing] at declaring
      simp only at declaring
      split at declaring
      · cases declaring
      · cases declaring
        exact ⟨Array.size_push _, rfl⟩
    obtain ⟨grown, widens, -, captures, captured⟩ := declare_widens proper declaring
    refine ⟨⟨grown.captured, grown.small, ?_⟩, ⟨widens.slots, widens.captures, widens.captured⟩,
      captures, captured⟩
    have args := proper.args
    have carried : (named.argCount + 1).toNat ≤ named.argCount.toNat + 1 := by
      rw [UInt16.toNat_add]
      exact Nat.mod_le _ _
    rw [size.2] at carried
    simp only [size.1, size.2]
    omega

/-! ## Capturing variables -/

/-- A captured source is among the captures of the function. -/
theorem capture_widens (captured : scope.capture limit source = .ok (index, scope')) :
    Widens scope scope' ∧ scope'.slots = scope.slots ∧ scope'.captured = scope.captured ∧
      scope'.argCount = scope.argCount ∧ source ∈ scope'.captures ∧
        index.toNat < scope'.captures.size ∧
          ∀ other ∈ scope'.captures, other ∈ scope.captures ∨ other = source := by
  unfold capture at captured
  split at captured
  · rename_i place found
    cases captured
    obtain ⟨inside, same, -⟩ := Array.findIdx?_eq_some_iff_getElem.mp found
    refine ⟨.refl scope, rfl, rfl, rfl, ?_, Nat.lt_of_le_of_lt (toNat_ofNat_le place) inside,
      fun _ => .inl⟩
    exact eq_of_beq same ▸ Array.getElem_mem inside
  · simp only at captured
    split at captured
    · cases captured
    · cases captured
      refine ⟨⟨⟨#[], Array.append_empty.symm⟩, ⟨#[source], rfl⟩, fun _ => id⟩, rfl, rfl, rfl,
        Array.mem_push_self, ?_, fun other member => Array.mem_push.mp member⟩
      rw [Array.size_push]
      exact Nat.lt_succ_of_le (toNat_ofNat_le _)

/-- A slot that is marked is captured from then on. -/
theorem captured_markCaptured {slot other : Nat} (proper : scope.Proper)
    (inside : slot < scope.slots.size) :
    (scope.markCaptured slot).Captured other ↔ other = slot ∨ scope.Captured other := by
  unfold markCaptured Captured
  have there : slot < scope.captured.size := by
    rw [proper.captured]
    exact inside
  rw [Array.getElem?_setIfInBounds]
  by_cases same : slot = other
  · subst same
    rw [if_pos rfl, if_pos there]
    exact ⟨fun _ => .inl rfl, fun _ => rfl⟩
  · rw [if_neg same]
    exact ⟨.inr, fun which => which.resolve_left (Ne.symm same)⟩

/-- And that is all that is changed. -/
theorem markCaptured_widens {slot : Nat} (proper : scope.Proper)
    (inside : slot < scope.slots.size) :
    (scope.markCaptured slot).Proper ∧ Widens scope (scope.markCaptured slot) :=
  ⟨⟨(Array.size_setIfInBounds ..).trans proper.captured, proper.small, proper.args⟩,
    ⟨#[], Array.append_empty.symm⟩, ⟨#[], Array.append_empty.symm⟩, fun _ there =>
      (captured_markCaptured proper inside).mpr (.inr there)⟩

end FunctionScope

/-- A function finds what it captures in a slot of the function around it that is known to be
captured, or among the captures of that function. -/
def CaptureSource.FoundIn (source : CaptureSource) : Scopes → Prop
  | [] => False
  | scope :: _ =>
      match source with
      | .outerSlot index => scope.Captured index.toNat
      | .outerCapture index => index.toNat < scope.captures.size

namespace Scopes

variable {before middle after outer outer' scopes : Scopes} {scope scope' : FunctionScope}
  {limit slot : Nat} {name : String} {source : CaptureSource}

/-- All functions find what they capture. -/
def Sane : Scopes → Prop
  | [] => True
  | scope :: outer =>
      scope.Proper ∧ (∀ source ∈ scope.captures, source.FoundIn outer) ∧ Sane outer

/-- A function inside captures a slot of the innermost one of some functions. -/
def IsCaptured (slot : Nat) : Scopes → Prop
  | [] => False
  | scope :: _ => scope.Captured slot

/-- All functions have further slots and captures behind those they had, and whatever slot is
captured now is captured by the function right inside. -/
inductive Widen : Scopes → Scopes → Prop
  | nil : Widen [] []
  | cons {inner inner' : FunctionScope} {around around' : Scopes} :
      inner.Widens inner' → Widen around around' →
        (∀ slot, IsCaptured slot around' → IsCaptured slot around ∨
          .outerSlot (UInt16.ofNat slot) ∈ inner'.captures) →
          Widen (inner :: around) (inner' :: around')

/-- Scopes are as wide as themselves. -/
theorem Widen.refl : (scopes : Scopes) → Widen scopes scopes
  | [] => .nil
  | scope :: outer => .cons (.refl scope) (refl outer) fun _ => .inl

/-- And they may be widened step by step. -/
theorem Widen.trans (first : Widen before middle) (second : Widen middle after) :
    Widen before after := by
  induction first generalizing after with
  | nil => exact second
  | cons head tail captured ih =>
      cases second with
      | cons head' tail' captured' =>
          refine .cons (head.trans head') (ih tail') fun slot there => ?_
          obtain earlier | now := captured' slot there
          · exact (captured slot earlier).imp_right head'.mem_captures
          · exact .inr now

theorem Widen.eq_nil (widen : Widen [] after) : after = [] := by
  cases widen
  rfl

/-- Only the innermost function changes. -/
theorem Widen.head (widens : scope.Widens scope') : Widen (scope :: outer) (scope' :: outer) :=
  .cons widens (.refl outer) fun _ => .inl

/-- What a capture comes from stays there. -/
theorem Widen.foundIn (widen : Widen before after) (found : source.FoundIn before) :
    source.FoundIn after := by
  cases widen with
  | nil => exact found
  | cons head _ _ =>
      cases source with
      | outerSlot index => exact head.captured _ found
      | outerCapture index => exact Nat.lt_of_lt_of_le found head.captures_le

/-- A name that functions around declare is among the captures of a function. -/
theorem captureFrom_widens {through : Option UInt16} (sane : Sane (scope :: outer))
    (captured : captureFrom limit name scope outer = .ok (through, scope', outer')) :
    Sane (scope' :: outer') ∧ Widen (scope :: outer) (scope' :: outer') ∧
      scope'.captured = scope.captured ∧
        ∀ index, through = some index → index.toNat < scope'.captures.size := by
  induction outer generalizing scope scope' through outer' with
  | nil =>
      cases captured
      exact ⟨sane, .refl _, rfl, fun _ some => by cases some⟩
  | cons next rest ih =>
      obtain ⟨proper, found, properNext, foundNext, saneRest⟩ := sane
      unfold captureFrom at captured
      split at captured
      · -- The next function declares the name in a slot, which is captured from now on.
        rename_i slot there
        obtain ⟨⟨place, taken⟩, capturing, same⟩ := bind_eq_ok captured
        cases same
        have inside := FunctionScope.find?_lt there
        obtain ⟨widens, slots, captured, args, member, small, sources⟩ :=
          FunctionScope.capture_widens capturing
        obtain ⟨properMarked, marks⟩ := FunctionScope.markCaptured_widens properNext inside
        have marked : (next.markCaptured slot).Captured slot :=
          (FunctionScope.captured_markCaptured properNext inside).mpr (.inl rfl)
        have outerWidens : Widen (next :: rest) (next.markCaptured slot :: rest) := .head marks
        refine ⟨⟨⟨by rw [captured, slots]; exact proper.captured, by rw [slots]; exact proper.small,
          by rw [args, slots]; exact proper.args⟩, fun source capture => ?_, properMarked, foundNext,
          saneRest⟩, .cons widens outerWidens fun other now => ?_, captured, fun index some => ?_⟩
        · obtain before | rfl := sources source capture
          · exact outerWidens.foundIn (found source before)
          · change (next.markCaptured slot).Captured (UInt16.ofNat slot).toNat
            rw [marked.toNat_ofNat properMarked]
            exact marked
        · obtain rfl | before := (FunctionScope.captured_markCaptured properNext inside).mp now
          · exact .inr member
          · exact .inl before
        · cases some
          exact small
      · -- The next function captures the name itself, if it is declared at all.
        obtain ⟨⟨through, next', rest'⟩, inner, captured⟩ := bind_eq_ok captured
        obtain ⟨⟨properNext', foundNext', saneRest'⟩, widens, captured', small⟩ :=
          ih ⟨properNext, foundNext, saneRest⟩ inner
        have unmarked : ∀ other, IsCaptured other (next' :: rest') →
            IsCaptured other (next :: rest) := fun other now => by
          change next'.captured[other]? = some true at now
          rw [captured'] at now
          exact now
        cases through with
        | none =>
            cases captured
            exact ⟨⟨proper, fun source capture => widens.foundIn (found source capture),
              properNext', foundNext', saneRest'⟩,
              .cons (.refl scope) widens fun other now => .inl (unmarked other now), rfl,
              fun index some => by cases some⟩
        | some through =>
            obtain ⟨⟨place, taken⟩, capturing, same⟩ := bind_eq_ok captured
            cases same
            obtain ⟨grows, slots, captured, args, member, inside, sources⟩ :=
              FunctionScope.capture_widens capturing
            refine ⟨⟨⟨by rw [captured, slots]; exact proper.captured,
              by rw [slots]; exact proper.small, by rw [args, slots]; exact proper.args⟩,
              fun source capture => ?_, properNext', foundNext', saneRest'⟩,
              .cons grows widens fun other now => .inl (unmarked other now), captured,
              fun index some => ?_⟩
            · obtain before | rfl := sources source capture
              · exact widens.foundIn (found source before)
              · exact small through rfl
            · cases some
              exact inside

/-- How many slots, and how many captures, the innermost function has. The top level has one slot,
for its result. -/
def slotCount : Scopes → Nat
  | [] => 1
  | scope :: _ => scope.slots.size

def captureCount : Scopes → Nat
  | [] => 0
  | scope :: _ => scope.captures.size

/-- A place is there in the innermost function. -/
def Has (scopes : Scopes) : Place → Prop
  | .slot index => index.toNat < scopes.slotCount
  | .capture index => index.toNat < scopes.captureCount
  | .global => True

theorem Widen.slotCount_le (widen : Widen before after) : before.slotCount ≤ after.slotCount := by
  cases widen with
  | nil => exact Nat.le_refl _
  | cons head _ _ => exact head.slots_le

theorem Widen.captureCount_le (widen : Widen before after) :
    before.captureCount ≤ after.captureCount := by
  cases widen with
  | nil => exact Nat.le_refl _
  | cons head _ _ => exact head.captures_le

/-- What was captured stays so. -/
theorem Widen.isCaptured (widen : Widen before after) (captured : IsCaptured slot before) :
    IsCaptured slot after := by
  cases widen with
  | nil => exact captured
  | cons head _ _ => exact head.captured _ captured

/-- And every place that there was is there. -/
theorem Widen.has (widen : Widen before after) {place : Place} (has : before.Has place) :
    after.Has place := by
  cases place with
  | slot index => exact Nat.lt_of_lt_of_le has widen.slotCount_le
  | capture index => exact Nat.lt_of_lt_of_le has widen.captureCount_le
  | global => trivial

/-- Whatever a name denotes is there. -/
theorem resolve_widens {place : Place} (sane : Sane before)
    (resolved : resolve limit name before = .ok (place, after)) :
    Sane after ∧ Widen before after ∧ after.Has place ∧
      ∀ slot, IsCaptured slot after → IsCaptured slot before := by
  cases before with
  | nil =>
      cases resolved
      exact ⟨trivial, .nil, trivial, fun _ => id⟩
  | cons scope outer =>
      rw [resolve] at resolved
      split at resolved
      · rename_i index found
        cases resolved
        exact ⟨sane, .refl _, Nat.lt_of_le_of_lt (FunctionScope.toNat_ofNat_le index)
          (FunctionScope.find?_lt found), fun _ => id⟩
      · obtain ⟨⟨through, scope', outer'⟩, captured, resolved⟩ := bind_eq_ok resolved
        obtain ⟨sane', widens, same, small⟩ := captureFrom_widens sane captured
        have unmarked : ∀ slot, IsCaptured slot (scope' :: outer') →
            IsCaptured slot (scope :: outer) := fun slot now => by
          change scope'.captured[slot]? = some true at now
          rw [same] at now
          exact now
        cases through with
        | none =>
            cases resolved
            exact ⟨sane', widens, trivial, unmarked⟩
        | some index =>
            cases resolved
            exact ⟨sane', widens, small index rfl, unmarked⟩

end Scopes

end PocketScript
