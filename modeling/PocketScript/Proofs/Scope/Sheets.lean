import PocketScript.Proofs.Scope.Chains

/-!
# The names of slots and captures

A capture stands for a variable of some function around, which it reaches through the captures of those
between. So each slot and each capture has a name (`Scopes.sheet`), which it keeps while captures are
added (`Scopes.Steady.refines`). Whatever place a name is resolved to has this name; a name that is
resolved to a global has no slot in any of the functions around (`Scopes.named_resolve`).
-/

namespace PocketScript

/-- The names of a function's slots and captures. -/
structure Sheet where
  slots : List String := []
  /-- A capture whose source does not exist has no name. -/
  captures : List (Option String) := []
  deriving DecidableEq, Repr, Inhabited

/-- The place that a captured variable has in the function around. -/
def CaptureSource.place : CaptureSource → Place
  | outerSlot index => .slot index
  | outerCapture index => .capture index

namespace Sheet

/-- The name of the variable in a place. A capture counts only if the function has no slot of the name
itself. -/
def name? (sheet : Sheet) : Place → Option String
  | .slot index => sheet.slots[index.toNat]?
  | .capture index => sheet.captures[index.toNat]?.join.filter (· ∉ sheet.slots)
  | .global => none

/-- Every slot keeps its name, and every capture the one it has. -/
structure Refines (before after : Sheet) : Prop where
  slots : after.slots = before.slots
  captures : ∀ (index : Nat) name, before.captures[index]? = some (some name) →
    after.captures[index]? = some (some name)

variable {before middle after sheet : Sheet} {place : Place} {name : String} {index : UInt16}

theorem Refines.refl (sheet : Sheet) : Refines sheet sheet := ⟨rfl, fun _ _ => id⟩

theorem name?_capture : sheet.name? (.capture index) = some name ↔
    sheet.captures[index.toNat]? = some (some name) ∧ name ∉ sheet.slots := by
  rw [Sheet.name?, Option.filter_eq_some_iff, Option.join_eq_some_iff, decide_eq_true_eq]

theorem Refines.name? (refines : Refines before after) (named : before.name? place = some name) :
    after.name? place = some name := by
  cases place with
  | slot index => rwa [Sheet.name?, refines.slots]
  | capture index =>
      obtain ⟨there, other⟩ := name?_capture.mp named
      exact name?_capture.mpr ⟨refines.captures _ _ there, by rwa [refines.slots]⟩
  | global => exact named

end Sheet

namespace FunctionScope

/-- The slots of the function are the variables of some names, one for each name. -/
structure Lists (scope : FunctionScope) (names : List String) : Prop where
  few : scope.slots.size ≤ 65535
  nodup : scope.slots.toList.Nodup
  mem : ∀ name, name ∈ scope.slots ↔ name ∈ names

end FunctionScope

namespace Scopes

/-- The names of the innermost function's slots and captures. -/
def sheet : Scopes → Sheet
  | [] => {}
  | scope :: outer =>
      { slots := scope.slots.toList
        captures := scope.captures.toList.map fun source => (sheet outer).name? source.place }

/-- The slots of each function are the variables of its names. -/
def Lists (scopes : Scopes) (names : List (List String)) : Prop :=
  List.Forall₂ FunctionScope.Lists scopes names

variable {before after scopes : Scopes} {names : List (List String)} {name : String} {limit : Nat}

theorem Steady.refines (steady : Steady before after) : before.sheet.Refines after.sheet := by
  induction steady with
  | nil => exact .refl _
  | cons head tail ih =>
      obtain ⟨slots, more, captures⟩ := head
      refine ⟨congrArg Array.toList slots, fun index name there => ?_⟩
      simp only [sheet, List.getElem?_map, Option.map_eq_some_iff] at there ⊢
      obtain ⟨source, found, named⟩ := there
      refine ⟨source, ?_, ih.name? named⟩
      rw [captures, Array.toList_append]
      exact List.getElem?_append_left (List.getElem?_eq_some_iff.mp found).1 ▸ found

theorem Steady.numbered (steady : Steady before after) (numbered : after.Numbered) :
    before.Numbered := by
  induction steady with
  | nil => exact numbered
  | cons head tail ih =>
      obtain ⟨here, others⟩ := List.forall_mem_cons.mp numbered
      obtain ⟨-, more, captures⟩ := head
      refine List.forall_mem_cons.mpr ⟨?_, ih others⟩
      rw [captures, Array.size_append] at here
      omega

theorem Steady.lists (steady : Steady before after) (lists : before.Lists names) :
    after.Lists names := by
  induction steady generalizing names with
  | nil => exact lists
  | cons head tail ih =>
      cases lists with
      | cons own around =>
          refine .cons ?_ (ih around)
          exact ⟨head.1 ▸ own.few, head.1 ▸ own.nodup, head.1 ▸ own.mem⟩

theorem Lists.isEmpty (lists : scopes.Lists names) : names.isEmpty = scopes.isEmpty := by
  cases lists <;> rfl

/-- A name without a slot in any function around is none of their names. -/
theorem Lists.none (lists : scopes.Lists names) (missing : ∀ scope ∈ scopes, name ∉ scope.slots) :
    ∀ own ∈ names, name ∉ own := by
  induction lists with
  | nil => exact fun own member => absurd member List.not_mem_nil
  | cons own around ih =>
      obtain ⟨here, others⟩ := List.forall_mem_cons.mp missing
      exact List.forall_mem_cons.mpr ⟨fun member => here ((own.mem name).mpr member), ih others⟩

/-- A slot that was found has the name. -/
theorem name?_slot {scope : FunctionScope} {outer : Scopes} {index : Nat}
    (few : scope.slots.size ≤ 65535) (found : scope.find? name = some index) :
    (sheet (scope :: outer)).name? (.slot (UInt16.ofNat index)) = some name := by
  obtain ⟨inside, same, -⟩ := Array.findIdx?_eq_some_iff_getElem.mp found
  rw [Sheet.name?, toNat_ofNat_of_le (by omega)]
  simp only [sheet]
  rw [Array.getElem?_toList, Array.getElem?_eq_getElem inside, eq_of_beq same]

/-- A capture is of the variable in its source. -/
theorem name?_captured {scope : FunctionScope} {outer : Scopes} {source : CaptureSource} {place : Nat}
    (there : scope.captures[place]? = some source)
    (named : outer.sheet.name? source.place = some name) :
    (sheet (scope :: outer)).captures[place]? = some (some name) := by
  simp only [sheet]
  rw [List.getElem?_map, Array.getElem?_toList, there]
  exact congrArg some named

/-- What a function captures for a name is the variable of that name in the nearest function around. -/
theorem named_captureFrom {outer outer' : List FunctionScope} {scope scope' : FunctionScope}
    {through : Option UInt16} (few : ∀ scope ∈ outer, scope.slots.size ≤ 65535)
    (captured : captureFrom limit name scope outer = .ok (through, scope', outer')) :
    match through with
    | none => ∀ scope ∈ outer', name ∉ scope.slots
    | some index => Numbered (scope' :: outer') →
        (sheet (scope' :: outer')).captures[index.toNat]? = some (some name) := by
  induction outer generalizing scope scope' through outer' with
  | nil =>
      cases captured
      exact fun _ member => absurd member List.not_mem_nil
  | cons next rest ih =>
      obtain ⟨few, others⟩ := List.forall_mem_cons.mp few
      unfold captureFrom at captured
      split at captured
      · rename_i index found
        obtain ⟨⟨capture, taken⟩, capturing, same⟩ := bind_eq_ok captured
        cases same
        exact fun numbered => name?_captured
          (FunctionScope.getElem?_of_capture capturing (numbered _ List.mem_cons_self))
          (name?_slot few found)
      · rename_i missing
        obtain ⟨⟨through', next', rest'⟩, inner, captured⟩ := bind_eq_ok captured
        obtain ⟨grown, -⟩ := steady_captureFrom inner
        have other : name ∉ next'.slots := grown.1 ▸ FunctionScope.find?_eq_none.mp missing
        have known := ih others inner
        cases through' with
        | none =>
            cases captured
            exact List.forall_mem_cons.mpr ⟨other, known⟩
        | some through' =>
            obtain ⟨⟨capture, taken⟩, capturing, same⟩ := bind_eq_ok captured
            cases same
            intro numbered
            refine name?_captured
              (FunctionScope.getElem?_of_capture capturing (numbered _ List.mem_cons_self))
              (Sheet.name?_capture.mpr ⟨known fun scope member =>
                numbered scope (List.mem_cons_of_mem _ member), ?_⟩)
            rwa [sheet, Array.mem_toList_iff]

/-- A place has the name that was resolved to it, and a global's name belongs to no function around. -/
theorem named_resolve {place : Place} (lists : before.Lists names)
    (resolved : resolve limit name before = .ok (place, after)) :
    match place with
    | .global => ∀ own ∈ names, name ∉ own
    | place => after.Numbered → after.sheet.name? place = some name := by
  have few : ∀ scope ∈ before, scope.slots.size ≤ 65535 := by
    clear resolved
    induction lists with
    | nil => exact fun _ member => absurd member List.not_mem_nil
    | cons own _ ih => exact List.forall_mem_cons.mpr ⟨own.few, ih⟩
  have lists' := (knows_resolve resolved).1.lists lists
  cases before with
  | nil =>
      cases resolved
      exact lists'.none fun _ member => absurd member List.not_mem_nil
  | cons scope outer =>
      obtain ⟨here, others⟩ := List.forall_mem_cons.mp few
      rw [resolve] at resolved
      split at resolved
      · rename_i index found
        cases resolved
        exact fun _ => name?_slot here found
      · rename_i missing
        obtain ⟨⟨through, scope', outer'⟩, captured, resolved⟩ := bind_eq_ok resolved
        obtain ⟨steady, -⟩ := steady_captureFrom captured
        have other : name ∉ scope'.slots := steady.1 ▸ FunctionScope.find?_eq_none.mp missing
        have known := named_captureFrom others captured
        cases through with
        | none =>
            cases resolved
            exact lists'.none (List.forall_mem_cons.mpr ⟨other, known⟩)
        | some through =>
            cases resolved
            exact fun numbered => Sheet.name?_capture.mpr ⟨known numbered, by
              rwa [sheet, Array.mem_toList_iff]⟩

/-! ## Parameters -/

theorem argCount_capture {scope scope' : FunctionScope} {source : CaptureSource} {index : UInt16}
    (captured : scope.capture limit source = .ok (index, scope')) :
    scope'.argCount = scope.argCount := (FunctionScope.capture_widens captured).2.2.2.1

theorem argCounts_captureFrom {outer outer' : List FunctionScope} {scope scope' : FunctionScope}
    {through : Option UInt16}
    (captured : captureFrom limit name scope outer = .ok (through, scope', outer')) :
    scope'.argCount = scope.argCount ∧ outer'.map (·.argCount) = outer.map (·.argCount) := by
  induction outer generalizing scope scope' through outer' with
  | nil =>
      cases captured
      exact ⟨rfl, rfl⟩
  | cons next rest ih =>
      unfold captureFrom at captured
      split at captured
      · obtain ⟨⟨capture, taken⟩, capturing, same⟩ := bind_eq_ok captured
        cases same
        exact ⟨argCount_capture capturing, rfl⟩
      · obtain ⟨⟨through', next', rest'⟩, inner, captured⟩ := bind_eq_ok captured
        obtain ⟨head, tail⟩ := ih inner
        have both : (next' :: rest').map (·.argCount) = (next :: rest).map (·.argCount) := by
          rw [List.map_cons, List.map_cons, head, tail]
        cases through' with
        | none =>
            cases captured
            exact ⟨rfl, both⟩
        | some through' =>
            obtain ⟨⟨capture, taken⟩, capturing, same⟩ := bind_eq_ok captured
            cases same
            exact ⟨argCount_capture capturing, both⟩

/-- Resolving a name leaves every function its parameters. -/
theorem argCounts_resolve {place : Place} (resolved : resolve limit name before = .ok (place, after)) :
    after.map (·.argCount) = before.map (·.argCount) := by
  cases before with
  | nil =>
      cases resolved
      rfl
  | cons scope outer =>
      rw [resolve] at resolved
      split at resolved
      · cases resolved
        rfl
      · obtain ⟨⟨through, scope', outer'⟩, captured, resolved⟩ := bind_eq_ok resolved
        obtain ⟨head, tail⟩ := argCounts_captureFrom captured
        cases through <;>
          · cases resolved
            rw [List.map_cons, List.map_cons, head, tail]

end Scopes

end PocketScript
