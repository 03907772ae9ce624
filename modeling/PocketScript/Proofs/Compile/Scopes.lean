import PocketScript.Scope

/-!
# Names keep their places

While an expression is compiled the functions around it get further captures and nothing else
(`Scopes.Steady`), so a name that was resolved once is resolved to the same place ever after
(`Scopes.knows_resolve`). Statements may also declare variables of the innermost function
(`Scopes.Grows`).
-/

namespace PocketScript

/-- An index or a count that has 16 bits is not cut off. -/
theorem toNat_ofNat_of_le {count : Nat} (few : count ≤ 65535) :
    (UInt16.ofNat count).toNat = count := by
  rw [UInt16.toNat_ofNat', Nat.mod_eq_of_lt (by omega)]

namespace FunctionScope

variable {before middle after : FunctionScope} {limit : Nat}

/-- The function has the same slots, and further captures behind those it had. -/
def Steady (before after : FunctionScope) : Prop :=
  after.slots = before.slots ∧ ∃ more, after.captures = before.captures ++ more

theorem Steady.refl (scope : FunctionScope) : Steady scope scope :=
  ⟨rfl, #[], by rw [Array.append_empty]⟩

theorem Steady.trans (first : Steady before middle) (second : Steady middle after) :
    Steady before after := by
  obtain ⟨slots, more, captures⟩ := first
  obtain ⟨slots', more', captures'⟩ := second
  refine ⟨slots'.trans slots, more ++ more', ?_⟩
  rw [captures', captures, Array.append_assoc]

theorem Steady.find? (steady : Steady before after) (name : String) :
    after.find? name = before.find? name := by
  unfold FunctionScope.find?
  rw [steady.1]

theorem steady_markCaptured (scope : FunctionScope) (index : Nat) :
    Steady scope (scope.markCaptured index) :=
  ⟨rfl, #[], by rw [Array.append_empty]; rfl⟩

/-- A source among the captures keeps its place there. -/
theorem Steady.findIdx? (steady : Steady before after) {source : CaptureSource} {index : Nat}
    (found : before.captures.findIdx? (· == source) = some index) :
    after.captures.findIdx? (· == source) = some index := by
  obtain ⟨-, more, captures⟩ := steady
  rw [captures, Array.findIdx?_append, found]
  rfl

/-- A name without a slot is none of the names of the slots. -/
theorem find?_eq_none {scope : FunctionScope} {name : String} :
    scope.find? name = none ↔ name ∉ scope.slots := by
  unfold FunctionScope.find?
  rw [Array.findIdx?_eq_none_iff]
  constructor
  · intro other member
    have different := other name member
    rw [beq_self_eq_true] at different
    cases different
  · intro missing other member
    exact beq_eq_false_iff_ne.mpr fun same => missing (same ▸ member)

/-- A name gets a slot behind the others, unless it has one. -/
theorem declare_cases {name : String} {index : UInt16}
    (declared : before.declare limit name = .ok (index, after)) :
    name ∈ before.slots ∧ after = before ∨ before.find? name = none ∧ after =
      { before with slots := before.slots.push name, captured := before.captured.push false } := by
  unfold declare at declared
  split at declared
  · rename_i place found
    cases declared
    refine .inl ⟨Classical.not_not.mp fun missing => ?_, rfl⟩
    rw [find?_eq_none.mpr missing] at found
    cases found
  · rename_i missing
    dsimp only at declared
    split at declared
    · cases declared
    · cases declared
      exact .inr ⟨missing, rfl⟩

/-- Capturing a source adds it behind the others, unless it is there. -/
theorem capture_eq_ok {source : CaptureSource} {index : UInt16}
    (captured : before.capture limit source = .ok (index, after)) :
    Steady before after ∧
      ∃ place, after.captures.findIdx? (· == source) = some place ∧
        index = UInt16.ofNat place := by
  unfold capture at captured
  split at captured
  · rename_i place found
    injection captured with same
    injection same with first second
    subst second
    exact ⟨.refl _, place, found, first.symm⟩
  · rename_i missing
    simp only at captured
    split at captured
    · cases captured
    · injection captured with same
      injection same with first second
      subst second
      refine ⟨⟨rfl, #[source], rfl⟩, before.captures.size, ?_, first.symm⟩
      change (before.captures.push source).findIdx? _ = _
      rw [Array.findIdx?_push, missing]
      simp only [beq_self_eq_true, ↓reduceIte, Option.none_or]

/-- What is captured already is found where it is, whatever the limit. -/
theorem capture_of_findIdx? {source : CaptureSource} {place : Nat}
    (found : before.captures.findIdx? (· == source) = some place) :
    before.capture limit source = .ok (UInt16.ofNat place, before) := by
  unfold capture
  rw [found]

end FunctionScope

namespace Scopes

variable {before middle after : Scopes} {limit : Nat}

/-- Every function has the same slots, and further captures behind those it had. -/
inductive Steady : Scopes → Scopes → Prop
  | nil : Steady [] []
  | cons {scope scope' outer outer'} :
      FunctionScope.Steady scope scope' → Steady outer outer' →
        Steady (scope :: outer) (scope' :: outer')

theorem Steady.refl : (scopes : Scopes) → Steady scopes scopes
  | [] => .nil
  | scope :: outer => .cons (.refl scope) (refl outer)

theorem Steady.trans (first : Steady before middle) (second : Steady middle after) :
    Steady before after := by
  induction first generalizing after with
  | nil => exact second
  | cons head tail ih =>
      cases second with
      | cons head' tail' => exact .cons (head.trans head') (ih tail')

/-- A computation that succeeds does so in each of its parts. -/
theorem bind_eq_ok {α β : Type} {first : Except Complaint α} {next : α → Except Complaint β}
    {result : β} (done : (first >>= next) = .ok result) :
    ∃ value, first = .ok value ∧ next value = .ok result := by
  cases first with
  | error complaint => cases done
  | ok value => exact ⟨value, rfl, done⟩

/-- What is captured through the functions around leaves them with further captures at most. -/
theorem steady_captureFrom {name : String} {outer outer' : List FunctionScope}
    {scope scope' : FunctionScope} {through : Option UInt16}
    (captured : captureFrom limit name scope outer = .ok (through, scope', outer')) :
    FunctionScope.Steady scope scope' ∧ Steady outer outer' := by
  induction outer generalizing scope scope' through outer' with
  | nil =>
      cases captured
      exact ⟨.refl scope, .nil⟩
  | cons next rest ih =>
      unfold captureFrom at captured
      split at captured
      · obtain ⟨⟨found, taken⟩, capturing, same⟩ := bind_eq_ok captured
        cases same
        obtain ⟨steady, -⟩ := FunctionScope.capture_eq_ok capturing
        exact ⟨steady, .cons (FunctionScope.steady_markCaptured next _) (.refl rest)⟩
      · obtain ⟨⟨through, next', rest'⟩, inner, captured⟩ := bind_eq_ok captured
        obtain ⟨steady, steadyRest⟩ := ih inner
        cases through with
        | none =>
            cases captured
            exact ⟨.refl scope, .cons steady steadyRest⟩
        | some through =>
            obtain ⟨⟨found, taken⟩, capturing, same⟩ := bind_eq_ok captured
            cases same
            obtain ⟨steadyScope, -⟩ := FunctionScope.capture_eq_ok capturing
            exact ⟨steadyScope, .cons steady steadyRest⟩

/-- A capture that was found once is found again, wherever captures were added since. -/
theorem captureFrom_again {name : String} {limit' : Nat} {outer outer' : List FunctionScope}
    {scope scope' : FunctionScope} {through : Option UInt16}
    (captured : captureFrom limit name scope outer = .ok (through, scope', outer'))
    {later : FunctionScope} {later' : List FunctionScope}
    (steady : FunctionScope.Steady scope' later) (steadyOuter : Steady outer' later') :
    ∃ rest, captureFrom limit' name later later' = .ok (through, rest) := by
  induction outer generalizing scope scope' through outer' later later' with
  | nil =>
      cases captured
      cases steadyOuter
      exact ⟨_, rfl⟩
  | cons next rest ih =>
      unfold captureFrom at captured
      split at captured
      · rename_i index found
        obtain ⟨⟨place, taken⟩, capturing, same⟩ := bind_eq_ok captured
        cases same
        obtain ⟨-, place, there, rfl⟩ := FunctionScope.capture_eq_ok capturing
        cases steadyOuter with
        | cons head tail =>
            have again := (FunctionScope.steady_markCaptured next index).trans head
            unfold captureFrom
            rw [again.find? name, found]
            simp only [FunctionScope.capture_of_findIdx? (steady.findIdx? there)]
            exact ⟨_, rfl⟩
      · rename_i missing
        obtain ⟨⟨through', next', rest'⟩, inner, captured⟩ := bind_eq_ok captured
        obtain ⟨grown, -⟩ := steady_captureFrom inner
        cases through' with
        | none =>
            cases captured
            cases steadyOuter with
            | cons head tail =>
                obtain ⟨found, again⟩ := ih inner head tail
                unfold captureFrom
                rw [(grown.trans head).find? name, missing]
                simp only [again]
                exact ⟨_, rfl⟩
        | some through' =>
            obtain ⟨⟨place, taken⟩, capturing, same⟩ := bind_eq_ok captured
            cases same
            obtain ⟨-, place, there, rfl⟩ := FunctionScope.capture_eq_ok capturing
            cases steadyOuter with
            | cons head tail =>
                obtain ⟨found, again⟩ := ih inner head tail
                unfold captureFrom
                rw [(grown.trans head).find? name, missing]
                simp only [again, bind, Except.bind,
                  FunctionScope.capture_of_findIdx? (steady.findIdx? there)]
                exact ⟨_, rfl⟩

/-- A name denotes a place, and will as long as no function declares further names. -/
def Knows (scopes : Scopes) (name : String) (place : Place) : Prop :=
  ∀ later, Steady scopes later → ∀ limit, ∃ rest, resolve limit name later = .ok (place, rest)

theorem Knows.mono {name : String} {place : Place} (known : Knows before name place)
    (steady : Steady before after) : Knows after name place :=
  fun later grown => known later (steady.trans grown)

/-- Resolving a name adds captures at most, and settles what it denotes. -/
theorem knows_resolve {name : String} {place : Place}
    (resolved : resolve limit name before = .ok (place, after)) :
    Steady before after ∧ Knows after name place := by
  cases before with
  | nil =>
      cases resolved
      refine ⟨.nil, fun later grown limit' => ?_⟩
      cases grown
      exact ⟨_, rfl⟩
  | cons scope outer =>
      rw [resolve] at resolved
      split at resolved
      · rename_i index found
        cases resolved
        refine ⟨.refl _, fun later grown limit' => ?_⟩
        cases grown with
        | cons head tail =>
            rw [resolve, head.find? name, found]
            exact ⟨_, rfl⟩
      · rename_i missing
        obtain ⟨⟨through, scope', outer'⟩, captured, resolved⟩ := bind_eq_ok resolved
        obtain ⟨steady, steadyOuter⟩ := steady_captureFrom captured
        cases through with
        | none =>
            cases resolved
            refine ⟨.cons steady steadyOuter, fun later grown limit' => ?_⟩
            cases grown with
            | cons head tail =>
                obtain ⟨rest, again⟩ := @captureFrom_again _ _ limit' _ _ _ _ _ captured _ _ head tail
                rw [resolve, (steady.trans head).find? name, missing]
                simp only [again]
                exact ⟨_, rfl⟩
        | some through =>
            cases resolved
            refine ⟨.cons steady steadyOuter, fun later grown limit' => ?_⟩
            cases grown with
            | cons head tail =>
                obtain ⟨rest, again⟩ := @captureFrom_again _ _ limit' _ _ _ _ _ captured _ _ head tail
                rw [resolve, (steady.trans head).find? name, missing]
                simp only [again]
                exact ⟨_, rfl⟩

/-- The innermost function may have further slots, and all functions further captures. -/
def Grows : Scopes → Scopes → Prop
  | [], after => after = []
  | _ :: outer, after => ∃ scope outer', after = scope :: outer' ∧ Steady outer outer'

theorem Steady.grows (steady : Steady before after) : Grows before after := by
  cases steady with
  | nil => exact rfl
  | cons head tail => exact ⟨_, _, rfl, tail⟩

theorem Grows.trans (first : Grows before middle) (second : Grows middle after) :
    Grows before after := by
  cases before with
  | nil =>
      obtain rfl : middle = [] := first
      exact second
  | cons scope outer =>
      obtain ⟨_, _, rfl, steady⟩ := first
      obtain ⟨_, _, rfl, steady'⟩ := second
      exact ⟨_, _, rfl, steady.trans steady'⟩

end Scopes

end PocketScript
