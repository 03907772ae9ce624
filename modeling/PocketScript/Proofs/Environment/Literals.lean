import Mathlib.Data.List.Perm.Basic
import Mathlib.Data.List.Permutation
import PocketScript.Environment.Instructions
import PocketScript.Proofs.Environment.Actions
import PocketScript.Proofs.Heap.Building

/-!
# Literals own what they are made of

An object literal is made of keys and values in turn. The keys are read while they are still held, so
their texts are the ones they had at first (`Environment.string?_releaseAll`), and then they are given
up. When each key has a text, the values become properties, and otherwise everything is given up
(`Environment.takeProperties_alternate`). So all kinds of literals either own what they are made of
or leave nothing behind (`Environment.literals_construct`).
-/

namespace PocketScript

namespace Environment

variable {env : Environment} {outside : List Reference} {given : List Value}

/-- The environment with another heap. -/
def withHeap (env : Environment) (heap : Heap) : Environment := { env with heap }

/-- Keys and values in turn. -/
def alternate (pairs : List (Value × Value)) : List Value :=
  pairs.flatMap fun pair => [pair.1, pair.2]

theorem alternate_perm (pairs : List (Value × Value)) :
    (pairs.map (·.1) ++ pairs.map (·.2)).Perm (alternate pairs) := by
  have values : pairs.map (·.2) = pairs.flatMap fun pair => [pair.2] := List.map_eq_flatMap
  rw [values]
  exact List.map_append_flatMap_perm pairs (·.1) fun pair => [pair.2]

/-- An object of keys and values in turn. -/
def objectOf (values : List Value) : Action Value := do
  match ← takeProperties #[] values with
  | some properties => onHeap (·.allocObject properties.toList)
  | none => throw .typeMismatch

theorem makeObject_eq (activation : Activation) (count : UInt16) :
    makeObject activation count = (do
      let values ← popMany activation.floor (2 * count.toNat)
      push (← objectOf values)) := by
  unfold makeObject objectOf
  simp only [bind_assoc]
  congr 1
  funext values
  congr 1
  funext taken
  cases taken <;> rfl

/-! ## Keys -/

/-- A text that somebody refers to stays the same when values are given up. -/
theorem string?_releaseAll {dropped : List Value} {key : Value}
    (balanced : env.heap.Balanced .free (dropped.map .value ++ outside))
    (held : .value key ∈ outside) :
    (env.withHeap (env.heap.releaseAll dropped)).string? key =
      env.string? key := by
  have kept : ∀ block, key.block? = some block →
      (env.heap.releaseAll dropped).get? block = env.heap.get? block :=
    fun block leads => balanced.releaseAll.get?_of_held (Heap.shrinks_releaseAll _ _)
      balanced.sound (places_pos held leads)
  cases key with
  | string block | foreign block =>
      simp only [string?, withHeap, Heap.text?, kept block rfl]
  | _ => rfl

theorem releaseUnkeyed_alternate (pairs : List (Value × Value)) (env : Environment) :
    (takeProperties.releaseUnkeyed (alternate pairs) env).2 =
      env.withHeap
        (env.heap.releaseAll (pairs.flatMap fun pair => [pair.2, pair.1])) := by
  induction pairs generalizing env with
  | nil => rfl
  | cons pair rest ih =>
      exact ih _

theorem takeProperties_named {key : Value} {name : String}
    (named : env.string? key = some name) (value : Value) (rest : List Value)
    (properties : Array (String × Value)) :
    takeProperties properties (key :: value :: rest) env =
      takeProperties (properties.push (name, value)) rest
        (env.withHeap (env.heap.releaseAll [key])) := by
  rw [takeProperties, update_bind, update_view, named]
  rfl

theorem takeProperties_unnamed {key : Value} (unnamed : env.string? key = none)
    (value : Value) (rest : List (Value × Value)) (properties : Array (String × Value)) :
    takeProperties properties (key :: value :: alternate rest) env =
      (none, env.withHeap (env.heap.releaseAll
        (((key, value) :: rest).flatMap (fun pair => [pair.2, pair.1]) ++
          Heap.valuesOf properties))) := by
  rw [takeProperties, update_bind, update_view, unnamed]
  dsimp only
  rw [update_bind]
  change (none, (releaseAll (Heap.valuesOf properties)
    (takeProperties.releaseUnkeyed (alternate ((key, value) :: rest)) env).2).2) = _
  rw [releaseUnkeyed_alternate, Heap.releaseAll_append]
  rfl

/-- The keys that are strings are given up, and so is everything when one is not. -/
theorem takeProperties_alternate (pairs : List (Value × Value))
    (properties : Array (String × Value)) (env : Environment)
    (balanced : env.heap.Balanced .free
      ((alternate pairs ++ Heap.valuesOf properties).map .value ++ outside)) :
    (∃ names : List String, pairs.map (env.string? ·.1) = names.map some ∧
        takeProperties properties (alternate pairs) env =
          (some (properties ++ (names.zip (pairs.map (·.2))).toArray),
            env.withHeap (env.heap.releaseAll (pairs.map (·.1))))) ∨
      (∃ pair ∈ pairs, env.string? pair.1 = none) ∧
        ∃ order : List Value, order.Perm (alternate pairs ++ Heap.valuesOf properties) ∧
          takeProperties properties (alternate pairs) env =
            (none, env.withHeap (env.heap.releaseAll order)) := by
  induction pairs generalizing properties env with
  | nil => exact .inl ⟨[], rfl, congrArg (some ·, env) Array.append_empty.symm⟩
  | cons pair rest ih =>
      obtain ⟨key, value⟩ := pair
      have step : alternate ((key, value) :: rest) = key :: value :: alternate rest := rfl
      rw [step]
      cases named : env.string? key with
      | some name =>
          rw [takeProperties_named named]
          have counted : env.heap.Balanced .free ([key].map .value ++
              ((alternate rest ++ Heap.valuesOf (properties.push (name, value))).map .value ++
                outside)) := by
            refine balanced.perm (perm_of_count fun reference => ?_)
            simp only [step, Heap.valuesOf, Array.toList_push, List.map_append, List.map_cons,
              List.map_nil, List.count_append, List.count_cons, List.count_nil]
            omega
          have texts : ∀ pair ∈ rest, (env.withHeap
              (env.heap.releaseAll [key])).string? pair.1 = env.string? pair.1 := by
            intro pair member
            refine string?_releaseAll counted (List.mem_append_left _ (List.mem_map_of_mem ?_))
            exact List.mem_append_left _ (List.mem_flatMap.mpr ⟨pair, member, List.mem_cons_self⟩)
          obtain ⟨names, known, taken⟩ | ⟨unknown, order, same, taken⟩ :=
            ih (properties.push (name, value))
              (env.withHeap (env.heap.releaseAll [key])) counted.releaseAll
          · refine .inl ⟨name :: names, ?_, ?_⟩
            · rw [List.map_cons, List.map_cons, named, ← known]
              exact congrArg _ (List.map_congr_left fun pair member => (texts pair member).symm)
            · rw [taken, ← Array.append_singleton, Array.append_assoc]
              exact congrArg (fun more => (some (properties ++ more), _)) (by simp)
          · obtain ⟨pair, member, none⟩ := unknown
            refine .inr ⟨⟨pair, List.mem_cons_of_mem _ member, (texts pair member).symm.trans none⟩,
              key :: order, ?_, taken⟩
            refine (same.cons key).trans (List.perm_iff_count.mpr fun reference => ?_)
            simp only [Heap.valuesOf, Array.toList_push, List.map_append, List.map_cons,
              List.map_nil, List.cons_append, List.count_append, List.count_cons, List.count_nil]
            omega
      | none =>
          rw [takeProperties_unnamed named]
          refine .inr ⟨⟨_, List.mem_cons_self, named⟩, _, ?_, rfl⟩
          refine List.Perm.append_right _ ?_
          exact List.Perm.flatMap_left ((key, value) :: rest) fun pair _ => List.Perm.swap _ _ _

/-! ## All literals -/

/-- What becomes of keys and values in turn that are given for an object. If all keys are strings,
they are given up, and the values are handed on under their texts; otherwise everything is given
up. -/
inductive ObjectConstructs (outside : List Reference) (env : Environment)
    (pairs : List (Value × Value)) : Except Fault Value × Environment → Prop
  | keyed {names : List String} {properties : List (String × Value)}
      {outcome : Heap.Outcome Value} : pairs.map (env.string? ·.1) = names.map some →
      properties = Heap.lastValues (names.zip (pairs.map (·.2))) →
      Heap.Constructs outside env.heap (alternate pairs) .object properties.length
        (.object properties.toArray properties.length) outcome →
      ObjectConstructs outside env pairs (outcome.1, env.withHeap outcome.2)
  | unkeyed {pair : Value × Value} {order : List Value} : pair ∈ pairs →
      env.string? pair.1 = none → order.Perm (alternate pairs) →
      (env.heap.releaseAll order).Balanced .free outside →
      ObjectConstructs outside env pairs
        (.error .typeMismatch, env.withHeap (env.heap.releaseAll order))

theorem constructs_objectOf (pairs : List (Value × Value))
    (balanced : env.heap.Balanced .free ((alternate pairs).map .value ++ outside)) :
    ObjectConstructs outside env pairs (objectOf (alternate pairs) env) := by
  have nothing : alternate pairs ++ Heap.valuesOf #[] = alternate pairs := List.append_nil _
  have counted := balanced
  rw [← nothing] at counted
  unfold objectOf
  obtain ⟨names, known, taken⟩ | ⟨⟨pair, member, unknown⟩, order, same, taken⟩ :=
    takeProperties_alternate pairs #[] env counted
  · have many : (pairs.map (·.2)).length ≤ names.length := by
      simpa using Nat.le_of_eq (congrArg List.length known)
    have values : (names.zip (pairs.map (·.2))).map (·.2) = pairs.map (·.2) :=
      List.map_snd_zip many
    have left : (env.heap.releaseAll (pairs.map (·.1))).Balanced .free
        (((names.zip (pairs.map (·.2))).map (·.2)).map .value ++ outside) := by
      rw [values]
      refine Heap.Balanced.releaseAll (balanced.perm ?_)
      rw [← List.append_assoc, ← List.map_append]
      exact ((alternate_perm pairs).symm.map Reference.value).append_right outside
    have constructs := left.constructs_allocObject
    rw [values] at constructs
    rw [action_bind_ok (action_lift _ _), taken, Array.empty_append]
    exact .keyed known rfl (constructs.of_releaseAll (alternate_perm pairs))
  · rw [action_bind_ok (action_lift _ _), taken]
    rw [nothing] at same
    refine .unkeyed member unknown same (Heap.Balanced.releaseAll (balanced.perm ?_))
    exact ((same.map Reference.value).append_right outside).symm

/-- Whatever is made of values that are handed over, either the new block owns them or they are given
up. -/
theorem literals_construct
    (balanced : env.heap.Balanced .free (given.map .value ++ outside)) :
    Heap.Constructs outside env.heap given .array given.length
        (.array given.toArray given.length) (env.heap.allocArray given.toArray) ∧
      (∀ properties : List (String × Value), properties.map (·.2) = given →
        Heap.Constructs outside env.heap given .object (Heap.lastValues properties).length
          (.object (Heap.lastValues properties).toArray (Heap.lastValues properties).length)
          (env.heap.allocObject properties)) ∧
      (∀ target, Heap.Constructs outside env.heap given .closure 0
        (fun _ => .closure target given.toArray)
        (env.heap.allocClosure target given.toArray)) ∧
      (∀ value, given = [value] → Heap.Constructs outside env.heap given .cell 0
        (fun _ => .cell value) (env.heap.allocCell value)) ∧
      (∀ pairs : List (Value × Value), alternate pairs = given →
        ObjectConstructs outside env pairs (objectOf given env)) ∧
      ∀ activation count, makeObject activation count = (do
        let values ← popMany activation.floor (2 * count.toNat)
        push (← objectOf values)) := by
  refine ⟨balanced.constructs_allocArray, ?_, balanced.constructs_allocClosure, ?_, ?_,
    makeObject_eq⟩
  · rintro properties rfl
    exact balanced.constructs_allocObject
  · rintro value rfl
    exact balanced.constructs_allocCell
  · rintro pairs rfl
    exact constructs_objectOf pairs balanced

/-- In a heap with one block the items of an array take it, and the array itself finds none; the items
give it back. -/
theorem literals_construct_lonely : ∃ env : Environment,
    env.heap.usage = [⟨32, 1, 0⟩] ∧
      (env.heap.allocArray #[.undefined, .undefined]).2.usage = env.heap.usage ∧
      (objectOf [.undefined, .undefined] env).1 = .error .typeMismatch := by
  have balanced : (Environment.new { pools := [(32, 1)] }).heap.Balanced .free
      ([.undefined, .undefined].map .value ++ []) :=
    (Heap.balanced_new [(32, 1)]).addUndefined 2
  have usage : (Environment.new { pools := [(32, 1)] }).heap.usage = [⟨32, 1, 0⟩] := by cbv
  have failed : ((Environment.new { pools := [(32, 1)] }).heap.allocArray
      #[.undefined, .undefined]).1 = .error .outOfMemory := by cbv
  obtain ⟨array, -, -, -, object, -⟩ := literals_construct balanced
  generalize Environment.new { pools := [(32, 1)] } = env at *
  refine ⟨env, usage, ?_, ?_⟩
  · change (env.heap.allocArray [.undefined, .undefined].toArray).1 = _ at failed
    generalize env.heap.allocArray [.undefined, .undefined].toArray = outcome at *
    cases array with
    | made => cases failed
    | @failed order _ same alike =>
        have plain : order = List.replicate 2 .undefined := List.perm_replicate.mp same
        rw [plain] at alike
        exact alike.usage
  · have object := object [(.undefined, .undefined)] rfl
    generalize objectOf [.undefined, .undefined] env = outcome at object
    cases object with
    | @keyed names _ _ known =>
        change [none] = _ at known
        cases names <;> cases known
    | unkeyed => rfl

end Environment

end PocketScript
