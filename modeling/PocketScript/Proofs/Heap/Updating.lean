import Mathlib.Data.List.Permutation
import PocketScript.Proofs.Heap.Properties
import PocketScript.Proofs.Heap.Taking

/-!
# Stores are updates

A store in an array or an object puts the value in its place among the others (`Heap.Filled`), and
gives up the one it replaces; whoever refers to the container finds the updated elements in it, also
when what is given up takes other blocks with it. The elements move to another block when theirs is
full. A store fails only when no block is large enough for the elements with the new one
(`Heap.Offers`), and then nothing has happened but that the value is given up (`Heap.Refused`).
-/

namespace PocketScript

namespace Heap

variable {rules : Rules} {heap after : Heap} {outside : List Reference} {block : Handle}
  {content old new : Content} {value : Value}

/-! ## What a store does -/

/-- The elements with a new one are in the container: in the room that there was, or in a new block
for more of them than there was room for, and then the old room is given up. All other blocks are as
they were. -/
inductive Filled (heap : Heap) (block : Handle) (content : Nat → Option Handle → Content)
    (old : Content) (capacity needed : Nat) : Heap → Prop
  | inPlace {filled : Heap} :
      PoolSet.Replaced block old (content capacity old.storage?) heap.blocks filled.blocks →
      Filled heap block content old capacity needed filled
  | moved {taken filled : Heap} {room : Handle} {larger : Nat} : capacity < needed →
      PoolSet.Taken room .storage heap.blocks taken.blocks →
      PoolSet.Replaced block old (content larger (some room)) taken.blocks filled.blocks →
      Filled heap block content old capacity needed (filled.withoutRoom old.storage?)

/-- The store did not happen: the value is given up, and nothing else is. The container holds what
it held, in the same room. -/
structure Refused (heap : Heap) (block : Handle) (value : Value) (outcome : Outcome Unit) :
    Prop where
  fault : outcome.1 = .error .outOfMemory
  released : outcome.2 = heap.release value
  container : outcome.2.get? block = heap.get? block
  room : ∀ content room, heap.get? block = some content → content.storage? = some room →
    outcome.2.get? room = heap.get? room

/-- The counts are right afterwards, and everything fits and all keys are distinct if that was so
before. -/
structure Upholds (rules : Rules) (outside : List Reference) (heap after : Heap) : Prop where
  balanced : after.Balanced rules outside
  fitting : heap.Fitting → after.Fitting
  keyed : heap.Keyed → after.Keyed

/-- The container is found filled when references have been given up. -/
theorem Filled.read {contents : Nat → Option Handle → Content} {capacity needed : Nat}
    {filled : Heap} (fills : heap.Filled block contents old capacity needed filled)
    (shrinks : PoolSet.Shrinks filled.blocks after.blocks) (balanced : after.Balanced rules outside)
    (held : 0 < places block outside) :
    ∃ capacity room, after.get? block = some (contents capacity room) := by
  cases fills with
  | inPlace replaced =>
      exact ⟨_, _, (balanced.get?_of_held shrinks replaced.sound held).trans replaced.get?⟩
  | moved _ taken replaced =>
      have shrinks := (shrinks_withoutRoom _ old.storage?).trans shrinks
      exact ⟨_, _, (balanced.get?_of_held shrinks replaced.sound held).trans replaced.get?⟩

theorem Filled.keyed {contents : Nat → Option Handle → Content} {capacity needed : Nat}
    {filled : Heap} (fills : heap.Filled block contents old capacity needed filled)
    (keyed : heap.Keyed) (distinct : ∀ capacity room, (contents capacity room).Keyed) :
    filled.Keyed ∧ filled.blocks.Sound := by
  cases fills with
  | inPlace replaced => exact ⟨keyed.replaced (distinct _ _) replaced, replaced.sound⟩
  | @moved _ filled _ _ _ taken replaced =>
      have shrinks := shrinks_withoutRoom filled old.storage?
      have empty : Content.Keyed .storage := trivial
      have keyed := (keyed.taken empty taken).replaced (distinct _ _) replaced
      exact ⟨keyed.shrunk replaced.sound shrinks, shrinks.sound replaced.sound⟩

/-- A store that fails has given up the value. -/
theorem Balanced.refused (balanced : heap.Balanced rules (.value value :: outside))
    (held : 0 < places block outside) :
    heap.Refused block value (.error .outOfMemory, heap.release value) := by
  have shrinks := shrinks_release heap value
  have kept := balanced.release.get?_of_held shrinks balanced.sound held
  exact ⟨rfl, rfl, kept, fun content room found own =>
    balanced.release.get?_of_room shrinks balanced.sound (kept.trans found) own⟩

/-- A store for which there is no room fails; else the elements move to a new block. -/
theorem Balanced.grown (balanced : heap.Balanced rules outside)
    (found : heap.get? block = some old) (other : old.kind ≠ .storage) (bytes : Nat → Nat)
    (contents : Nat → Option Handle → Content) {capacity wanted needed : Nat}
    (full : capacity < needed) (positive : wanted ≠ 0) :
    ¬ heap.Offers (bytes needed) ∧
        heap.growStorage bytes wanted needed = (.error .outOfMemory, heap) ∨
      ∃ larger room taken, heap.growStorage bytes wanted needed = (.ok (larger, room), taken) ∧
        heap.Filled block contents old capacity needed
          ((taken.withoutRoom old.storage?).put block (contents larger room)) := by
  obtain failed | ⟨larger, room, taken, got, took⟩ :=
    growStorage_cases balanced.sound bytes positive (Nat.ne_zero_of_lt full)
  · exact .inl failed
  refine .inr ⟨larger, some room, taken, got, ?_⟩
  have different : block ≠ room := by
    rintro rfl
    exact absurd (took.fresh.symm.trans found) (Option.some_ne_none _).symm
  have there : taken.get? block = some old := (took.others.get? block different).trans found
  have left := balanced.growStorage bytes wanted needed found
  rw [got] at left
  obtain ⟨_, _, impossible, -⟩ | ⟨_, _, _, same, -, left, -⟩ := left
  · cases impossible
  cases same
  rw [left.put_withoutRoom (contents larger (some room)) there other]
  exact .moved full took (PoolSet.replaced_put took.sound there _)

/-- A store in an array fills it, or is refused when no block has room for the items. -/
theorem Balanced.arraySet_cases (balanced : heap.Balanced rules (.value value :: outside))
    {items : Array Value} {capacity : Nat} {storage : Option Handle}
    (found : heap.get? block = some (.array items capacity storage)) (index : Nat) :
    (∃ filled, heap.Filled block (.array (putItem items index value))
        (.array items capacity storage) capacity (index + 1) filled ∧
          heap.arraySet block index value = (.ok (), filled.releaseAll items[index]?.toList)) ∨
      (capacity ≤ index ∧ ¬ heap.Offers (arrayStorageSize (index + 1))) ∧
        heap.arraySet block index value = (.error .outOfMemory, heap.release value) := by
  have proper : items.size ≤ capacity := balanced.proper _ (PoolSet.mem_contents found)
  unfold Heap.arraySet
  rw [found]
  dsimp only
  split
  · exact .inl ⟨_, .inPlace (PoolSet.replaced_put balanced.sound found _), rfl⟩
  rename_i behind
  have full : capacity < index + 1 := by omega
  have positive : max (max (index + 1) (capacity * 2)) 4 ≠ 0 := by omega
  obtain ⟨none, failed⟩ | ⟨larger, room, taken, got, filled⟩ := balanced.grown found
    (fun same => by cases same) arrayStorageSize (.array (putItem items index value)) full positive
  · rw [failed]
    exact .inr ⟨⟨by omega, none⟩, rfl⟩
  · rw [got, Array.getElem?_eq_none (by omega)]
    refine .inl ⟨_, filled, ?_⟩
    cases storage <;> rfl

/-! ## Arrays as sequences -/

theorem getElem?_putItem (items : Array Value) (index place : Nat) (value : Value) :
    (putItem items index value)[place]? =
      if place = index then some value
      else if place < index then some (items[place]?.getD .undefined) else items[place]? := by
  unfold putItem
  split
  · rw [Array.getElem?_setIfInBounds]
    grind
  · rw [Array.getElem?_push]
    grind

theorem size_putItem (items : Array Value) (index : Nat) (value : Value) :
    (putItem items index value).size = max items.size (index + 1) := by
  unfold putItem
  split
  · rw [Array.size_setIfInBounds]
    omega
  · simp only [Array.size_push, Array.size_append, Array.size_replicate]
    omega

/-! ## Stores in arrays and objects -/

/-- A store in an array took place: the item is in its place, with the gap in front of it filled,
and the item from before is given up. -/
structure ItemStored (heap : Heap) (block : Handle) (items : Array Value) (capacity : Nat)
    (storage : Option Handle) (index : Nat) (value : Value) (outcome : Outcome Unit) : Prop where
  fault : outcome.1 = .ok ()
  stored : ∃ filled, heap.Filled block (.array (putItem items index value))
    (.array items capacity storage) capacity (index + 1) filled ∧
      outcome.2 = filled.releaseAll items[index]?.toList
  length : outcome.2.arrayLength? block = some (max items.size (index + 1))
  item : ∀ place, outcome.2.arrayGet? block place =
    if place = index then some value
    else if place < index then some (items[place]?.getD .undefined) else items[place]?

/-- A store in an object took place: the value is the one under its key, which keeps its place or
comes behind the others, and the value from before is given up. -/
structure PropertyStored (heap : Heap) (block : Handle) (properties : Array (String × Value))
    (capacity : Nat) (storage : Option Handle) (key : String) (value : Value)
    (outcome : Outcome Unit) : Prop where
  fault : outcome.1 = .ok ()
  stored : ∃ changed filled, heap.Filled block (.object changed)
    (.object properties capacity storage) capacity changed.size filled ∧
      outcome.2 = filled.releaseAll (properties.toList.lookup key).toList ∧
        outcome.2.objectProperties? block = some changed ∧ keysOf changed =
          if key ∈ keysOf properties then keysOf properties else keysOf properties ++ [key]
  property : ∀ other, outcome.2.objectGet? block other =
    if other = key then some value else heap.objectGet? block other

/-- A store in an object fills it, or is refused when no block has room for the properties. -/
theorem Balanced.objectSet_cases (balanced : heap.Balanced rules (.value value :: outside))
    {properties : Array (String × Value)} {capacity : Nat} {storage : Option Handle}
    (found : heap.get? block = some (.object properties capacity storage)) (key : String) :
    (∃ filled, heap.Filled block (.object (putProperty (properties, []) (key, value)).1)
        (.object properties capacity storage) capacity
          (putProperty (properties, []) (key, value)).1.size filled ∧
        heap.objectSet block key value =
          (.ok (), filled.releaseAll (putProperty (properties, []) (key, value)).2)) ∨
      (key ∉ keysOf properties ∧ capacity ≤ properties.size ∧
          ¬ heap.Offers (objectStorageSize (properties.size + 1))) ∧
        heap.objectSet block key value = (.error .outOfMemory, heap.release value) := by
  unfold Heap.objectSet
  rw [found]
  dsimp only
  split
  · rename_i index known
    refine .inl ⟨_, .inPlace (PoolSet.replaced_put balanced.sound found _), ?_⟩
    simp only [putProperty, known, List.append_nil]
    rfl
  rename_i none
  have new : key ∉ keysOf properties := by
    intro known
    obtain ⟨property, member, rfl⟩ := List.mem_map.mp known
    simpa using Array.findIdx?_eq_none_iff.mp none property (Array.mem_toList_iff.mp member)
  have put : putProperty (properties, []) (key, value) = (properties.push (key, value), []) := by
    simp only [putProperty, none]
  rw [put, Array.size_push]
  split
  · exact .inl ⟨_, .inPlace (PoolSet.replaced_put balanced.sound found _), rfl⟩
  have full : capacity < properties.size + 1 := by omega
  have positive : max (capacity * 2) 4 ≠ 0 := by omega
  obtain ⟨none, failed⟩ | ⟨larger, room, taken, got, filled⟩ := balanced.grown found
    (fun same => by cases same) objectStorageSize (.object (properties.push (key, value))) full positive
  · rw [failed]
    exact .inr ⟨⟨new, by omega, none⟩, rfl⟩
  · rw [got]
    refine .inl ⟨_, filled, ?_⟩
    cases storage <;> rfl

/-- A store leaves the heap balanced, whether it takes place or not. -/
theorem Gives.settled {outcome : Outcome Unit}
    (gives : Gives rules outside (fun _ : Unit => []) outcome) :
    outcome.2.Balanced rules outside := by
  obtain ⟨_ | _, after⟩ := outcome
  · exact gives.2
  · exact gives

/-- Giving a value up leaves the heap in order. -/
theorem Balanced.upholds_release (balanced : heap.Balanced rules (.value value :: outside)) :
    heap.Upholds rules outside (heap.release value) where
  balanced := balanced.release
  fitting fitting := fitting.shrunk balanced.sound (shrinks_release heap value)
  keyed keyed := keyed.shrunk balanced.sound (shrinks_release heap value)

theorem Balanced.itemStored (balanced : heap.Balanced rules (.value value :: outside))
    (held : 0 < places block outside) {items : Array Value} {capacity : Nat}
    {storage : Option Handle} (found : heap.get? block = some (.array items capacity storage))
    (index : Nat) :
    heap.Upholds rules outside (heap.arraySet block index value).2 ∧
      (heap.ItemStored block items capacity storage index value
          (heap.arraySet block index value) ∨
        (capacity ≤ index ∧ ¬ heap.Offers (arrayStorageSize (index + 1))) ∧
          heap.Refused block value (heap.arraySet block index value)) := by
  have settled := (balanced.arraySet block index).settled
  have fitting : heap.Fitting → (heap.arraySet block index value).2.Fitting :=
    fun fitting => (fitting.arraySet balanced block index).fitting
  obtain ⟨filled, fills, done⟩ | ⟨full, failed⟩ := balanced.arraySet_cases found index
  · rw [done] at settled fitting ⊢
    have shrinks := shrinks_releaseAll filled items[index]?.toList
    obtain ⟨capacity', room, there⟩ := fills.read shrinks settled held
    have holds : (filled.releaseAll items[index]?.toList).arrayItems? block =
        some (putItem items index value) := by
      simp only [arrayItems?, there]
    refine ⟨⟨settled, fitting, fun keyed => ?_⟩,
      .inl ⟨rfl, ⟨filled, fills, rfl⟩, ?_, fun place => ?_⟩⟩
    · obtain ⟨keyed, sound⟩ := fills.keyed keyed fun _ _ => trivial
      exact keyed.shrunk sound shrinks
    · rw [arrayLength?, holds, Option.map_some, size_putItem]
    · rw [arrayGet?, holds, Option.bind_some, getElem?_putItem]
  · rw [failed]
    exact ⟨balanced.upholds_release, .inr ⟨full, balanced.refused held⟩⟩

theorem Balanced.propertyStored (balanced : heap.Balanced rules (.value value :: outside))
    (held : 0 < places block outside) {properties : Array (String × Value)} {capacity : Nat}
    {storage : Option Handle}
    (found : heap.get? block = some (.object properties capacity storage)) (key : String) :
    heap.Upholds rules outside (heap.objectSet block key value).2 ∧
      (heap.PropertyStored block properties capacity storage key value
          (heap.objectSet block key value) ∨
        (key ∉ keysOf properties ∧ capacity ≤ properties.size ∧
            ¬ heap.Offers (objectStorageSize (properties.size + 1))) ∧
          heap.Refused block value (heap.objectSet block key value)) := by
  have settled := (balanced.objectSet block key).settled
  have fitting : heap.Fitting → (heap.objectSet block key value).2.Fitting :=
    fun fitting => (fitting.objectSet balanced block key).fitting
  obtain ⟨filled, fills, done⟩ | ⟨full, failed⟩ := balanced.objectSet_cases found key
  · have replaced := replaced_putProperty properties [] key value
    rw [List.append_nil] at replaced
    rw [replaced] at done
    rw [done] at settled fitting ⊢
    have shrinks := shrinks_releaseAll filled (properties.toList.lookup key).toList
    obtain ⟨capacity', room, there⟩ := fills.read shrinks settled held
    refine ⟨⟨settled, fitting, fun keyed => ?_⟩, .inl ⟨rfl, ⟨_, filled, fills, rfl, ?_,
      keysOf_putProperty properties [] key value⟩, fun other => ?_⟩⟩
    · obtain ⟨keyed, sound⟩ := fills.keyed keyed fun _ _ =>
        nodup_putProperty (keyed block _ found) [] key value
      exact keyed.shrunk sound shrinks
    · simp only [objectProperties?, there]
    · rw [objectGet?_eq there, objectGet?_eq found, lookup_putProperty]
  · rw [failed]
    exact ⟨balanced.upholds_release, .inr ⟨full, balanced.refused held⟩⟩

/-- A store in a container that somebody refers to updates its elements, or else it gives up the
value and does nothing; it fails only when no block has room for the elements with the new one. -/
theorem stores_update (balanced : heap.Balanced rules (.value value :: outside))
    (held : 0 < places block outside) :
    (∀ items capacity storage, heap.get? block = some (.array items capacity storage) → ∀ index,
      heap.Upholds rules outside (heap.arraySet block index value).2 ∧
        (heap.ItemStored block items capacity storage index value
            (heap.arraySet block index value) ∨
          (capacity ≤ index ∧ ¬ heap.Offers (arrayStorageSize (index + 1))) ∧
            heap.Refused block value (heap.arraySet block index value))) ∧
    (∀ properties capacity storage,
      heap.get? block = some (.object properties capacity storage) → ∀ key,
      heap.Upholds rules outside (heap.objectSet block key value).2 ∧
        (heap.PropertyStored block properties capacity storage key value
            (heap.objectSet block key value) ∨
          (key ∉ keysOf properties ∧ capacity ≤ properties.size ∧
              ¬ heap.Offers (objectStorageSize (properties.size + 1))) ∧
            heap.Refused block value (heap.objectSet block key value))) :=
  ⟨fun _ _ _ found => balanced.itemStored held found,
    fun _ _ _ found => balanced.propertyStored held found⟩

/-- An array of one item in a heap with one more block. -/
def crowded : Heap := ((Heap.new [(16, 1), (32, 2)]).allocArray #[.undefined]).2

/-- There is no block for four items, but one for two. -/
theorem stores_update_crowded :
    crowded.get? ⟨1, 0, 0⟩ = some (.array #[.undefined] 1 (some ⟨0, 0, 0⟩)) ∧
      ¬ crowded.Offers (arrayStorageSize 4) ∧
      (crowded.arraySet ⟨1, 0, 0⟩ 1 (.boolean true)).2.arrayGet? ⟨1, 0, 0⟩ 1 =
        some (.boolean true) := by
  have usage : crowded.usage = [⟨16, 1, 1⟩, ⟨32, 2, 1⟩] := by cbv
  have found : crowded.get? ⟨1, 0, 0⟩ = some (.array #[.undefined] 1 (some ⟨0, 0, 0⟩)) := by cbv
  have made : (Heap.new [(16, 1), (32, 2)]).allocArray #[.undefined] =
      (.ok (.array ⟨1, 0, 0⟩), crowded) := by
    have done : ((Heap.new [(16, 1), (32, 2)]).allocArray #[.undefined]).1 =
      .ok (.array ⟨1, 0, 0⟩) := by cbv
    exact Prod.ext done rfl
  have balanced : crowded.Balanced .free [.value (.array ⟨1, 0, 0⟩)] := by
    have fresh : (Heap.new [(16, 1), (32, 2)]).Balanced .free [] := balanced_new _
    have gives := @Balanced.allocArray _ _ _ #[.undefined] (fresh.addUndefined 1)
    rwa [made] at gives
  have crowd : ¬ crowded.Offers (arrayStorageSize 4) := by
    rw [Offers, usage]
    decide
  have room : crowded.Offers (arrayStorageSize 2) := by
    rw [Offers, usage]
    decide
  refine ⟨found, crowd, ?_⟩
  have given : crowded.Balanced .free [.value (.boolean true), .value (.array ⟨1, 0, 0⟩)] :=
    balanced.add rfl ⟨fun _ none => (by cases none), fun _ none => (by cases none)⟩
  obtain ⟨-, stored | ⟨⟨-, none⟩, -⟩⟩ :=
    (stores_update given (by decide)).1 _ _ _ found 1
  · exact stored.item 1
  · exact absurd room none

end Heap

end PocketScript
