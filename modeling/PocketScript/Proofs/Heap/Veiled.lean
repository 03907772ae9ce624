import PocketScript.Proofs.Heap.Fitting

/-!
# Cells out of sight

A variable that functions share is a value of its own, and no script is to see it. In a heap it may be
held by closures, while whatever an array, an object or another variable holds is visible to scripts
(`Heap.Veiled`). No operation of the heap changes that, as long as what it stores is visible.
-/

namespace PocketScript

/-- The value is not a variable that functions share. -/
def Value.Visible (value : Value) : Prop := value.isCell = false

/-- What scripts can take out of the content is visible. -/
def Content.Veiled : Content → Prop
  | array items _ _ => ∀ item ∈ items, item.Visible
  | object properties _ _ => ∀ property ∈ properties, property.2.Visible
  | cell value => value.Visible
  | _ => True

namespace Heap

/-- What scripts can take out of any block is visible. -/
structure Veiled (heap : Heap) : Prop where
  sound : heap.blocks.Sound
  blocks : ∀ block content, heap.get? block = some content → content.Veiled

variable {heap after : Heap} {content : Content} {block : Handle} {value : Value}

/-- A new heap holds nothing. -/
theorem veiled_new (sizes : List (Nat × Nat)) : (Heap.new sizes).Veiled := by
  refine ⟨PoolSet.sound_new sizes, fun block content found => ?_⟩
  have inside := PoolSet.mem_contents found
  rw [show (Heap.new sizes).blocks.contents = [] from PoolSet.contents_new sizes] at inside
  cases inside

/-! ## Reading -/

/-- The elements of arrays are visible. -/
theorem Veiled.item (veiled : heap.Veiled) {index : Nat}
    (found : heap.arrayGet? block index = some value) : value.Visible := by
  unfold arrayGet? arrayItems? at found
  split at found
  · rename_i there
    exact veiled.blocks _ _ there value (Array.mem_of_getElem? found)
  · cases found

/-- And so are the properties of objects. -/
theorem Veiled.property (veiled : heap.Veiled) {key : String}
    (found : heap.objectGet? block key = some value) : value.Visible := by
  unfold objectGet? objectProperties? at found
  split at found
  · rename_i there
    simp only [bind, Option.bind_some, Option.bind_eq_some_iff, pure, Option.some.injEq] at found
    obtain ⟨property, member, rfl⟩ := found
    exact veiled.blocks _ _ there property (Array.mem_of_find?_eq_some member)
  · cases found

/-- And what is in cells. -/
theorem Veiled.boxed (veiled : heap.Veiled) (found : heap.cellGet? block = some value) :
    value.Visible := by
  unfold cellGet? at found
  split at found
  · rename_i there
    cases found
    exact veiled.blocks _ _ there
  · cases found

/-! ## Giving references up and taking blocks -/

/-- What is left of a veiled heap is veiled. -/
theorem Veiled.shrunk (veiled : heap.Veiled)
    (shrinks : PoolSet.Shrinks heap.blocks after.blocks) : after.Veiled :=
  ⟨shrinks.sound veiled.sound, fun block content found =>
    veiled.blocks block content (shrinks.kept veiled.sound block content found)⟩

/-- A new block has to hold visible values. -/
theorem Veiled.allocSized (veiled : heap.Veiled) (size : Nat) (hides : content.Veiled) :
    (heap.allocSized size content).2.Veiled := by
  refine ⟨sound_allocSized veiled.sound size content, fun other held found => ?_⟩
  unfold Heap.allocSized at found
  rcases PoolSet.alloc_cases veiled.sound size content.tag content with none |
    ⟨block, blocks, got, taken⟩
  · rw [none] at found
    exact (veiled.shrunk (shrinks_releaseContent heap content)).blocks other held found
  · rw [got] at found
    by_cases same : other = block
    · subst same
      obtain rfl := Option.some.inj (found.symm.trans taken.get?)
      exact hides
    · exact veiled.blocks other held ((taken.others.get? other same).symm.trans found)

theorem Veiled.allocStorage (veiled : heap.Veiled) (size capacity : Nat) :
    (heap.allocStorage size capacity).2.Veiled := by
  unfold Heap.allocStorage
  split
  · exact veiled
  · exact @Veiled.allocSized heap .storage veiled size trivial

/-- An array is made of visible values. -/
theorem Veiled.allocArray (veiled : heap.Veiled) {items : Array Value}
    (visible : ∀ item ∈ items, item.Visible) : (heap.allocArray items).2.Veiled := by
  have stored := veiled.allocStorage (arrayStorageSize items.size) items.size
  unfold Heap.allocArray
  dsimp only
  generalize heap.allocStorage (arrayStorageSize items.size) items.size = outcome at stored
  obtain ⟨fault | storage, middle⟩ := outcome
  · exact stored.shrunk (shrinks_releaseAll _ _)
  · exact @Veiled.allocSized middle (.array items items.size storage) stored _ visible

/-- And so is an object. -/
theorem Veiled.allocObject (veiled : heap.Veiled) {properties : List (String × Value)}
    (visible : ∀ property ∈ properties, property.2.Visible) :
    (heap.allocObject properties).2.Veiled := by
  have same := putProperties_perm properties (#[], [])
  unfold Heap.allocObject
  generalize properties.foldl putProperty (#[], []) = state at same
  obtain ⟨unique, replaced⟩ := state
  have all : ∀ property ∈ unique, property.2.Visible := by
    intro property member
    have among : property.2 ∈ properties.map (·.2) ++ (valuesOf #[] ++ []) :=
      same.mem_iff.mp (List.mem_append_left _
        (List.mem_map_of_mem (Array.mem_toList_iff.mpr member)))
    rcases List.mem_append.mp among with given | none
    · obtain ⟨other, there, equal⟩ := List.mem_map.mp given
      exact equal ▸ visible other there
    · cases none
  have released := veiled.shrunk (shrinks_releaseAll heap replaced.reverse)
  have stored := released.allocStorage (objectStorageSize unique.size) unique.size
  simp only
  generalize (heap.releaseAll replaced.reverse).allocStorage (objectStorageSize unique.size)
    unique.size = outcome at stored
  obtain ⟨fault | storage, middle⟩ := outcome
  · exact stored.shrunk (shrinks_releaseAll _ _)
  · exact @Veiled.allocSized middle (.object unique unique.size storage) stored _ all

/-! ## Stores -/

/-- Another content has to be veiled as well. -/
theorem Veiled.put (veiled : heap.Veiled) (block : Handle) (hides : content.Veiled) :
    (heap.put block content).Veiled := by
  cases found : heap.get? block with
  | none =>
      have same : heap.put block content = heap :=
        congrArg Heap.mk (PoolSet.put_of_get?_none found content)
      rw [same]
      exact veiled
  | some old =>
      have replaced := PoolSet.replaced_put veiled.sound found content
      refine ⟨replaced.sound, fun other held there => ?_⟩
      by_cases same : other = block
      · subst same
        obtain rfl := Option.some.inj (there.symm.trans replaced.get?)
        exact hides
      · exact veiled.blocks other held ((replaced.others other same).symm.trans there)

/-- A larger block of elements holds the same. -/
theorem Veiled.growStorage (veiled : heap.Veiled) (size : Nat → Nat) (wanted needed : Nat) :
    (heap.growStorage size wanted needed).2.Veiled := by
  have first := veiled.allocStorage (size wanted) wanted
  unfold Heap.growStorage
  generalize heap.allocStorage (size wanted) wanted = outcome at first
  obtain ⟨fault | storage, middle⟩ := outcome
  · exact first.allocStorage (size needed) needed
  · exact first

/-- What refuses a value stores nothing. -/
theorem Veiled.refuse (veiled : heap.Veiled) (value : Value) (fault : Fault) :
    (heap.refuse value fault).2.Veiled :=
  veiled.shrunk (shrinks_release heap value)

theorem Change.Stores.veiled {change : Change} {capacity larger : Nat} {storage room : Option Handle}
    (stores : change.Stores value) (hides : (change.old capacity storage).Veiled)
    (shown : value.Visible) : (change.new larger room).Veiled := by
  cases stores with
  | item items index =>
      intro item member
      have among := (putItem_perm items index value).mem_iff.mp
        (List.mem_append_left _ (Array.mem_toList_iff.mpr member))
      rcases List.mem_cons.mp among with rfl | others
      · exact shown
      · rcases List.mem_append.mp others with gap | old
        · rw [List.eq_of_mem_replicate gap]
          rfl
        · exact hides item (Array.mem_toList_iff.mp old)
  | @property properties _ _ key put =>
      intro property member
      have same := putProperty_perm properties [] (key, value)
      rw [put, List.append_nil] at same
      have among := same.mem_iff.mp (List.mem_append_left _
        (List.mem_map_of_mem (Array.mem_toList_iff.mpr member)))
      rcases List.mem_cons.mp among with equal | old
      · exact equal ▸ shown
      · obtain ⟨other, there, equal⟩ := List.mem_map.mp old
        exact equal ▸ hides other (Array.mem_toList_iff.mp there)

/-- A store is veiled when its value is visible. -/
theorem Veiled.store {outcome : Outcome Unit} (veiled : heap.Veiled)
    (ends : heap.Ends block value outcome) (shown : value.Visible) : outcome.2.Veiled := by
  cases ends with
  | mismatch => exact veiled.refuse value _
  | inPlace stores found _ =>
      exact (veiled.put block (stores.veiled (veiled.blocks _ _ found) shown)).shrunk
        (shrinks_releaseAll _ _)
  | @full change _ _ wanted needed fault after stores found failed =>
      have grown := veiled.growStorage change.bytes wanted needed
      rw [failed] at grown
      exact grown.refuse value fault
  | @moved change _ storage _ wanted needed _ after stores found _ _ moved =>
      have grown := veiled.growStorage change.bytes wanted needed
      rw [moved] at grown
      exact (grown.shrunk (shrinks_withoutRoom after storage)).put block
        (stores.veiled (veiled.blocks _ _ found) shown)

/-- An element has to be visible. -/
theorem Veiled.arraySet (veiled : heap.Veiled) (block : Handle) (index : Nat)
    (shown : value.Visible) : (heap.arraySet block index value).2.Veiled :=
  veiled.store (ends_arraySet heap block index value) shown

/-- And so has a property. -/
theorem Veiled.objectSet (veiled : heap.Veiled) (block : Handle) (key : String)
    (shown : value.Visible) : (heap.objectSet block key value).2.Veiled :=
  veiled.store (ends_objectSet heap block key value) shown

/-- And what is put in a cell. -/
theorem Veiled.cellSet (veiled : heap.Veiled) (block : Handle) (shown : value.Visible) :
    (heap.cellSet block value).2.Veiled := by
  unfold Heap.cellSet
  split
  · exact (@Veiled.put heap (.cell value) veiled block shown).shrunk (shrinks_release _ _)
  · exact veiled.refuse value _

end Heap

end PocketScript
