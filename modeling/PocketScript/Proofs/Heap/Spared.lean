import PocketScript.Proofs.Heap.Fitting

/-!
# Shared variables that are left alone

The variables that functions share are cells, and what shares them are closures. Apart from making one
of these and storing into a cell, no operation of the heap has to do with them: the cells and closures
that are there afterwards were there before, and hold what they held (`Heap.Spares`).
-/

namespace PocketScript

/-- The content is a variable that functions share, or a function that shares some. -/
def Content.IsShared : Content → Prop
  | cell _ | closure _ _ => True
  | _ => False

namespace Heap

/-- Every cell and every closure that is there afterwards was there before, with the same content. -/
structure Spares (heap after : Heap) : Prop where
  sound : heap.blocks.Sound → after.blocks.Sound
  kept : heap.blocks.Sound → ∀ block content, content.IsShared → after.get? block = some content →
    heap.get? block = some content

variable {heap middle after : Heap} {content : Content} {block : Handle} {value : Value}

/-- A heap spares itself. -/
theorem Spares.refl (heap : Heap) : Spares heap heap := ⟨id, fun _ _ _ _ => id⟩

theorem Spares.trans (one : Spares heap middle) (two : Spares middle after) : Spares heap after :=
  ⟨fun sound => two.sound (one.sound sound), fun sound block content shared found =>
    one.kept sound block content shared (two.kept (one.sound sound) block content shared found)⟩

/-! ## Giving references up and taking blocks -/

theorem spares_of_shrinks (shrinks : PoolSet.Shrinks heap.blocks after.blocks) : Spares heap after :=
  ⟨shrinks.sound, fun sound block content _ found => shrinks.kept sound block content found⟩

theorem spares_allocSized (heap : Heap) (size : Nat) (aside : ¬ content.IsShared) :
    Spares heap (heap.allocSized size content).2 := by
  refine ⟨fun sound => sound_allocSized sound size content, fun sound other held shared found => ?_⟩
  unfold Heap.allocSized at found
  rcases PoolSet.alloc_cases sound size content.tag content with none | ⟨block, blocks, got, taken⟩
  · rw [none] at found
    exact (shrinks_releaseContent heap content).kept sound other held found
  · rw [got] at found
    by_cases same : other = block
    · subst same
      obtain rfl := Option.some.inj (found.symm.trans taken.get?)
      exact absurd shared aside
    · exact (taken.others.get? other same).symm.trans found

/-- The block of elements is neither. -/
theorem spares_allocStorage (heap : Heap) (size capacity : Nat) :
    Spares heap (heap.allocStorage size capacity).2 := by
  unfold Heap.allocStorage
  split
  · exact .refl heap
  · exact @spares_allocSized .storage heap size not_false

/-- So is an array. -/
theorem spares_allocArray (heap : Heap) (items : Array Value) :
    Spares heap (heap.allocArray items).2 := by
  have stored := spares_allocStorage heap (arrayStorageSize items.size) items.size
  unfold Heap.allocArray
  dsimp only
  generalize heap.allocStorage (arrayStorageSize items.size) items.size = outcome at stored
  obtain ⟨fault | storage, middle⟩ := outcome
  · exact stored.trans (spares_of_shrinks (shrinks_releaseAll _ _))
  · exact stored.trans (@spares_allocSized (.array items items.size storage) middle _ not_false)

/-- And so is an object. -/
theorem spares_allocObject (heap : Heap) (properties : List (String × Value)) :
    Spares heap (heap.allocObject properties).2 := by
  unfold Heap.allocObject
  generalize properties.foldl putProperty (#[], []) = state
  obtain ⟨unique, replaced⟩ := state
  have stored := (spares_of_shrinks (shrinks_releaseAll heap replaced.reverse)).trans
    (spares_allocStorage _ (objectStorageSize unique.size) unique.size)
  simp only
  generalize (heap.releaseAll replaced.reverse).allocStorage (objectStorageSize unique.size)
    unique.size = outcome at stored
  obtain ⟨fault | storage, middle⟩ := outcome
  · exact stored.trans (spares_of_shrinks (shrinks_releaseAll _ _))
  · exact stored.trans (@spares_allocSized (.object unique unique.size storage) middle _ not_false)

/-! ## Stores -/

/-- Another content may be put in a block that is neither. -/
theorem spares_put (heap : Heap) (block : Handle) (aside : ¬ content.IsShared) :
    Spares heap (heap.put block content) := by
  cases found : heap.get? block with
  | none =>
      have same : heap.put block content = heap :=
        congrArg Heap.mk (PoolSet.put_of_get?_none found content)
      rw [same]
      exact .refl heap
  | some old =>
      refine ⟨fun sound => (PoolSet.replaced_put sound found content).sound,
        fun sound other held shared there => ?_⟩
      have replaced := PoolSet.replaced_put sound found content
      by_cases same : other = block
      · subst same
        obtain rfl := Option.some.inj (there.symm.trans replaced.get?)
        exact absurd shared aside
      · exact (replaced.others other same).symm.trans there

/-- Elements may get a larger block. -/
theorem spares_growStorage (heap : Heap) (size : Nat → Nat) (wanted needed : Nat) :
    Spares heap (heap.growStorage size wanted needed).2 := by
  have first := spares_allocStorage heap (size wanted) wanted
  unfold Heap.growStorage
  generalize heap.allocStorage (size wanted) wanted = outcome at first
  obtain ⟨fault | storage, middle⟩ := outcome
  · exact first.trans (spares_allocStorage middle (size needed) needed)
  · exact first

theorem spares_refuse (heap : Heap) (value : Value) (fault : Fault) :
    Spares heap (heap.refuse value fault).2 :=
  spares_of_shrinks (shrinks_release heap value)

/-- A store changes an array or an object only. -/
theorem spares_store {outcome : Outcome Unit} (ends : heap.Ends block value outcome) :
    Spares heap outcome.2 := by
  have aside {change : Change} {capacity : Nat} {storage : Option Handle}
      (stores : change.Stores value) : ¬ (change.new capacity storage).IsShared := by
    cases stores <;> exact not_false
  cases ends with
  | mismatch => exact spares_refuse heap value _
  | inPlace stores found _ =>
      exact (spares_put heap block (aside stores)).trans (spares_of_shrinks (shrinks_releaseAll _ _))
  | @full change _ _ wanted needed fault after stores found failed =>
      have grown := spares_growStorage heap change.bytes wanted needed
      rw [failed] at grown
      exact grown.trans (spares_refuse after value fault)
  | @moved change _ storage _ wanted needed _ after stores found _ _ moved =>
      have grown := spares_growStorage heap change.bytes wanted needed
      rw [moved] at grown
      exact (grown.trans (spares_of_shrinks (shrinks_withoutRoom after storage))).trans
        (spares_put _ block (aside stores))

theorem spares_arraySet (heap : Heap) (block : Handle) (index : Nat) (value : Value) :
    Spares heap (heap.arraySet block index value).2 :=
  spares_store (ends_arraySet heap block index value)

theorem spares_objectSet (heap : Heap) (block : Handle) (key : String) (value : Value) :
    Spares heap (heap.objectSet block key value).2 :=
  spares_store (ends_objectSet heap block key value)

/-! ## Cells and closures -/

theorem Spares.cellGet? (spares : Spares heap after) (sound : heap.blocks.Sound)
    (found : after.cellGet? block = some value) : heap.cellGet? block = some value := by
  unfold Heap.cellGet? at found ⊢
  split at found
  · rename_i there
    cases found
    rw [spares.kept sound block (.cell value) trivial there]
  · cases found

/-- Apart from one block, which then has some content, whatever is there was there before. -/
structure Writes (block : Handle) (content : Content) (heap after : Heap) : Prop where
  sound : after.blocks.Sound
  kept : ∀ other held, after.get? other = some held →
    if other = block then held = content else heap.get? other = some held

/-- A new block is where nothing was. -/
theorem alloc_cases (sound : heap.blocks.Sound) (content : Content) :
    (∃ fault after, heap.alloc content = (.error fault, after) ∧ Spares heap after) ∨
      ∃ block after, heap.alloc content = (.ok block, after) ∧ heap.get? block = none ∧
        Writes block content heap after := by
  have sound' := sound_allocSized sound content.size content
  unfold Heap.alloc
  unfold Heap.allocSized at sound' ⊢
  rcases PoolSet.alloc_cases sound content.size content.tag content with none |
    ⟨block, blocks, got, taken⟩
  · rw [none]
    exact .inl ⟨_, _, rfl, spares_of_shrinks (shrinks_releaseContent heap content)⟩
  · rw [got] at sound' ⊢
    refine .inr ⟨block, _, rfl, taken.fresh, sound', fun other held found => ?_⟩
    split
    · rename_i same
      subst same
      exact Option.some.inj (found.symm.trans taken.get?)
    · rename_i apart
      exact (taken.others.get? other apart).symm.trans found

/-- A store into a cell changes what it holds, and is refused by other blocks. -/
theorem cellSet_cases (sound : heap.blocks.Sound) (block : Handle) (value : Value) :
    (∃ fault after, heap.cellSet block value = (.error fault, after) ∧ Spares heap after ∧
      heap.cellGet? block = none) ∨
      ∃ after old, heap.cellSet block value = (.ok (), after) ∧ heap.cellGet? block = some old ∧
        Writes block (.cell value) heap after := by
  unfold Heap.cellSet
  split
  · rename_i old found
    have replaced := PoolSet.replaced_put sound found (.cell value)
    have less := shrinks_release (heap.put block (.cell value)) old
    refine .inr ⟨_, old, rfl, by rw [Heap.cellGet?, found], less.sound replaced.sound,
      fun other held there => ?_⟩
    have there := less.kept replaced.sound other held there
    split
    · rename_i same
      subst same
      exact Option.some.inj (there.symm.trans replaced.get?)
    · rename_i apart
      exact (replaced.others other apart).symm.trans there
  · rename_i other
    refine .inl ⟨_, _, rfl, spares_refuse heap value .typeMismatch, ?_⟩
    unfold Heap.cellGet?
    split
    · exact absurd ‹_› (other _)
    · rfl

/-- Counting a reference changes no content. -/
theorem get?_retain (sound : heap.blocks.Sound) (value : Value) (block : Handle) :
    (heap.retain value).get? block = heap.get? block := by
  unfold Heap.retain
  split
  · rfl
  · rename_i handle _
    change (heap.blocks.retain handle).get? block = heap.blocks.get? block
    cases found : heap.blocks.get? handle with
    | none => rw [PoolSet.retain_of_get?_none sound found]
    | some content => exact (PoolSet.retain_cases sound found).1.get? block

theorem cellGet?_retain (sound : heap.blocks.Sound) (value : Value) (block : Handle) :
    (heap.retain value).cellGet? block = heap.cellGet? block := by
  unfold Heap.cellGet?
  rw [get?_retain sound]

end Heap

end PocketScript
