import PocketScript.Proofs.Heap.Alike

/-!
# Taking blocks

A block is found whenever a pool has a free one that is large enough (`Heap.Offers`). Otherwise what
was to be put into it is given up, which for the elements of an array or an object is nothing. Blocks
that are referred to hold what they held, whatever else is given up
(`Heap.Balanced.get?_of_shrinks`).
-/

namespace PocketScript

namespace Heap

variable {rules : Rules} {heap after : Heap} {outside : List Reference} {block : Handle}
  {content : Content}

/-- There is a free block of so many bytes. -/
def Offers (heap : Heap) (size : Nat) : Prop :=
  ∃ pool ∈ heap.usage, size ≤ pool.blockSize ∧ pool.used < pool.capacity

/-- A block is found when a pool has one that is large enough. -/
theorem not_offers {size : Nat} {tag : UInt16} {content : Content} {blocks : PoolSet Content}
    (none : heap.blocks.alloc size tag content = (none, blocks)) : ¬ heap.Offers size := by
  rintro ⟨_, member, large, unused⟩
  obtain ⟨pool, inside, rfl⟩ := List.mem_map.mp member
  rcases PoolSet.allocIn_cases size tag content 0 heap.blocks.pools with ⟨full, -⟩ |
    ⟨_, _, _, _, -, -, -, taken⟩
  · have empty := full pool inside
    rw [Pool.fitting, if_neg (Nat.not_lt.mpr large)] at empty
    simp [Pool.used, empty] at unused
  · rw [PoolSet.alloc, taken] at none
    cases none

theorem allocSized_cases (sound : heap.blocks.Sound) (size : Nat) (content : Content) :
    ¬ heap.Offers size ∧
        heap.allocSized size content = (.error .outOfMemory, heap.releaseContent content) ∨
      ∃ block after, heap.allocSized size content = (.ok block, after) ∧
        PoolSet.Taken block content heap.blocks after.blocks ∧
          PoolSet.Alike heap.blocks (after.blocks.release block).2 := by
  unfold Heap.allocSized
  rcases PoolSet.alloc_cases sound size content.tag content with none | ⟨block, blocks, got, taken⟩
  · rw [none]
    exact .inl ⟨not_offers none, rfl⟩
  · rw [got]
    exact .inr ⟨block, ⟨blocks⟩, rfl, taken, PoolSet.alike_of_taken sound got taken⟩

/-- Nothing has happened when there is no block for elements. -/
theorem allocStorage_cases (sound : heap.blocks.Sound) (size : Nat) {capacity : Nat}
    (positive : capacity ≠ 0) :
    ¬ heap.Offers size ∧ heap.allocStorage size capacity = (.error .outOfMemory, heap) ∨
      ∃ room after, heap.allocStorage size capacity = (.ok (some room), after) ∧
        PoolSet.Taken room .storage heap.blocks after.blocks ∧
          PoolSet.Alike heap.blocks (after.blocks.release room).2 := by
  have nothing : heap.releaseContent .storage = heap := by
    simp [releaseContent, releaseStorage, Content.storage?, Content.heldReversed, releasePending]
  unfold Heap.allocStorage
  rw [if_neg positive]
  obtain ⟨none, failed⟩ | ⟨room, after, got, taken⟩ := allocSized_cases sound size .storage
  · rw [failed, nothing]
    exact .inl ⟨none, rfl⟩
  · rw [got]
    exact .inr ⟨room, after, rfl, taken⟩

/-- There is the room that was wanted; or else the room that was needed; or else nothing has
happened. -/
theorem growStorage_cases (sound : heap.blocks.Sound) (size : Nat → Nat) {wanted needed : Nat}
    (positive : wanted ≠ 0) (positive' : needed ≠ 0) :
    ¬ heap.Offers (size needed) ∧
        heap.growStorage size wanted needed = (.error .outOfMemory, heap) ∨
      ∃ capacity room after,
        heap.growStorage size wanted needed = (.ok (capacity, some room), after) ∧
          PoolSet.Taken room .storage heap.blocks after.blocks := by
  unfold Heap.growStorage
  obtain ⟨-, failed⟩ | ⟨room, after, got, taken, -⟩ :=
    allocStorage_cases sound (size wanted) positive
  · rw [failed]
    obtain ⟨none, failed⟩ | ⟨room, after, got, taken, -⟩ :=
      allocStorage_cases sound (size needed) positive'
    · exact .inl ⟨none, by simp [failed, Except.map]⟩
    · exact .inr ⟨needed, room, after, by simp [got, Except.map], taken⟩
  · rw [got]
    exact .inr ⟨wanted, room, after, rfl, taken⟩

/-! ## What giving up leaves alone -/

/-- Whatever is given up, a block that is still referred to holds what it held. -/
theorem Balanced.get?_of_shrinks (balanced : after.Balanced rules outside)
    (shrinks : PoolSet.Shrinks heap.blocks after.blocks) (sound : heap.blocks.Sound)
    (held : 0 < places block (after.references ++ outside)) :
    after.get? block = heap.get? block := by
  obtain ⟨reference, member, leads⟩ := List.countP_pos_iff.mp held
  obtain ⟨kind, there, -⟩ := (balanced.fits reference member).live block (of_decide_eq_true leads)
  obtain ⟨content, found, -⟩ := get?_of_kind? there
  exact found.trans (shrinks.kept sound block content found).symm

theorem Balanced.get?_of_held (balanced : after.Balanced rules outside)
    (shrinks : PoolSet.Shrinks heap.blocks after.blocks) (sound : heap.blocks.Sound)
    (held : 0 < places block outside) : after.get? block = heap.get? block := by
  refine balanced.get?_of_shrinks shrinks sound ?_
  rw [places_append]
  exact Nat.lt_of_lt_of_le held (Nat.le_add_left _ _)

/-- The elements of a container stay where they are. -/
theorem Balanced.get?_of_room (balanced : after.Balanced rules outside)
    (shrinks : PoolSet.Shrinks heap.blocks after.blocks) (sound : heap.blocks.Sound)
    (found : after.get? block = some content) {room : Handle} (own : content.storage? = some room) :
    after.get? room = heap.get? room := by
  have inside : Reference.storage room ∈ content.references := by
    simp [Content.references, own]
  have member : Reference.storage room ∈ after.references ++ outside :=
    List.mem_append_left _ (List.mem_flatMap.mpr ⟨content, PoolSet.mem_contents found, inside⟩)
  exact balanced.get?_of_shrinks shrinks sound (places_pos member rfl)

end Heap

end PocketScript
