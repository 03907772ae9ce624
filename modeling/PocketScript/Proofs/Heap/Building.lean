import PocketScript.Proofs.Heap.Properties
import PocketScript.Proofs.Heap.Taking

/-!
# New blocks own what they are given

Whoever makes a cell, a closure, an array or an object hands over the values for it. Either they are
all in the new block from then on, apart from the values of an object whose keys come again, or there
is no new block and all of them have been given up, one after the other (`Heap.Constructs`). It makes
no difference whether it is the block for the elements that is missing or the block of the array
itself: what had been taken until then is given back.
-/

namespace PocketScript

namespace Heap

variable {heap : Heap} {outside : List Reference} {given dropped : List Value}
  {kind : Handle → Value} {count : Nat} {contents : Option Handle → Content} {content : Content}

/-- The heap has one more block, with one reference to it, or two when its elements have one of their
own. All others are as they were. -/
inductive Built (heap : Heap) (block : Handle) (content : Content) (after : Heap) : Prop
  | alone : content.storage? = none → PoolSet.Taken block content heap.blocks after.blocks →
      Built heap block content after
  | housed {taken : Heap} {room : Handle} : content.storage? = some room →
      PoolSet.Taken room .storage heap.blocks taken.blocks →
      PoolSet.Taken block content taken.blocks after.blocks → Built heap block content after

/-- What becomes of values that are given for a new block with so many elements. Some may be given up
at first; the others are in the block then. If there is no block, then all values have been given up,
and the heap looks as if nothing else had happened. -/
inductive Constructs (outside : List Reference) (heap : Heap) (given : List Value)
    (kind : Handle → Value) (count : Nat) (contents : Option Handle → Content) :
    Outcome Value → Prop
  | made {dropped : List Value} {room : Option Handle} {block : Handle} {after : Heap} :
      (dropped ++ (contents room).heldReversed).Perm given → (room = none ↔ count = 0) →
      (heap.releaseAll dropped).Built block (contents room) after →
      after.Balanced .free (.value (kind block) :: outside) →
      Constructs outside heap given kind count contents (.ok (kind block), after)
  | failed {order : List Value} {after : Heap} : order.Perm given →
      PoolSet.Alike (heap.releaseAll order).blocks after.blocks → after.Balanced .free outside →
      Constructs outside heap given kind count contents (.error .outOfMemory, after)

theorem releaseAll_append (heap : Heap) (first second : List Value) :
    heap.releaseAll (first ++ second) = (heap.releaseAll first).releaseAll second :=
  List.foldl_append

/-- Values that are given up in advance belong to those that are given up in any case. -/
theorem Constructs.of_releaseAll {outcome : Outcome Value} {all : List Value}
    (constructs : Constructs outside (heap.releaseAll dropped) given kind count contents outcome)
    (same : (dropped ++ given).Perm all) :
    Constructs outside heap all kind count contents outcome := by
  cases constructs with
  | @made more room _ _ own none built balanced =>
      rw [← releaseAll_append] at built
      have owns : ((dropped ++ more) ++ (contents room).heldReversed).Perm all := by
        rw [List.append_assoc]
        exact (own.append_left dropped).trans same
      exact .made owns none built balanced
  | failed order alike balanced =>
      rw [← releaseAll_append] at alike
      exact .failed ((order.append_left dropped).trans same) alike balanced

/-- All values are in the new block. -/
theorem constructs_of_built {room : Option Handle} {block : Handle} {after : Heap}
    (own : (contents room).heldReversed.Perm given) (roomless : room = none ↔ count = 0)
    (built : heap.Built block (contents room) after)
    (balanced : after.Balanced .free (.value (kind block) :: outside)) :
    Constructs outside heap given kind count contents (.ok (kind block), after) :=
  @Constructs.made outside heap given kind count contents [] room block after own roomless built
    balanced

/-- A new block that is all there is. -/
theorem constructs_alone (sound : heap.blocks.Sound) (alone : (contents none).storage? = none)
    (own : (contents none).heldReversed.Perm given) (empty : count = 0)
    (gives : Gives .free outside (fun value => [.value value])
      (asValue kind (heap.alloc (contents none)))) :
    Constructs outside heap given kind count contents
      (asValue kind (heap.alloc (contents none))) := by
  obtain ⟨-, failed⟩ | ⟨block, after, got, taken, -⟩ :=
    allocSized_cases sound (contents none).size (contents none)
  · have released : heap.releaseContent (contents none) =
        heap.releaseAll (contents none).heldReversed := by
      rw [releaseAll_eq_releasePending, Heap.releaseContent, Heap.releaseStorage, alone]
    rw [Heap.alloc, failed, released] at gives ⊢
    exact .failed own (.refl gives.2.sound) gives.2
  · rw [Heap.alloc, got] at gives ⊢
    exact constructs_of_built own (iff_of_true rfl empty) (.alone alone taken) gives

theorem Balanced.constructs_allocCell {value : Value}
    (balanced : heap.Balanced .free (.value value :: outside)) :
    Constructs outside heap [value] .cell 0 (fun _ => .cell value) (heap.allocCell value) :=
  constructs_alone balanced.sound rfl (.refl _) rfl balanced.allocCell

theorem Balanced.constructs_allocClosure (target : FunctionRef)
    (balanced : heap.Balanced .free (given.map .value ++ outside)) :
    Constructs outside heap given .closure 0 (fun _ => .closure target given.toArray)
      (heap.allocClosure target given.toArray) :=
  constructs_alone balanced.sound rfl (List.reverse_perm given) rfl
    (@Balanced.allocClosure _ _ _ given.toArray target balanced trivial fun _ _ => trivial)

/-! ## Blocks with elements -/

/-- A block for the elements, and then one for the array or the object itself. -/
def allocHoused (heap : Heap) (bytes count : Nat) (values : List Value)
    (contents : Option Handle → Content) (kind : Handle → Value) : Outcome Value :=
  match heap.allocStorage bytes count with
  | (.error fault, heap) => (.error fault, heap.releaseAll values)
  | (.ok storage, heap) => asValue kind (heap.alloc (contents storage))

theorem allocArray_eq (heap : Heap) (items : Array Value) :
    heap.allocArray items = heap.allocHoused (arrayStorageSize items.size) items.size items.toList
      (.array items items.size) .array := rfl

theorem allocObject_eq (heap : Heap) (properties : List (String × Value)) :
    heap.allocObject properties =
      (heap.releaseAll (properties.foldl putProperty (#[], [])).2.reverse).allocHoused
        (objectStorageSize (properties.foldl putProperty (#[], [])).1.size)
        (properties.foldl putProperty (#[], [])).1.size
        (valuesOf (properties.foldl putProperty (#[], [])).1)
        (.object (properties.foldl putProperty (#[], [])).1
          (properties.foldl putProperty (#[], [])).1.size) .object := rfl

/-- What is given up with the elements when their block is there, but none for the container, is as
if their block had never been taken. -/
theorem alike_releaseContent {taken : Heap} {room : Handle} (own : content.storage? = some room)
    (back : PoolSet.Alike heap.blocks (taken.blocks.release room).2) :
    PoolSet.Alike (heap.releaseAll content.heldReversed).blocks
      (taken.releaseContent content).blocks := by
  rw [releaseAll_eq_releasePending, Heap.releaseContent, Heap.releaseStorage, own]
  exact alike_releasePending back content.heldReversed

/-- Whichever of the two blocks is missing, the elements are given up and no block remains. -/
theorem constructs_allocHoused (sound : heap.blocks.Sound) {bytes : Nat}
    (own : ∀ room, (contents room).storage? = room)
    (held : ∀ room, (contents room).heldReversed = given.reverse)
    (gives : Gives .free outside (fun value => [.value value])
      (heap.allocHoused bytes count given contents kind)) :
    Constructs outside heap given kind count contents
      (heap.allocHoused bytes count given contents kind) := by
  have owns (room : Option Handle) : (contents room).heldReversed.Perm given := by
    rw [held]
    exact List.reverse_perm given
  unfold allocHoused at gives ⊢
  by_cases empty : count = 0
  · have roomless : heap.allocStorage bytes count = (.ok none, heap) := if_pos empty
    rw [roomless] at gives ⊢
    exact constructs_alone sound (own none) (owns none) empty gives
  obtain ⟨-, failed⟩ | ⟨room, taken, got, took, back⟩ := allocStorage_cases sound bytes empty
  · rw [failed] at gives ⊢
    exact .failed (.refl given) (.refl gives.2.sound) gives.2
  rw [got] at gives ⊢
  dsimp only at gives ⊢
  obtain ⟨-, failed⟩ | ⟨block, after, got, taken', -⟩ :=
    allocSized_cases took.sound (contents (some room)).size (contents (some room))
  · rw [Heap.alloc, failed] at gives ⊢
    exact .failed (owns (some room)) (alike_releaseContent (own (some room)) back) gives.2
  · rw [Heap.alloc, got] at gives ⊢
    exact constructs_of_built (owns (some room)) (iff_of_false (fun none => by cases none) empty)
      (.housed (own (some room)) took taken') gives

theorem Balanced.constructs_allocArray
    (balanced : heap.Balanced .free (given.map .value ++ outside)) :
    Constructs outside heap given .array given.length (.array given.toArray given.length)
      (heap.allocArray given.toArray) := by
  have gives := @Balanced.allocArray _ _ _ given.toArray balanced
  rw [allocArray_eq] at gives ⊢
  exact constructs_allocHoused balanced.sound (fun _ => rfl) (fun _ => rfl) gives

/-- An object has the last value of each key; the values before it are given up at first. -/
theorem Balanced.constructs_allocObject {properties : List (String × Value)}
    (balanced : heap.Balanced .free ((properties.map (·.2)).map .value ++ outside)) :
    Constructs outside heap (properties.map (·.2)) .object (lastValues properties).length
      (.object (lastValues properties).toArray (lastValues properties).length)
      (heap.allocObject properties) := by
  have gives := balanced.allocObject
  have sound := (shrinks_releaseAll heap
    (properties.foldl putProperty (#[], [])).2.reverse).sound balanced.sound
  have same : (valuesOf (properties.foldl putProperty (#[], [])).1 ++
      (properties.foldl putProperty (#[], [])).2).Perm (properties.map (·.2) ++ []) :=
    putProperties_perm properties (#[], [])
  have unique : (properties.foldl putProperty (#[], [])).1 = (lastValues properties).toArray :=
    Array.toList_inj.mp (toList_putProperties properties)
  rw [allocObject_eq] at gives ⊢
  rw [unique] at gives same ⊢
  rw [List.append_nil] at same
  refine (constructs_allocHoused sound (fun _ => rfl) (fun _ => rfl) gives).of_releaseAll ?_
  exact ((List.reverse_perm _).append_right _).trans (List.perm_append_comm.trans same)

end Heap

end PocketScript
