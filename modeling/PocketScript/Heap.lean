import PocketScript.Fault
import PocketScript.Value

/-!
# The heap

Blocks with typed content. A block owns the references it holds: when its last reference goes, they
are released too, and so on; the blocks that hold something get fewer with each block freed, so this
ends on every heap, also on one with cycles. Arrays and objects keep their elements in a second
block, which grows with them. Whoever stores a value hands over a reference, also when the store
fails.
-/

namespace PocketScript

/-- What a block holds. -/
inductive Content where
  | text (value : String)
  /-- A text that the host knows by a handle of its own. -/
  | foreign (value : String) (hostHandle : Nat)
  | array (items : Array Value) (capacity : Nat) (storage : Option Handle)
  /-- Properties in the order in which their keys were added. -/
  | object (properties : Array (String × Value)) (capacity : Nat) (storage : Option Handle)
  /-- The room for the elements of an array or object. -/
  | storage
  | cell (value : Value)
  | closure (target : FunctionRef) (cells : Array Value)
  | timer
  deriving Repr

namespace Content

/-- The number that marks a block's content. -/
def tag : Content → UInt16
  | text _ => 1
  | foreign _ _ => 2
  | array _ _ _ => 3
  | object _ _ _ => 4
  | storage => 5
  | cell _ => 6
  | closure _ _ => 7
  | timer => 8

/-- The bytes that the content takes in its own block. -/
def size : Content → Nat
  | text value => 4 + value.utf8ByteSize + 1
  | foreign _ _ => 12
  | array _ _ _ => 16
  | object _ _ _ => 16
  | storage => 0
  | cell _ => 12
  | closure _ cells => 8 + 4 * cells.size
  | timer => 28

/-- The values whose references the content owns, the last one first. -/
def heldReversed : Content → List Value
  | array items _ _ => items.toList.reverse
  | object properties _ _ => (properties.toList.map (·.2)).reverse
  | cell value => [value]
  | closure _ cells => cells.toList.reverse
  | text _ | foreign _ _ | storage | timer => []

/-- The block with the elements. -/
def storage? : Content → Option Handle
  | .array _ _ room => room
  | .object _ _ room => room
  | _ => none

end Content

/-- The bytes that `capacity` elements of an array take. -/
def arrayStorageSize (capacity : Nat) : Nat := 4 + 8 * capacity

/-- The bytes that `capacity` properties of an object take. -/
def objectStorageSize (capacity : Nat) : Nat := 4 + 12 * capacity

/-- The blocks of an environment with their contents. -/
structure Heap where
  blocks : PoolSet Content
  deriving Repr

namespace Heap

def new (pools : List (Nat × Nat)) : Heap := ⟨PoolSet.new pools⟩

def get? (heap : Heap) (block : Handle) : Option Content := heap.blocks.get? block

/-- Gives up the block with the elements of some content. -/
def releaseStorage (blocks : PoolSet Content) (content : Content) : PoolSet Content :=
  match content.storage? with
  | none => blocks
  | some storage => (blocks.release storage).2

theorem occupied_releaseStorage_le (blocks : PoolSet Content) (content : Content) :
    (releaseStorage blocks content).occupied ≤ blocks.occupied := by
  unfold releaseStorage
  split
  · exact Nat.le_refl _
  · exact PoolSet.occupied_release_le _ _

/-- Releases values, the first one first; what a freed block held comes before the others. -/
def releasePending (blocks : PoolSet Content) (pending : List Value) : PoolSet Content :=
  match pending with
  | [] => blocks
  | value :: rest =>
      match value.block? with
      | none => releasePending blocks rest
      | some block =>
          match _freed : (blocks.release block).1 with
          | none => releasePending (blocks.release block).2 rest
          | some content =>
              releasePending (releaseStorage (blocks.release block).2 content)
                (content.heldReversed ++ rest)
termination_by (blocks.occupied, pending.length)
decreasing_by
  · exact Prod.Lex.right _ (Nat.lt_succ_self _)
  · rcases Nat.lt_or_eq_of_le (PoolSet.occupied_release_le blocks block) with less | same
    · exact Prod.Lex.left _ _ less
    · rw [same]
      exact Prod.Lex.right _ (Nat.lt_succ_self _)
  · exact Prod.Lex.left _ _ (Nat.lt_of_le_of_lt (occupied_releaseStorage_le _ _)
      (PoolSet.occupied_release_lt _freed))

/-- Gives up what some content owns. -/
def releaseContent (heap : Heap) (content : Content) : Heap :=
  ⟨releasePending (releaseStorage heap.blocks content) content.heldReversed⟩

/-- Gives up a reference to a block. -/
def releaseBlock (heap : Heap) (block : Handle) : Heap :=
  match heap.blocks.release block with
  | (none, blocks) => ⟨blocks⟩
  | (some content, blocks) => releaseContent ⟨blocks⟩ content

/-- Gives up a reference to a value. -/
def release (heap : Heap) (value : Value) : Heap :=
  match value.block? with
  | none => heap
  | some block => heap.releaseBlock block

/-- Gives up references to values, one after the other. -/
def releaseAll (heap : Heap) (values : List Value) : Heap := values.foldl release heap

/-- Counts a reference to a value. -/
def retain (heap : Heap) (value : Value) : Heap :=
  match value.block? with
  | none => heap
  | some block => ⟨heap.blocks.retain block⟩

def makeStatic (heap : Heap) (value : Value) : Heap :=
  match value.block? with
  | none => heap
  | some block => ⟨heap.blocks.makeStatic block⟩

def refCount (heap : Heap) (value : Value) : Nat :=
  match value.block? with
  | none => 0
  | some block => heap.blocks.refCount block

def isLive (heap : Heap) (value : Value) : Bool :=
  (value.block?.bind heap.get?).isSome

def usage (heap : Heap) : List PoolUsage := heap.blocks.usage

/-! ## New blocks -/

/-- The outcome of an operation with the heap it leaves. -/
abbrev Outcome (α : Type) := Except Fault α × Heap

/-- Takes a block of at least `size` bytes. When there is none, what the content owns is given
up. -/
def allocSized (heap : Heap) (size : Nat) (content : Content) : Outcome Handle :=
  match heap.blocks.alloc size content.tag content with
  | (some block, blocks) => (.ok block, ⟨blocks⟩)
  | (none, blocks) => (.error .outOfMemory, releaseContent ⟨blocks⟩ content)

def alloc (heap : Heap) (content : Content) : Outcome Handle :=
  heap.allocSized content.size content

/-- The outcome with its block as a value. -/
def asValue (kind : Handle → Value) (outcome : Outcome Handle) : Outcome Value :=
  (outcome.1.map kind, outcome.2)

def allocString (heap : Heap) (text : String) : Outcome Value :=
  asValue .string (heap.alloc (.text text))

def allocForeign (heap : Heap) (text : String) (hostHandle : Nat) : Outcome Value :=
  asValue .foreign (heap.alloc (.foreign text hostHandle))

def allocCell (heap : Heap) (value : Value) : Outcome Value :=
  asValue .cell (heap.alloc (.cell value))

def allocClosure (heap : Heap) (target : FunctionRef) (cells : Array Value) : Outcome Value :=
  asValue .closure (heap.alloc (.closure target cells))

def allocTimer (heap : Heap) : Outcome Handle := heap.alloc .timer

/-- Takes a block for elements of `size` bytes in all; none for no elements. -/
def allocStorage (heap : Heap) (size capacity : Nat) : Outcome (Option Handle) :=
  if capacity = 0 then (.ok none, heap)
  else
    let (block, heap) := heap.allocSized size .storage
    (block.map some, heap)

def allocArray (heap : Heap) (items : Array Value) : Outcome Value :=
  let capacity := items.size
  match heap.allocStorage (arrayStorageSize capacity) capacity with
  | (.error fault, heap) => (.error fault, heap.releaseAll items.toList)
  | (.ok storage, heap) => asValue .array (heap.alloc (.array items capacity storage))

/-- Puts a property in its place among others: over that of the same key, or behind all of them.
What was there before is added to the replaced values. -/
def putProperty (state : Array (String × Value) × List Value) (property : String × Value) :
    Array (String × Value) × List Value :=
  let (properties, replaced) := state
  match properties.findIdx? (·.1 == property.1) with
  | none => (properties.push property, replaced)
  | some index =>
      let before := (properties[index]?.map (·.2)).toList
      (properties.setIfInBounds index property, before ++ replaced)

def allocObject (heap : Heap) (properties : List (String × Value)) : Outcome Value :=
  let (properties, replaced) := properties.foldl putProperty (#[], [])
  let heap := heap.releaseAll replaced.reverse
  let capacity := properties.size
  match heap.allocStorage (objectStorageSize capacity) capacity with
  | (.error fault, heap) => (.error fault, heap.releaseAll (properties.toList.map (·.2)))
  | (.ok storage, heap) => asValue .object (heap.alloc (.object properties capacity storage))

/-! ## Reading blocks -/

/-- The text of a string that has a block. -/
def text? (heap : Heap) : Value → Option String
  | .string block | .foreign block =>
      match heap.get? block with
      | some (.text value) => some value
      | some (.foreign value _) => some value
      | _ => none
  | _ => none

def hostHandle? (heap : Heap) : Value → Option Nat
  | .foreign block =>
      match heap.get? block with
      | some (.foreign _ hostHandle) => some hostHandle
      | _ => none
  | _ => none

def arrayItems? (heap : Heap) (block : Handle) : Option (Array Value) :=
  match heap.get? block with
  | some (.array items _ _) => some items
  | _ => none

def arrayLength? (heap : Heap) (block : Handle) : Option Nat :=
  (heap.arrayItems? block).map (·.size)

def arrayGet? (heap : Heap) (block : Handle) (index : Nat) : Option Value :=
  (heap.arrayItems? block).bind (·[index]?)

def objectProperties? (heap : Heap) (block : Handle) : Option (Array (String × Value)) :=
  match heap.get? block with
  | some (.object properties _ _) => some properties
  | _ => none

def objectLength? (heap : Heap) (block : Handle) : Option Nat :=
  (heap.objectProperties? block).map (·.size)

def objectGet? (heap : Heap) (block : Handle) (key : String) : Option Value := do
  let properties ← heap.objectProperties? block
  let property ← properties.find? (·.1 == key)
  pure property.2

def cellGet? (heap : Heap) (block : Handle) : Option Value :=
  match heap.get? block with
  | some (.cell value) => some value
  | _ => none

def closureTarget? (heap : Heap) (block : Handle) : Option FunctionRef :=
  match heap.get? block with
  | some (.closure target _) => some target
  | _ => none

def closureCell? (heap : Heap) (block : Handle) (index : Nat) : Option Value :=
  match heap.get? block with
  | some (.closure _ cells) => cells[index]?
  | _ => none

/-! ## Writing blocks -/

def put (heap : Heap) (block : Handle) (content : Content) : Heap :=
  ⟨heap.blocks.put block content⟩

/-- Refuses a value, whose reference was handed over. -/
def refuse (heap : Heap) (value : Value) (fault : Fault) : Outcome Unit :=
  (.error fault, heap.release value)

/-- Takes a block for `wanted` elements, or else for just the `needed` ones; `size` tells the bytes
of so many elements. -/
def growStorage (heap : Heap) (size : Nat → Nat) (wanted needed : Nat) :
    Outcome (Nat × Option Handle) :=
  let (storage, heap) := heap.allocStorage (size wanted) wanted
  match storage with
  | .ok storage => (.ok (wanted, storage), heap)
  | .error _ =>
      let (storage, heap) := heap.allocStorage (size needed) needed
      (storage.map fun storage => (needed, storage), heap)

/-- The items with a value at an index, the gap in front of it filled with undefined. -/
def putItem (items : Array Value) (index : Nat) (value : Value) : Array Value :=
  if index < items.size then items.setIfInBounds index value
  else (items ++ Array.replicate (index - items.size) Value.undefined).push value

/-- Stores a value in an array, which grows when the index lies behind its end. -/
def arraySet (heap : Heap) (block : Handle) (index : Nat) (value : Value) : Outcome Unit :=
  match heap.get? block with
  | some (.array items capacity storage) =>
      if index < capacity then
        let old := items[index]?
        let heap := heap.put block (.array (putItem items index value) capacity storage)
        (.ok (), heap.releaseAll old.toList)
      else
        let needed := index + 1
        let wanted := max (max needed (capacity * 2)) 4
        match heap.growStorage arrayStorageSize wanted needed with
        | (.error fault, heap) => heap.refuse value fault
        | (.ok (capacity, grown), heap) =>
            let heap : Heap := match storage with
              | none => heap
              | some storage => ⟨(heap.blocks.release storage).2⟩
            (.ok (), heap.put block (.array (putItem items index value) capacity grown))
  | _ => heap.refuse value .typeMismatch

/-- Stores a value under a key of an object, behind the other properties when the key is new. -/
def objectSet (heap : Heap) (block : Handle) (key : String) (value : Value) : Outcome Unit :=
  match heap.get? block with
  | some (.object properties capacity storage) =>
      match properties.findIdx? (·.1 == key) with
      | some index =>
          let old := (properties[index]?.map (·.2)).toList
          let changed := properties.setIfInBounds index (key, value)
          (.ok (), (heap.put block (.object changed capacity storage)).releaseAll old)
      | none =>
          let extended := properties.push (key, value)
          if properties.size < capacity then
            (.ok (), heap.put block (.object extended capacity storage))
          else
            let wanted := max (capacity * 2) 4
            match heap.growStorage objectStorageSize wanted (properties.size + 1) with
            | (.error fault, heap) => heap.refuse value fault
            | (.ok (capacity, grown), heap) =>
                let heap : Heap := match storage with
                  | none => heap
                  | some storage => ⟨(heap.blocks.release storage).2⟩
                (.ok (), heap.put block (.object extended capacity grown))
  | _ => heap.refuse value .typeMismatch

/-- Stores a value in a cell. -/
def cellSet (heap : Heap) (block : Handle) (value : Value) : Outcome Unit :=
  match heap.get? block with
  | some (.cell old) => (.ok (), (heap.put block (.cell value)).release old)
  | _ => heap.refuse value .typeMismatch

end Heap

end PocketScript
