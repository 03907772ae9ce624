import PocketScript.Sum

/-!
# Pools of blocks

Memory is a fixed number of blocks, in pools of equally large ones. A request is served by the
smallest pool that fits and has a free block, which is the one freed last. Blocks are counted: a
block returns to its pool with the release of its last reference, and its generation changes, so
that a handle kept beyond that finds nothing. The count has steps of two, the odd bit marks a block
that stays for ever.
-/

namespace PocketScript

/-- A reference to a block: its pool, its place there, and the generation it was handed out in. -/
structure Handle where
  pool : UInt8
  generation : UInt16
  index : UInt16
  deriving DecidableEq, Repr, Inhabited

/-- A block with its bookkeeping. -/
structure Slot (α : Type) where
  tag : UInt16 := 0
  /-- Twice the number of references, and one more for a block that stays for ever. -/
  refs : UInt16 := 0
  generation : UInt16 := 0
  content : Option α := none
  deriving Repr

/-- What a reference adds to the count. -/
def refStep : UInt16 := 2

/-- The count is odd. -/
def Slot.isStatic {α : Type} (slot : Slot α) : Bool := slot.refs &&& 1 ≠ 0

/-- Counts another reference; a block with more than the count can express stays for ever. -/
def Slot.retain {α : Type} (slot : Slot α) : Slot α :=
  if slot.isStatic ∨ slot.refs = 0 then slot
  else if slot.refs.toNat + refStep.toNat < 65536 then { slot with refs := slot.refs + refStep }
  else { slot with refs := slot.refs ||| 1 }

/-- Marks a used block to stay for ever. -/
def Slot.makeStatic {α : Type} (slot : Slot α) : Slot α :=
  if slot.refs = 0 then slot else { slot with refs := slot.refs ||| 1 }

/-- The block emptied for its next use. -/
def Slot.vacate {α : Type} (slot : Slot α) : Slot α :=
  { slot with refs := 0, generation := slot.generation + 1, content := none }

/-- Equally large blocks. -/
structure Pool (α : Type) where
  blockSize : Nat
  slots : Array (Slot α)
  /-- The free blocks, the next one first. -/
  free : List UInt16
  deriving Repr

namespace Pool

variable {α : Type}

def new (blockSize blockCount : Nat) : Pool α where
  blockSize
  slots := Array.replicate blockCount {}
  free := (List.range blockCount).map UInt16.ofNat

/-- Blocks that are not free. -/
def used (pool : Pool α) : Nat := pool.slots.size - pool.free.length

/-- Blocks that hold something. -/
def occupied (pool : Pool α) : Nat := pool.slots.countP (·.content.isSome)

/-- Changes the block at an index. -/
def update (pool : Pool α) (index : Nat) (change : Slot α → Slot α) : Pool α :=
  { pool with slots := pool.slots.modify index change }

/-- The generation of the block at an index. -/
def generation (pool : Pool α) (index : UInt16) : UInt16 :=
  (pool.slots[index.toNat]?.map (·.generation)).getD 0

/-- Uses the next free block, which leaves the others free. -/
def occupy (pool : Pool α) (index : UInt16) (free : List UInt16) (tag : UInt16) (content : α) :
    Pool α :=
  let filled := pool.update index.toNat fun slot =>
    { slot with tag, refs := refStep, content := some content }
  { filled with free }

/-- The free blocks, if they are large enough. -/
def fitting (pool : Pool α) (size : Nat) : List UInt16 :=
  if pool.blockSize < size then [] else pool.free

/-- Empties a block and puts it in front of the free ones. -/
def vacate (pool : Pool α) (index : UInt16) : Pool α where
  blockSize := pool.blockSize
  slots := pool.slots.modify index.toNat Slot.vacate
  free := index :: pool.free

theorem countP_modify {slots : List (Slot α)} {index : Nat} {slot : Slot α}
    (change : Slot α → Slot α) (found : slots[index]? = some slot) :
    (slots.modify index change).countP (·.content.isSome) + slot.content.isSome.toNat =
      slots.countP (·.content.isSome) + (change slot).content.isSome.toNat := by
  induction slots generalizing index with
  | nil => simp at found
  | cons first rest ih =>
      cases index with
      | zero =>
          simp only [List.getElem?_cons_zero, Option.some.injEq] at found
          subst found
          simp only [List.modify_zero_cons, List.countP_cons]
          cases first.content.isSome <;> cases (change first).content.isSome <;> simp
      | succ index =>
          have step := ih (by simpa using found)
          simp only [List.modify_succ_cons, List.countP_cons]
          omega

theorem occupied_update {pool : Pool α} {index : Nat} {slot : Slot α}
    (change : Slot α → Slot α) (found : pool.slots[index]? = some slot) :
    (pool.update index change).occupied + slot.content.isSome.toNat =
      pool.occupied + (change slot).content.isSome.toNat := by
  simp only [occupied, update, ← Array.countP_toList, Array.toList_modify]
  exact countP_modify change (by simpa using found)

end Pool

/-- All pools, the one with the smallest blocks first. -/
structure PoolSet (α : Type) where
  pools : List (Pool α)
  deriving Repr

/-- What is known of a pool from outside. -/
structure PoolUsage where
  blockSize : Nat
  capacity : Nat
  used : Nat
  deriving DecidableEq, Repr

namespace PoolSet

variable {α : Type}

/-- Pools of the given block sizes and counts. There are at most 255 pools of at most 65535 blocks
each; what goes beyond that is left out. -/
def new (sizes : List (Nat × Nat)) : PoolSet α :=
  let wanted := sizes.filter fun (size, count) => 0 < size && 0 < count
  let ordered := wanted.mergeSort fun left right => left.1 ≤ right.1
  ⟨(ordered.take 255).map fun (size, count) => Pool.new size (min count 65535)⟩

/-- Takes a block of at least `size` bytes from the first pool that has one; `number` is the place
of the first pool. -/
def allocIn (size : Nat) (tag : UInt16) (content : α) (number : Nat) :
    List (Pool α) → Option Handle × List (Pool α)
  | [] => (none, [])
  | pool :: rest =>
      match pool.fitting size with
      | index :: free =>
          let handle := ⟨UInt8.ofNat number, pool.generation index, index⟩
          (some handle, pool.occupy index free tag content :: rest)
      | [] =>
          let (handle, rest) := allocIn size tag content (number + 1) rest
          (handle, pool :: rest)

/-- Takes a block for some content, with one reference to it. There is none, and the pools stay as
they are, when every pool that fits is used up. -/
def alloc (set : PoolSet α) (size : Nat) (tag : UInt16) (content : α) :
    Option Handle × PoolSet α :=
  let (handle, pools) := allocIn size tag content 0 set.pools
  (handle, ⟨pools⟩)

/-- The block of a handle, unless it was freed since. -/
def slot? (set : PoolSet α) (handle : Handle) : Option (Slot α) := do
  let pool ← set.pools[handle.pool.toNat]?
  let slot ← pool.slots[handle.index.toNat]?
  if slot.generation = handle.generation then some slot else none

/-- Changes the pool of a handle. -/
def updatePool (set : PoolSet α) (handle : Handle) (change : Pool α → Pool α) : PoolSet α :=
  ⟨set.pools.modify handle.pool.toNat change⟩

/-- Changes the block of a handle, unless it was freed since. -/
def updateSlot (set : PoolSet α) (handle : Handle) (change : Slot α → Slot α) : PoolSet α :=
  match set.slot? handle with
  | none => set
  | some _ => set.updatePool handle fun pool => pool.update handle.index.toNat change

/-- Counts another reference. -/
def retain (set : PoolSet α) (handle : Handle) : PoolSet α := set.updateSlot handle Slot.retain

/-- Gives up a reference. The content is returned when that was the last one. -/
def release (set : PoolSet α) (handle : Handle) : Option α × PoolSet α :=
  match set.slot? handle with
  | none => (none, set)
  | some slot =>
      if slot.isStatic ∨ slot.refs < refStep then (none, set)
      else if slot.refs = refStep then
        (slot.content, set.updatePool handle fun pool => pool.vacate handle.index)
      else
        (none, set.updateSlot handle fun slot => { slot with refs := slot.refs - refStep })

def makeStatic (set : PoolSet α) (handle : Handle) : PoolSet α :=
  set.updateSlot handle Slot.makeStatic

/-- The references to a block; none to a free one. -/
def refCount (set : PoolSet α) (handle : Handle) : Nat :=
  match set.slot? handle with
  | none => 0
  | some slot => slot.refs.toNat / refStep.toNat

def isStatic (set : PoolSet α) (handle : Handle) : Bool :=
  match set.slot? handle with
  | none => false
  | some slot => slot.isStatic

def get? (set : PoolSet α) (handle : Handle) : Option α :=
  (set.slot? handle).bind (·.content)

/-- Replaces the content of a used block. -/
def put (set : PoolSet α) (handle : Handle) (content : α) : PoolSet α :=
  set.updateSlot handle fun slot =>
    if slot.content.isSome then { slot with content := some content } else slot

def tag? (set : PoolSet α) (handle : Handle) : Option UInt16 :=
  (set.slot? handle).bind fun slot => slot.content.map fun _ => slot.tag

/-- The size of the blocks in a handle's pool. -/
def blockSize? (set : PoolSet α) (handle : Handle) : Option Nat :=
  set.pools[handle.pool.toNat]?.map (·.blockSize)

def usage (set : PoolSet α) : List PoolUsage :=
  set.pools.map fun pool => ⟨pool.blockSize, pool.slots.size, pool.used⟩

def used (set : PoolSet α) : Nat := sumOver Pool.used set.pools

/-- Blocks of all pools that hold something. -/
def occupied (set : PoolSet α) : Nat := sumOver Pool.occupied set.pools

theorem sumOver_occupied_modify {pools : List (Pool α)} {index : Nat} {pool : Pool α}
    (change : Pool α → Pool α) (found : pools[index]? = some pool) :
    sumOver Pool.occupied (pools.modify index change) + pool.occupied =
      sumOver Pool.occupied pools + (change pool).occupied := by
  induction pools generalizing index with
  | nil => simp at found
  | cons first rest ih =>
      cases index with
      | zero =>
          simp only [List.getElem?_cons_zero, Option.some.injEq] at found
          subst found
          simp
          omega
      | succ index =>
          have step := ih (by simpa using found)
          simp only [List.modify_succ_cons, sumOver_cons]
          omega

theorem slot?_eq_some {set : PoolSet α} {handle : Handle} {slot : Slot α}
    (found : set.slot? handle = some slot) :
    ∃ pool, set.pools[handle.pool.toNat]? = some pool ∧
      pool.slots[handle.index.toNat]? = some slot := by
  simp only [slot?, bind, Option.bind_eq_some_iff] at found
  obtain ⟨pool, poolFound, other, slotFound, same⟩ := found
  split at same
  · simp only [Option.some.injEq] at same
    exact ⟨pool, poolFound, same ▸ slotFound⟩
  · simp at same

/-- Changing a block changes the number of occupied blocks as it changes the block's own. -/
theorem occupied_updatePool {set : PoolSet α} {handle : Handle} {slot : Slot α}
    (found : set.slot? handle = some slot) (change : Pool α → Pool α) (inner : Slot α → Slot α)
    (same : ∀ pool, (change pool).slots = (pool.update handle.index.toNat inner).slots) :
    (set.updatePool handle change).occupied + slot.content.isSome.toNat =
      set.occupied + (inner slot).content.isSome.toNat := by
  obtain ⟨pool, poolFound, slotFound⟩ := slot?_eq_some found
  have outer := sumOver_occupied_modify change poolFound
  have local_ := Pool.occupied_update inner slotFound
  have agree : (change pool).occupied = (pool.update handle.index.toNat inner).occupied := by
    simp only [Pool.occupied, same]
  simp only [occupied, updatePool]
  omega

/-- A release that returns content leaves one occupied block less. -/
theorem occupied_release_lt {set : PoolSet α} {handle : Handle} {content : α}
    (freed : (set.release handle).1 = some content) :
    (set.release handle).2.occupied < set.occupied := by
  unfold release at freed ⊢
  cases found : set.slot? handle with
  | none => simp [found] at freed
  | some slot =>
      simp only [found] at freed ⊢
      split
      · rename_i kept
        simp [kept] at freed
      · rename_i notKept
        split
        · rename_i last
          have filled : slot.content.isSome = true := by simp_all
          have := occupied_updatePool found (fun pool => pool.vacate handle.index) Slot.vacate
            (fun pool => rfl)
          simp only [filled, Slot.vacate, Option.isSome_none, Bool.toNat_true,
            Bool.toNat_false] at this ⊢
          omega
        · rename_i more
          simp [notKept, more] at freed

/-- No release leaves more blocks occupied. -/
theorem occupied_release_le (set : PoolSet α) (handle : Handle) :
    (set.release handle).2.occupied ≤ set.occupied := by
  unfold release
  cases found : set.slot? handle with
  | none => simp
  | some slot =>
      simp only
      split
      · exact Nat.le_refl _
      · split
        · have := occupied_updatePool found (fun pool => pool.vacate handle.index) Slot.vacate
            (fun pool => rfl)
          simp only [Slot.vacate, Option.isSome_none, Bool.toNat_false] at this ⊢
          omega
        · have := occupied_updatePool found
            (fun pool => pool.update handle.index.toNat fun slot =>
              { slot with refs := slot.refs - refStep })
            (fun slot => { slot with refs := slot.refs - refStep }) (fun pool => rfl)
          simp only [updateSlot, found]
          simp only at this
          omega

end PoolSet

end PocketScript
