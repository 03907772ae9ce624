import Mathlib.Data.Finmap
import PocketScript.Proofs.Heap.Stale

/-!
# Books on the blocks

Whoever only sees handles, answers and contents may keep books on the blocks instead of the pools: a
finite map from the handles of used blocks to what is known of them, and for each size the handles
that are to be given out. The rules of these books (`Ledger.Step`) count references without a bound
and know nothing of slots, of counts in steps of two or of generations that turn around. A block that
is to stay for ever is never let go of (`Ledger.Run.permanent`).
-/

namespace PocketScript

variable {α : Type}

/-- What the books say of a used block. -/
structure LiveBlock (α : Type) where
  /-- The size of the blocks it was taken from. -/
  size : Nat
  tag : UInt16
  content : α
  /-- The references that were taken and have not been given up. -/
  references : Nat
  /-- The block stays for ever. -/
  permanent : Bool

/-- Blocks of one size. -/
structure BlockClass where
  size : Nat
  /-- The handles that are to be given out, the next one first. -/
  vacant : List Handle

structure Ledger (α : Type) where
  /-- The smallest blocks first. -/
  classes : List BlockClass
  entries : Finmap fun _ : Handle => LiveBlock α

/-- The next handle for the place of a handle. -/
def Handle.next (handle : Handle) : Handle := { handle with generation := handle.generation + 1 }

/-- The most references that can be counted. -/
def maxReferences : Nat := 32767

/-- Another reference to a block, which may be one too many to be counted. -/
def LiveBlock.retained (entry : LiveBlock α) : LiveBlock α :=
  { entry with
    references := entry.references + 1
    permanent := entry.permanent || decide (maxReferences < entry.references + 1) }

/-- What an operation on the pools tells. -/
inductive PoolSet.Answer (α : Type) where
  | taken (handle : Handle)
  /-- There is no block for a content. -/
  | rejected (content : α)
  | released (content : Option α)
  | done

namespace Ledger

/-- Another entry for a handle. -/
def write (ledger : Ledger α) (handle : Handle) (entry : LiveBlock α) : Ledger α :=
  { ledger with entries := ledger.entries.insert handle entry }

/-- A block is taken, which was the next one of its class. -/
def take (ledger : Ledger α) (number : Nat) (handle : Handle) (entry : LiveBlock α) : Ledger α where
  classes := ledger.classes.modify number fun blocks => { blocks with vacant := blocks.vacant.tail }
  entries := ledger.entries.insert handle entry

/-- A block is given back, and becomes the next one of its class under its next handle. -/
def strike (ledger : Ledger α) (handle : Handle) : Ledger α where
  classes := ledger.classes.modify handle.pool.toNat fun blocks =>
    { blocks with vacant := handle.next :: blocks.vacant }
  entries := ledger.entries.erase handle

/-- What operations through the handles of used blocks do, and what they tell. -/
inductive Step (ledger : Ledger α) : PoolSet.Operation α → PoolSet.Answer α → Ledger α → Prop where
  /-- The smallest blocks that fit and are not all used are those that a block is taken from. -/
  | taken {size : Nat} {tag : UInt16} {content : α} {number : Nat} {blocks : BlockClass}
      {handle : Handle} (there : ledger.classes[number]? = some blocks) (fits : size ≤ blocks.size)
      (next : blocks.vacant.head? = some handle) (fresh : ledger.entries.lookup handle = none)
      (smallest : ∀ other ∈ ledger.classes, size ≤ other.size → other.vacant ≠ [] →
        blocks.size ≤ other.size) :
      Step ledger (.alloc size tag content) (.taken handle)
        (ledger.take number handle ⟨blocks.size, tag, content, 1, false⟩)
  /-- There is no block when all that fit are used. -/
  | refused {size : Nat} {tag : UInt16} {content : α}
      (full : ∀ blocks ∈ ledger.classes, size ≤ blocks.size → blocks.vacant = []) :
      Step ledger (.alloc size tag content) (.rejected content) ledger
  | retained {handle : Handle} {entry : LiveBlock α}
      (listed : ledger.entries.lookup handle = some entry) :
      Step ledger (.retain handle) .done (ledger.write handle entry.retained)
  | fixed {handle : Handle} {entry : LiveBlock α}
      (listed : ledger.entries.lookup handle = some entry) :
      Step ledger (.makeStatic handle) .done (ledger.write handle { entry with permanent := true })
  | replaced {handle : Handle} {entry : LiveBlock α} {content : α}
      (listed : ledger.entries.lookup handle = some entry) :
      Step ledger (.put handle content) .done (ledger.write handle { entry with content })
  /-- The content is returned with the last reference. -/
  | returned {handle : Handle} {entry : LiveBlock α}
      (listed : ledger.entries.lookup handle = some entry) (last : entry.references = 1)
      (counted : entry.permanent = false) :
      Step ledger (.release handle) (.released (some entry.content)) (ledger.strike handle)
  | kept {handle : Handle} {entry : LiveBlock α}
      (listed : ledger.entries.lookup handle = some entry)
      (more : entry.references ≠ 1 ∨ entry.permanent = true) :
      Step ledger (.release handle) (.released none)
        (ledger.write handle { entry with references := entry.references - 1 })

/-- A sequence of operations with what they tell. -/
inductive Run : Ledger α → List (PoolSet.Operation α) → List (PoolSet.Answer α) → Ledger α →
    Prop where
  | nil (ledger : Ledger α) : Run ledger [] [] ledger
  | cons {before middle after : Ledger α} {operation : PoolSet.Operation α}
      {answer : PoolSet.Answer α} {operations : List (PoolSet.Operation α)}
      {answers : List (PoolSet.Answer α)} (step : before.Step operation answer middle)
      (rest : Run middle operations answers after) :
      Run before (operation :: operations) (answer :: answers) after

/-- So many blocks of one size, none of which has been used. -/
def newClass (number : Nat) (shape : Nat × Nat) : BlockClass where
  size := shape.1
  vacant := (List.range (min shape.2 65535)).map fun index =>
    ⟨UInt8.ofNat number, 0, UInt16.ofNat index⟩

/-- The books on new pools: the wanted sizes and numbers of blocks in the order of the sizes, of
which the first 255 are there, with at most 65535 blocks each. -/
def Opens (sizes : List (Nat × Nat)) (ledger : Ledger α) : Prop :=
  ledger.entries = ∅ ∧
    ∃ ordered : List (Nat × Nat), ordered.Perm (sizes.filter fun (size, count) =>
        0 < size && 0 < count) ∧
      ordered.Pairwise (fun one two => one.1 ≤ two.1) ∧
      ledger.classes = (ordered.take 255).mapIdx newClass

/-! ## Laws of the books -/

theorem lookup_write (ledger : Ledger α) (handle other : Handle) (entry : LiveBlock α) :
    (ledger.write handle entry).entries.lookup other =
      if other = handle then some entry else ledger.entries.lookup other := by
  split
  · next same => rw [same]; exact Finmap.lookup_insert _
  · next apart => exact Finmap.lookup_insert_of_ne _ apart

theorem lookup_take (ledger : Ledger α) (number : Nat) (handle other : Handle) (entry : LiveBlock α) :
    (ledger.take number handle entry).entries.lookup other =
      if other = handle then some entry else ledger.entries.lookup other :=
  lookup_write ledger handle other entry

theorem lookup_strike (ledger : Ledger α) (handle other : Handle) :
    (ledger.strike handle).entries.lookup other =
      if other = handle then none else ledger.entries.lookup other := by
  split
  · next same => rw [same]; exact Finmap.lookup_erase _ _
  · next apart => exact Finmap.lookup_erase_ne apart

theorem mem_entries {ledger : Ledger α} {handle : Handle} {entry : LiveBlock α}
    (listed : ledger.entries.lookup handle = some entry) : handle ∈ ledger.entries.keys :=
  Finmap.mem_keys.mpr (Finmap.mem_of_lookup_eq_some listed)

theorem keys_insert (entries : Finmap fun _ : Handle => LiveBlock α) (handle : Handle)
    (entry : LiveBlock α) : (entries.insert handle entry).keys = insert handle entries.keys := by
  ext other
  simp [Finmap.mem_keys, Finmap.mem_insert]

theorem keys_write {ledger : Ledger α} {handle : Handle} {entry : LiveBlock α}
    (listed : ledger.entries.lookup handle = some entry) (other : LiveBlock α) :
    (ledger.write handle other).entries.keys = ledger.entries.keys := by
  rw [write, keys_insert, Finset.insert_eq_self.mpr (mem_entries listed)]

/-- The number of used blocks of a class. -/
def used (ledger : Ledger α) (number : Nat) : Nat :=
  (ledger.entries.keys.filter (·.pool.toNat = number)).card

theorem used_write {ledger : Ledger α} {handle : Handle} {entry : LiveBlock α}
    (listed : ledger.entries.lookup handle = some entry) (other : LiveBlock α) (number : Nat) :
    (ledger.write handle other).used number = ledger.used number := by
  rw [used, used, keys_write listed]

theorem used_take {ledger : Ledger α} {handle : Handle}
    (unlisted : ledger.entries.lookup handle = none) (entry : LiveBlock α) (place number : Nat) :
    (ledger.take place handle entry).used number =
      ledger.used number + if handle.pool.toNat = number then 1 else 0 := by
  have apart : handle ∉ ledger.entries.keys := fun member =>
    Finmap.lookup_eq_none.mp unlisted (Finmap.mem_keys.mp member)
  rw [used, take, keys_insert, Finset.filter_insert]
  split
  · exact Finset.card_insert_of_notMem fun member => apart (Finset.mem_of_mem_filter _ member)
  · rfl

theorem used_strike {ledger : Ledger α} {handle : Handle} {entry : LiveBlock α}
    (listed : ledger.entries.lookup handle = some entry) (number : Nat) :
    (ledger.strike handle).used number + (if handle.pool.toNat = number then 1 else 0) =
      ledger.used number := by
  rw [used, used, strike, Finmap.keys_erase, Finset.filter_erase]
  split
  · next here =>
      exact Finset.card_erase_add_one (Finset.mem_filter.mpr ⟨mem_entries listed, here⟩)
  · next elsewhere =>
      have absent : handle ∉ ledger.entries.keys.filter (·.pool.toNat = number) := fun member =>
        elsewhere (Finset.mem_filter.mp member).2
      rw [Finset.erase_eq_of_notMem absent, Nat.add_zero]

/-- No step lets go of a block that stays for ever. -/
theorem Step.permanent {before after : Ledger α} {operation : PoolSet.Operation α}
    {answer : PoolSet.Answer α} (step : before.Step operation answer after) {handle : Handle}
    (permanent : (before.entries.lookup handle).any (·.permanent) = true) :
    (after.entries.lookup handle).any (·.permanent) = true := by
  have noted {other : Handle} {entry entry' : LiveBlock α}
      (listed : before.entries.lookup other = some entry)
      (stays : entry.permanent = true → entry'.permanent = true) :
      ((before.write other entry').entries.lookup handle).any (·.permanent) = true := by
    rw [lookup_write]
    split
    · next same =>
        rw [same, listed] at permanent
        exact stays permanent
    · exact permanent
  cases step with
  | taken _ _ _ fresh _ =>
      rw [lookup_take]
      split
      · next same =>
          rw [same, fresh] at permanent
          cases permanent
      · exact permanent
  | refused _ => exact permanent
  | retained listed => exact noted listed fun stays => by simp [LiveBlock.retained, stays]
  | fixed listed => exact noted listed fun _ => rfl
  | replaced listed => exact noted listed id
  | kept listed _ => exact noted listed id
  | returned listed _ counted =>
      rw [lookup_strike]
      split
      · next same =>
          rw [same, listed] at permanent
          exact absurd (counted.symm.trans permanent) Bool.false_ne_true
      · exact permanent

/-- A block that stays for ever is still there after any sequence of operations. -/
theorem Run.permanent {before after : Ledger α} {operations : List (PoolSet.Operation α)}
    {answers : List (PoolSet.Answer α)} (run : Run before operations answers after)
    {handle : Handle} (permanent : (before.entries.lookup handle).any (·.permanent) = true) :
    (after.entries.lookup handle).any (·.permanent) = true := by
  induction run with
  | nil _ => exact permanent
  | cons step _ ih => exact ih (step.permanent permanent)

end Ledger

end PocketScript
