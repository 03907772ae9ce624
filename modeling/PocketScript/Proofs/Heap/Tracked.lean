import Mathlib.Algebra.BigOperators.Intervals
import Mathlib.Data.List.Permutation
import PocketScript.Proofs.Heap.Ledger

/-!
# Pools that keep books

The pools answer as the books on their blocks say, for every configuration and every sequence of
operations through the handles of used blocks, and show what the books say
(`PoolSet.keeps_ledger`). One operation is followed by `PoolSet.Tracked.step`.
-/

namespace PocketScript

variable {α : Type}

/-! ## Books that agree with pools -/

/-- What there is in a place agrees with the entry for its handle. -/
structure Slot.Shows (slot : Slot α) (entry : LiveBlock α) : Prop where
  tag : slot.tag = entry.tag
  content : slot.content = some entry.content
  counted : if entry.permanent then slot.refs.toNat % 2 = 1
    else 0 < entry.references ∧ slot.refs.toNat = 2 * entry.references

namespace Slot.Shows

variable {slot : Slot α} {entry : LiveBlock α}

/-- A slot is static as its entry says. -/
theorem isStatic (shows : slot.Shows entry) : slot.isStatic = entry.permanent := by
  have counted := shows.counted
  rw [Bool.eq_iff_iff, PoolSet.isStatic_slot_iff]
  split at counted
  · next permanent => simp [permanent, counted]
  · next passing => exact ⟨fun odd => by omega, fun permanent => absurd permanent passing⟩

/-- A slot with an entry is taken. -/
theorem refs_ne_zero (shows : slot.Shows entry) : slot.refs ≠ 0 := by
  have counted := shows.counted
  rw [ne_eq, ← UInt16.toNat_inj]
  change ¬ slot.refs.toNat = 0
  split at counted <;> omega

/-- The count of a place follows the references as long as it can express them. -/
theorem retain (shows : slot.Shows entry) : slot.retain.Shows entry.retained := by
  have counted := shows.counted
  unfold Slot.retain
  rw [shows.isStatic]
  by_cases permanent : entry.permanent = true
  · rw [if_pos (.inl permanent)]
    refine ⟨shows.tag, shows.content, ?_⟩
    simpa [LiveBlock.retained, permanent] using counted
  · rw [if_neg permanent] at counted
    rw [if_neg (not_or.mpr ⟨permanent, shows.refs_ne_zero⟩)]
    change _ ∧ _ = _ at counted
    split
    · next room =>
        have sum : (slot.refs + refStep).toNat = slot.refs.toNat + 2 := by
          rw [UInt16.toNat_add]
          exact Nat.mod_eq_of_lt room
        change slot.refs.toNat + 2 < 65536 at room
        refine ⟨shows.tag, shows.content, ?_⟩
        have few : ¬ maxReferences < entry.references + 1 := by
          unfold maxReferences
          omega
        simp only [LiveBlock.retained, permanent, few, decide_false, Bool.or_false, sum]
        exact ⟨Nat.succ_pos _, by omega⟩
    · next full =>
        change ¬ slot.refs.toNat + 2 < 65536 at full
        refine ⟨shows.tag, shows.content, ?_⟩
        have many : maxReferences < entry.references + 1 := by
          unfold maxReferences
          omega
        simp only [LiveBlock.retained, many, decide_true, Bool.or_true, if_true]
        exact PoolSet.lor_one_odd slot.refs

/-- It may be made static with its entry. -/
theorem makeStatic (shows : slot.Shows entry) :
    slot.makeStatic.Shows { entry with permanent := true } := by
  unfold Slot.makeStatic
  rw [if_neg shows.refs_ne_zero]
  exact ⟨shows.tag, shows.content, PoolSet.lor_one_odd slot.refs⟩

/-- And get another content. -/
theorem put (shows : slot.Shows entry) (content : α) :
    Slot.Shows (if slot.content.isSome then { slot with content := some content } else slot)
      { entry with content } := by
  rw [shows.content, Option.isSome_some, if_pos rfl]
  exact ⟨shows.tag, rfl, shows.counted⟩

end Slot.Shows

/-- The blocks of a pool as a class: the handles of its free blocks. -/
def Pool.asClass (pool : Pool α) (number : Nat) : BlockClass where
  size := pool.blockSize
  vacant := pool.free.map fun index => ⟨UInt8.ofNat number, pool.generation index, index⟩

/-- The books are those of the pools. -/
structure PoolSet.Tracked (set : PoolSet α) (ledger : Ledger α) : Prop where
  sound : set.Sound
  ordered : set.pools.Pairwise (·.blockSize ≤ ·.blockSize)
  classes : ∀ number : Nat, ledger.classes[number]? = set.pools[number]?.map (·.asClass number)
  /-- Every block that holds nothing is listed as free. -/
  complete : ∀ (number : Nat) pool, set.pools[number]? = some pool →
    ∀ (index : UInt16) slot, pool.slots[index.toNat]? = some slot → slot.content = none →
      index ∈ pool.free
  unlisted : ∀ handle, ledger.entries.lookup handle = none → set.get? handle = none
  shown : ∀ handle entry, ledger.entries.lookup handle = some entry →
    set.blockSize? handle = some entry.size ∧
      ∃ slot, set.slot? handle = some slot ∧ slot.Shows entry
  balanced : ∀ (number : Nat) pool, set.pools[number]? = some pool →
    pool.free.length + ledger.used number = pool.slots.size

namespace PoolSet

variable {set : PoolSet α} {ledger : Ledger α} {handle : Handle} {entry : LiveBlock α} {slot : Slot α}

/-- What is found in the pools has an entry. -/
theorem Tracked.lookup_of_get? (tracked : set.Tracked ledger) {content : α}
    (found : set.get? handle = some content) :
    ∃ entry, ledger.entries.lookup handle = some entry := by
  refine Option.isSome_iff_exists.mp (Option.isSome_iff_ne_none.mpr fun none => ?_)
  rw [tracked.unlisted handle none] at found
  cases found

/-- The sizes of the blocks do not change. -/
theorem blockSize?_updatePool {change : Pool α → Pool α}
    (kept : ∀ pool, (change pool).blockSize = pool.blockSize) (other : Handle) :
    (set.updatePool handle change).blockSize? other = set.blockSize? other := by
  rw [blockSize?, blockSize?, updatePool, List.getElem?_modify]
  split <;> cases set.pools[other.pool.toNat]? <;> simp [kept]

theorem ordered_modify {pools : List (Pool α)} {change : Pool α → Pool α} (place : Nat)
    (kept : ∀ pool, (change pool).blockSize = pool.blockSize)
    (ordered : pools.Pairwise (·.blockSize ≤ ·.blockSize)) :
    (pools.modify place change).Pairwise (·.blockSize ≤ ·.blockSize) := by
  have sizes : (pools.modify place change).map (·.blockSize) = pools.map (·.blockSize) := by
    apply List.ext_getElem?
    intro number
    rw [List.getElem?_map, List.getElem?_map, List.getElem?_modify]
    split <;> cases pools[number]? <;> simp [kept]
  have mapped := List.pairwise_map.mpr ordered
  rw [← sizes] at mapped
  exact List.pairwise_map.mp mapped

/-- The generation at a place of a pool that is changed somewhere. -/
theorem generation_modify {pool after : Pool α} {inner : Slot α → Slot α} {place : Nat}
    (same : after.slots = pool.slots.modify place inner) {index : UInt16}
    (kept : place = index.toNat → ∀ slot, (inner slot).generation = slot.generation) :
    after.generation index = pool.generation index := by
  rw [Pool.generation, Pool.generation, same, Array.getElem?_modify]
  split
  · next here => cases pool.slots[index.toNat]? <;> simp [kept here]
  · rfl

/-- Only the pool of the handle is changed. -/
theorem pools_updatePool {change : Pool α → Pool α} {number : Nat} {pool : Pool α}
    (there : (set.updatePool handle change).pools[number]? = some pool) :
    ∃ before, set.pools[number]? = some before ∧
      pool = if handle.pool.toNat = number then change before else before := by
  rw [updatePool, List.getElem?_modify, Option.map_eq_map, Option.map_eq_some_iff] at there
  obtain ⟨before, found, same⟩ := there
  exact ⟨before, found, same.symm⟩

/-- A change at one place is not seen through the handles of the blocks at other places. -/
theorem slot?_other (found : set.slot? handle = some slot) {change : Pool α → Pool α}
    {inner : Slot α → Slot α}
    (same : ∀ pool, (change pool).slots = pool.slots.modify handle.index.toNat inner)
    {other : Handle} (apart : other ≠ handle) {seen : Slot α} (there : set.slot? other = some seen) :
    (set.updatePool handle change).slot? other = some seen := by
  have elsewhere : ¬ Coincide handle other := by
    intro coincide
    have one := slot?_of_coincide found coincide
    rw [there] at one
    split at one
    · next generation =>
        exact apart (eq_of_coincide coincide ((generation_of_slot? found).symm.trans generation)).symm
    · cases one
  rw [slot?_updatePool found same, if_neg elsewhere, there]

/-- The blocks that hold nothing are listed after a change at one place, when they were before and the
changed block is listed if it has come to hold nothing. -/
theorem Tracked.complete_updatePool (tracked : set.Tracked ledger)
    (found : set.slot? handle = some slot) {change : Pool α → Pool α} {inner : Slot α → Slot α}
    (same : ∀ pool, (change pool).slots = pool.slots.modify handle.index.toNat inner)
    (others : ∀ pool, set.pools[handle.pool.toNat]? = some pool →
      ∀ index ∈ pool.free, index ≠ handle.index → index ∈ (change pool).free)
    (self : (inner slot).content = none → ∀ pool, handle.index ∈ (change pool).free)
    (number : Nat) (pool : Pool α) (there : (set.updatePool handle change).pools[number]? = some pool)
    (index : UInt16) (seen : Slot α) (seenThere : pool.slots[index.toNat]? = some seen)
    (vacant : seen.content = none) : index ∈ pool.free := by
  obtain ⟨before, poolFound, rfl⟩ := pools_updatePool there
  split at seenThere
  swap
  · next elsewhere =>
      rw [if_neg elsewhere]
      exact tracked.complete number before poolFound index seen seenThere vacant
  next here =>
  subst here
  rw [if_pos rfl]
  rw [same, Array.getElem?_modify] at seenThere
  split at seenThere
  · next equal =>
      obtain ⟨pool, poolFound', slotFound⟩ := slot?_eq_some found
      obtain rfl := Option.some.inj (poolFound'.symm.trans poolFound)
      rw [← equal, slotFound] at seenThere
      cases seenThere
      exact UInt16.toNat_inj.mp equal ▸ self vacant pool
  · next apart =>
      have free := tracked.complete _ before poolFound index seen seenThere vacant
      exact others before poolFound index free fun equal =>
        apart (congrArg UInt16.toNat equal.symm)

/-- The other entries agree with the pools after a change at one place. -/
theorem Tracked.shown_other (tracked : set.Tracked ledger) (found : set.slot? handle = some slot)
    {change : Pool α → Pool α} {inner : Slot α → Slot α}
    (same : ∀ pool, (change pool).slots = pool.slots.modify handle.index.toNat inner)
    (kept : ∀ pool, (change pool).blockSize = pool.blockSize) {other : Handle}
    (apart : other ≠ handle) (listed : ledger.entries.lookup other = some entry) :
    (set.updatePool handle change).blockSize? other = some entry.size ∧
      ∃ slot, (set.updatePool handle change).slot? other = some slot ∧ slot.Shows entry := by
  obtain ⟨sized, seen, there, shows⟩ := tracked.shown other entry listed
  exact ⟨(blockSize?_updatePool kept other).trans sized, seen,
    slot?_other found same apart there, shows⟩

/-- An entry for a block that is used anyway. -/
theorem Tracked.write (tracked : set.Tracked ledger)
    (listed : ledger.entries.lookup handle = some entry) (found : set.slot? handle = some slot)
    (change : Slot α → Slot α) (kept : ∀ slot, (change slot).generation = slot.generation)
    {entry' : LiveBlock α} (size : entry'.size = entry.size) (shows : (change slot).Shows entry') :
    (set.updateSlot handle change).Tracked (ledger.write handle entry') := by
  obtain ⟨sized, slot', found', before⟩ := tracked.shown handle entry listed
  obtain rfl : slot' = slot := Option.some.inj (found'.symm.trans found)
  have holds : slot'.content ≠ none := by rw [before.content]; exact Option.some_ne_none _
  have fine : (change slot').Sound := by
    rw [Slot.Sound, shows.content]
    exact ⟨fun zero => absurd zero shows.refs_ne_zero, fun none => absurd none (by simp)⟩
  have changed := changed_updateSlot change tracked.sound found holds (kept slot') fine
  have there := slot?_updateSlot found (kept slot')
  have same : ∀ pool : Pool α, (pool.update handle.index.toNat change).slots =
    pool.slots.modify handle.index.toNat change := fun _ => rfl
  rw [updateSlot, found] at changed there ⊢
  refine ⟨changed.sound, ordered_modify _ (fun _ => rfl) tracked.ordered, fun number => ?_,
    tracked.complete_updatePool found same (fun _ _ _ free _ => free) fun none => ?_,
    fun other unlisted => ?_, fun other entry'' listed' => ?_,
    fun number pool poolFound => ?_⟩
  · change ledger.classes[number]? = _
    rw [tracked.classes, updatePool, List.getElem?_modify]
    cases set.pools[number]? with
    | none => rfl
    | some pool =>
        simp only [Option.map_eq_map, Option.map_some]
        split
        · refine congrArg some (congrArg (BlockClass.mk pool.blockSize) (List.map_congr_left ?_))
          intro index _
          rw [generation_modify (same pool) fun _ => kept]
        · rfl
  · rw [shows.content] at none
    cases none
  · rw [Ledger.lookup_write] at unlisted
    split at unlisted
    · cases unlisted
    · next apart => rw [changed.others.get? other apart, tracked.unlisted other unlisted]
  · rw [Ledger.lookup_write] at listed'
    split at listed'
    · next equal =>
        cases listed'
        rw [equal, blockSize?_updatePool (by intro; rfl)]
        exact ⟨size ▸ sized, change slot', there, shows⟩
    · next apart => exact tracked.shown_other found same (by intro; rfl) apart listed'
  · obtain ⟨before', poolFound', rfl⟩ := pools_updatePool poolFound
    rw [Ledger.used_write listed]
    have balanced := tracked.balanced number before' poolFound'
    split
    · simpa [Pool.update] using balanced
    · exact balanced

/-- A block is taken from a pool. -/
theorem Tracked.take (tracked : set.Tracked ledger) {number : Nat} {pool : Pool α} {index : UInt16}
    {free : List UInt16} (poolFound : set.pools[number]? = some pool)
    (listed : pool.free = index :: free) {tag : UInt16} {content : α} {after : PoolSet α}
    (changed : after = ⟨set.pools.modify number (·.occupy index free tag content)⟩)
    (same : handle = ⟨UInt8.ofNat number, pool.generation index, index⟩)
    (taken : Taken handle content set after) :
    ledger.entries.lookup handle = none ∧
      after.Tracked (ledger.take number handle ⟨pool.blockSize, tag, content, 1, false⟩) := by
  have inside : number < 256 :=
    Nat.lt_of_lt_of_le (List.getElem?_eq_some_iff.mp poolFound).1 tracked.sound.few
  have place : handle.pool.toNat = number := by
    rw [same]
    exact UInt8.toNat_ofNat_of_lt' inside
  have here : handle.index = index := by rw [same]
  obtain ⟨slot, slotFound, vacant⟩ := (tracked.sound.pools _ pool poolFound).vacant index
    (listed ▸ List.mem_cons_self)
  have generation : slot.generation = handle.generation := by
    rw [same, Pool.generation, slotFound]
    rfl
  have found : set.slot? handle = some slot := by
    rw [slot?_eq, place, here, poolFound, Option.bind_some, slotFound, Option.bind_some,
      if_pos generation]
  have shape : ∀ pool : Pool α, (pool.occupy index free tag content).slots =
      pool.slots.modify handle.index.toNat fun slot =>
        { slot with tag, refs := refStep, content := some content } := by
    rw [here]
    exact fun _ => rfl
  have unlisted : ledger.entries.lookup handle = none := by
    refine Option.eq_none_iff_forall_ne_some.mpr fun entry there => ?_
    obtain ⟨-, seen, seenThere, shows⟩ := tracked.shown handle entry there
    have fresh := taken.fresh
    rw [get?_of_slot? seenThere, shows.content] at fresh
    cases fresh
  have there : (set.updatePool handle (·.occupy index free tag content)).slot? handle =
      some { slot with tag, refs := refStep, content := some content } := by
    rw [slot?_updatePool found shape, if_pos ⟨rfl, rfl⟩]
    exact if_pos generation
  have updated : after = set.updatePool handle (·.occupy index free tag content) := by
    rw [changed, updatePool, place]
  refine ⟨unlisted, taken.sound, ?_, fun other => ?_, ?_, fun other unlisted' => ?_,
    fun other entry listed' => ?_, fun other pool' poolFound' => ?_⟩
  · rw [changed]
    exact ordered_modify _ (fun _ => rfl) tracked.ordered
  · rw [changed, Ledger.take, List.getElem?_modify, List.getElem?_modify, tracked.classes]
    by_cases equal : number = other
    · subst equal
      rw [poolFound]
      simp only [Option.map_eq_map, Option.map_some, if_true]
      refine congrArg some (congrArg (BlockClass.mk pool.blockSize) ?_)
      rw [Pool.asClass, listed, List.map_cons, List.tail_cons]
      refine List.map_congr_left fun index _ => ?_
      rw [generation_modify (shape pool) fun _ _ => rfl]
    · simp [equal]
  · rw [updated]
    refine tracked.complete_updatePool found shape (fun pool' poolFound' index' free apart => ?_)
      fun impossible => ?_
    · obtain rfl := Option.some.inj (poolFound'.symm.trans (place ▸ poolFound))
      rw [listed] at free
      exact (List.mem_cons.mp free).resolve_left (here ▸ apart)
    · cases impossible
  · rw [Ledger.lookup_take] at unlisted'
    split at unlisted'
    · cases unlisted'
    · next apart => rw [taken.others.get? other apart, tracked.unlisted other unlisted']
  · rw [updated]
    rw [Ledger.lookup_take] at listed'
    split at listed'
    · next equal =>
        cases listed'
        rw [equal, blockSize?_updatePool (by intro; rfl), blockSize?, place, poolFound]
        exact ⟨rfl, _, there, rfl, rfl, Nat.one_pos, rfl⟩
    · next apart => exact tracked.shown_other found shape (by intro; rfl) apart listed'
  · rw [updated] at poolFound'
    obtain ⟨before, beforeFound, rfl⟩ := pools_updatePool poolFound'
    have balanced := tracked.balanced other before beforeFound
    rw [Ledger.used_take unlisted]
    split
    · next equal =>
        obtain rfl := Option.some.inj (beforeFound.symm.trans (equal ▸ place ▸ poolFound))
        rw [listed, List.length_cons] at balanced
        simpa [Pool.occupy, Pool.update, Nat.add_assoc, Nat.add_comm 1] using balanced
    · exact balanced

/-- The last reference to a block is given up. -/
theorem Tracked.strike (tracked : set.Tracked ledger)
    (listed : ledger.entries.lookup handle = some entry) (found : set.slot? handle = some slot)
    {after : PoolSet α} (changed : after = set.updatePool handle fun pool => pool.vacate handle.index)
    (emptied : Emptied handle entry.content set after) : after.Tracked (ledger.strike handle) := by
  have shape : ∀ pool : Pool α, (pool.vacate handle.index).slots =
    pool.slots.modify handle.index.toNat Slot.vacate := fun _ => rfl
  obtain ⟨pool, poolFound, slotFound⟩ := slot?_eq_some found
  have generation := generation_of_slot? found
  have holds : slot.content ≠ none := by
    obtain ⟨-, seen, there, shows⟩ := tracked.shown handle entry listed
    obtain rfl := Option.some.inj (found.symm.trans there)
    rw [shows.content]
    exact Option.some_ne_none _
  have apart := not_mem_free tracked.sound found holds poolFound
  refine ⟨emptied.sound, ?_, fun other => ?_, ?_, fun other unlisted => ?_,
    fun other entry' listed' => ?_, fun other pool' poolFound' => ?_⟩
  · rw [changed]
    exact ordered_modify _ (fun _ => rfl) tracked.ordered
  · rw [changed, Ledger.strike, updatePool, List.getElem?_modify, List.getElem?_modify,
      tracked.classes]
    by_cases equal : handle.pool.toNat = other
    · subst equal
      rw [poolFound]
      simp only [Option.map_eq_map, Option.map_some, if_true]
      refine congrArg some (congrArg (BlockClass.mk pool.blockSize) ?_)
      change _ :: _ = (List.map _ (handle.index :: pool.free))
      rw [List.map_cons]
      refine congrArg₂ List.cons ?_ (List.map_congr_left fun index member => ?_)
      · rw [Pool.generation, shape, Array.getElem?_modify, if_pos rfl, slotFound]
        simp [Handle.next, Slot.vacate, generation]
      · rw [generation_modify (shape pool) fun same => ?_]
        exact absurd member (UInt16.toNat_inj.mp same ▸ apart)
    · simp [equal]
  · rw [changed]
    exact tracked.complete_updatePool found shape
      (fun _ _ _ free _ => List.mem_cons_of_mem _ free) fun _ _ => List.mem_cons_self
  · rw [Ledger.lookup_strike] at unlisted
    split at unlisted
    · next equal => rw [equal, emptied.gone]
    · next apart => rw [emptied.others.get? other apart, tracked.unlisted other unlisted]
  · rw [Ledger.lookup_strike] at listed'
    split at listed'
    · cases listed'
    · next apart =>
        rw [changed]
        exact tracked.shown_other found shape (by intro; rfl) apart listed'
  · rw [changed] at poolFound'
    obtain ⟨before, beforeFound, rfl⟩ := pools_updatePool poolFound'
    have balanced := tracked.balanced other before beforeFound
    rw [← Ledger.used_strike listed other] at balanced
    split at balanced
    · next equal =>
        rw [if_pos equal]
        simpa [Pool.vacate, Nat.add_assoc, Nat.add_comm 1] using balanced
    · next elsewhere => rwa [if_neg elsewhere]

/-! ## Steps -/

/-- What an operation tells. -/
def answer (set : PoolSet α) : Operation α → Answer α
  | .alloc size tag content =>
      match (set.alloc size tag content).1 with
      | some handle => .taken handle
      | none => .rejected content
  | .release handle => .released (set.release handle).1
  | .retain _ | .makeStatic _ | .put _ _ => .done

/-- What operations tell. -/
def answers (set : PoolSet α) : List (Operation α) → List (Answer α)
  | [] => []
  | operation :: rest => set.answer operation :: (set.apply operation).answers rest

/-- The operation goes through a handle. -/
def Operation.handle? : Operation α → Option Handle
  | .alloc _ _ _ => none
  | .retain handle | .release handle | .makeStatic handle | .put handle _ => some handle

/-- Every operation goes through the handle of a block that is used when its turn comes. -/
def Proper (set : PoolSet α) : List (Operation α) → Prop
  | [] => True
  | operation :: rest =>
      (∀ handle ∈ operation.handle?, (set.get? handle).isSome) ∧ (set.apply operation).Proper rest

theorem free_eq_nil {pool : Pool α} {size : Nat} (fits : size ≤ pool.blockSize)
    (full : pool.fitting size = []) : pool.free = [] := by
  rwa [Pool.fitting, if_neg (Nat.not_lt.mpr fits)] at full

/-- The books answer the demand for a block as the pools do. -/
theorem Tracked.step_alloc (tracked : set.Tracked ledger) (size : Nat) (tag : UInt16) (content : α) :
    ∃ after, ledger.Step (.alloc size tag content) (set.answer (.alloc size tag content)) after ∧
      (set.apply (.alloc size tag content)).Tracked after := by
  rcases allocIn_cases size tag content 0 set.pools with ⟨full, nothing⟩ |
    ⟨number, pool, index, free, poolFound, fits, first, taken⟩
  · have refused : set.alloc size tag content = (none, set) := by rw [alloc, nothing]
    refine ⟨ledger, ?_, by rw [apply, refused]; exact tracked⟩
    rw [answer, refused]
    refine .refused fun blocks member large => ?_
    obtain ⟨number, there⟩ := List.getElem?_of_mem member
    rw [tracked.classes, Option.map_eq_some_iff] at there
    obtain ⟨pool, poolFound, rfl⟩ := there
    have empty := free_eq_nil large (full pool (List.mem_of_getElem? poolFound))
    exact List.map_eq_nil_iff.mpr empty
  obtain ⟨large, listed⟩ := fitting_eq_cons fits
  have told : set.alloc size tag content =
      (some ⟨UInt8.ofNat number, pool.generation index, index⟩,
        ⟨set.pools.modify number (·.occupy index free tag content)⟩) := by
    rw [alloc, taken, Nat.zero_add]
  rcases alloc_cases tracked.sound size tag content with refused | ⟨handle, after, same, taken⟩
  · exact absurd (congrArg Prod.fst (told.symm.trans refused)) (Option.some_ne_none _)
  have equal := told.symm.trans same
  injection equal with equalHandle equalAfter
  obtain rfl := Option.some.inj equalHandle
  obtain ⟨unlisted, now⟩ := tracked.take poolFound listed equalAfter.symm rfl taken
  refine ⟨_, ?_, by rw [apply, same]; exact now⟩
  rw [answer, same]
  have there : ledger.classes[number]? = some (pool.asClass number) := by
    rw [tracked.classes, poolFound, Option.map_some]
  refine .taken there large ?_ unlisted fun other member fits' nonempty => ?_
  · rw [Pool.asClass, listed, List.map_cons, List.head?_cons]
  · obtain ⟨place, otherThere⟩ := List.getElem?_of_mem member
    rw [tracked.classes, Option.map_eq_some_iff] at otherThere
    obtain ⟨pool', poolFound', rfl⟩ := otherThere
    rcases Nat.lt_trichotomy place number with before | rfl | behind
    · have empty := free_eq_nil fits' (first place before pool' poolFound')
      exact absurd (List.map_eq_nil_iff.mpr empty) nonempty
    · obtain rfl := Option.some.inj (poolFound.symm.trans poolFound')
      exact Nat.le_refl _
    · obtain ⟨inside, there⟩ := List.getElem?_eq_some_iff.mp poolFound
      obtain ⟨inside', there'⟩ := List.getElem?_eq_some_iff.mp poolFound'
      have ordered := List.pairwise_iff_getElem.mp tracked.ordered number place inside inside' behind
      rw [there, there'] at ordered
      exact ordered

/-- To change nothing changes nothing. -/
theorem updateSlot_id (set : PoolSet α) (handle : Handle) : set.updateSlot handle id = set := by
  have same (pool : Pool α) : pool.update handle.index.toNat id = pool := by
    have slots : pool.slots.modify handle.index.toNat id = pool.slots :=
      Array.ext_getElem? fun index => by
        rw [Array.getElem?_modify]
        split <;> simp
    rw [Pool.update, slots]
  unfold updateSlot
  split
  · rfl
  · rw [updatePool, funext same]
    exact congrArg PoolSet.mk (List.modify_id _ _)

/-- A release goes by the count in the place. -/
theorem release_eq (found : set.slot? handle = some slot) (shows : slot.Shows entry) :
    set.release handle =
      if entry.permanent = true then (none, set)
      else if entry.references = 1 then
        (some entry.content, set.updatePool handle fun pool => pool.vacate handle.index)
      else (none, set.updateSlot handle fun slot => { slot with refs := slot.refs - refStep }) := by
  have counted := shows.counted
  have low : slot.refs < refStep ↔ slot.refs.toNat < 2 := UInt16.lt_iff_toNat_lt
  have one : slot.refs = refStep ↔ slot.refs.toNat = 2 := UInt16.toNat_inj.symm
  rw [release, found]
  dsimp only
  rw [shows.isStatic, shows.content]
  by_cases permanent : entry.permanent = true
  · rw [if_pos (.inl permanent), if_pos permanent]
  · rw [if_neg permanent] at counted
    rw [if_neg (not_or.mpr ⟨permanent, by rw [low]; omega⟩), if_neg permanent]
    by_cases last : entry.references = 1
    · rw [if_pos (one.mpr (by omega)), if_pos last]
    · rw [if_neg (fun equal => last (by have := one.mp equal; omega)), if_neg last]

/-- The books answer a release as the pools do. -/
theorem Tracked.step_release (tracked : set.Tracked ledger)
    (listed : ledger.entries.lookup handle = some entry) :
    ∃ after, ledger.Step (.release handle) (set.answer (.release handle)) after ∧
      (set.apply (.release handle)).Tracked after := by
  obtain ⟨-, slot, found, shows⟩ := tracked.shown handle entry listed
  have counted := shows.counted
  have told := release_eq found shows
  rw [answer, apply]
  by_cases permanent : entry.permanent = true
  · rw [if_pos permanent] at told
    rw [told]
    refine ⟨_, .kept listed (.inr permanent), ?_⟩
    change set.Tracked _
    rw [← updateSlot_id set handle]
    refine tracked.write listed found id (fun _ => rfl) rfl ⟨shows.tag, shows.content, ?_⟩
    rw [if_pos permanent] at counted ⊢
    exact counted
  rw [if_neg permanent] at told counted
  by_cases last : entry.references = 1
  · rw [if_pos last] at told
    rw [told]
    refine ⟨_, .returned listed last (Bool.eq_false_iff.mpr permanent), ?_⟩
    refine tracked.strike listed found rfl ?_
    have held : set.get? handle = some entry.content := by rw [get?_of_slot? found, shows.content]
    rcases release_cases tracked.sound held with ⟨-, kept⟩ | ⟨-, -, after, freed, emptied⟩ |
      ⟨-, after, kept, -⟩
    · exact absurd (congrArg Prod.fst (told.symm.trans kept)) (Option.some_ne_none _)
    · obtain rfl := (congrArg Prod.snd (told.symm.trans freed) :)
      exact emptied
    · exact absurd (congrArg Prod.fst (told.symm.trans kept)) (Option.some_ne_none _)
  · rw [if_neg last] at told
    rw [told]
    refine ⟨_, .kept listed (.inl last), ?_⟩
    refine tracked.write listed found (fun slot => { slot with refs := slot.refs - refStep })
      (fun _ => rfl) rfl ⟨shows.tag, shows.content, ?_⟩
    have less : (slot.refs - refStep).toNat = slot.refs.toNat - 2 :=
      UInt16.toNat_sub_of_le _ _ (UInt16.le_iff_toNat_le.mpr (by
        change 2 ≤ slot.refs.toNat
        omega))
    rw [if_neg permanent]
    change 0 < entry.references - 1 ∧ (slot.refs - refStep).toNat = 2 * (entry.references - 1)
    omega

/-- Every operation through the handle of a used block is answered by the books. -/
theorem Tracked.step (tracked : set.Tracked ledger) (operation : Operation α)
    (used : ∀ handle ∈ operation.handle?, (set.get? handle).isSome) :
    ∃ after, ledger.Step operation (set.answer operation) after ∧
      (set.apply operation).Tracked after := by
  have listed {handle : Handle} (same : operation.handle? = some handle) :
      ∃ entry, ledger.entries.lookup handle = some entry := by
    obtain ⟨content, found⟩ := Option.isSome_iff_exists.mp (used handle same)
    exact tracked.lookup_of_get? found
  cases operation with
  | alloc size tag content => exact tracked.step_alloc size tag content
  | retain handle =>
      obtain ⟨entry, there⟩ := listed rfl
      obtain ⟨-, slot, found, shows⟩ := tracked.shown handle entry there
      refine ⟨_, .retained there, tracked.write there found Slot.retain (fun slot => ?_) rfl shows.retain⟩
      unfold Slot.retain
      split
      · rfl
      · split <;> rfl
  | release handle =>
      obtain ⟨entry, there⟩ := listed rfl
      exact tracked.step_release there
  | makeStatic handle =>
      obtain ⟨entry, there⟩ := listed rfl
      obtain ⟨-, slot, found, shows⟩ := tracked.shown handle entry there
      refine ⟨_, .fixed there, tracked.write there found Slot.makeStatic (fun slot => ?_) rfl
        shows.makeStatic⟩
      unfold Slot.makeStatic
      split <;> rfl
  | put handle content =>
      obtain ⟨entry, there⟩ := listed rfl
      obtain ⟨-, slot, found, shows⟩ := tracked.shown handle entry there
      refine ⟨_, .replaced there, tracked.write there found _ (fun slot => ?_) rfl
        (shows.put content)⟩
      split <;> rfl

/-- So is every sequence of such operations. -/
theorem Tracked.run (tracked : set.Tracked ledger) {operations : List (Operation α)}
    (proper : set.Proper operations) :
    ∃ after, Ledger.Run ledger operations (set.answers operations) after ∧
      (set.run operations).Tracked after := by
  induction operations generalizing set ledger with
  | nil => exact ⟨ledger, .nil ledger, tracked⟩
  | cons operation rest ih =>
      obtain ⟨used, proper⟩ := proper
      obtain ⟨middle, step, tracked⟩ := tracked.step operation used
      obtain ⟨after, run, tracked⟩ := ih tracked proper
      exact ⟨after, .cons step run, tracked⟩

/-! ## New pools -/

theorem generation_new (size count : Nat) (index : UInt16) :
    (Pool.new size count : Pool α).generation index = 0 := by
  rw [Pool.generation, Pool.new, Array.getElem?_replicate]
  split <;> rfl

/-- A new pool is a new class. -/
theorem asClass_new (number : Nat) (shape : Nat × Nat) :
    (Pool.new shape.1 (min shape.2 65535) : Pool α).asClass number =
      Ledger.newClass number shape := by
  refine congrArg (BlockClass.mk shape.1) ?_
  rw [Pool.new, List.map_map]
  refine List.map_congr_left fun index _ => ?_
  exact congrArg (Handle.mk _ · _) (generation_new shape.1 _ _)

/-- The books on new pools. -/
theorem tracked_new (sizes : List (Nat × Nat)) :
    ∃ ledger, Ledger.Opens sizes ledger ∧ (new sizes : PoolSet α).Tracked ledger := by
  let ordered := (sizes.filter fun shape => 0 < shape.1 && 0 < shape.2).mergeSort
    fun left right => left.1 ≤ right.1
  have pools : (new sizes : PoolSet α).pools =
    (ordered.take 255).map fun shape => Pool.new shape.1 (min shape.2 65535) := rfl
  have sorted : ordered.Pairwise fun one two => one.1 ≤ two.1 := by
    refine (List.pairwise_mergeSort (fun one two three => ?_) (fun one two => ?_) _).imp
      (fun less => of_decide_eq_true less)
    · simpa using Nat.le_trans
    · simpa using Nat.le_total _ _
  have shaped {number : Nat} {pool : Pool α}
      (there : (new sizes : PoolSet α).pools[number]? = some pool) :
      ∃ size count, pool = Pool.new size (min count 65535) := by
    rw [pools] at there
    obtain ⟨⟨size, count⟩, -, same⟩ := List.mem_map.mp (List.mem_of_getElem? there)
    exact ⟨size, count, same.symm⟩
  refine ⟨⟨(ordered.take 255).mapIdx Ledger.newClass, ∅⟩, ⟨rfl, ordered, List.mergeSort_perm _ _,
    sorted, rfl⟩, sound_new sizes, ?_, fun number => ?_, fun number pool there index slot found _ => ?_,
    fun handle _ => ?_, fun handle entry impossible => ?_, fun number pool there => ?_⟩
  · rw [pools]
    exact List.pairwise_map.mpr (sorted.sublist (List.take_sublist _ _))
  · rw [pools, List.getElem?_mapIdx, List.getElem?_map]
    cases (ordered.take 255)[number]? with
    | none => rfl
    | some shape => exact congrArg some (asClass_new number shape).symm
  · obtain ⟨size, count, rfl⟩ := shaped there
    rw [Pool.new, Array.getElem?_replicate] at found
    split at found
    · next inside =>
        exact List.mem_map.mpr ⟨index.toNat, List.mem_range.mpr inside, UInt16.ofNat_toNat⟩
    · cases found
  · refine Option.eq_none_iff_forall_ne_some.mpr fun content found => ?_
    have member := mem_contents found
    rw [contents_new] at member
    cases member
  · rw [Finmap.lookup_empty] at impossible
    cases impossible
  · obtain ⟨size, count, rfl⟩ := shaped there
    simp [Pool.new, Ledger.used]

/-! ## What the pools tell -/

/-- All that can be seen of the pools is what the books say. -/
structure Mirrors (set : PoolSet α) (ledger : Ledger α) : Prop where
  get? : ∀ handle, set.get? handle = (ledger.entries.lookup handle).map (·.content)
  tag? : ∀ handle, set.tag? handle = (ledger.entries.lookup handle).map (·.tag)
  isStatic : ∀ handle, set.isStatic handle = (ledger.entries.lookup handle).any (·.permanent)
  /-- The count is that of the references, for a block that does not stay for ever. -/
  refCount : ∀ handle, (ledger.entries.lookup handle).any (·.permanent) = false →
    set.refCount handle = (ledger.entries.lookup handle).elim 0 (·.references)
  blockSize? : ∀ handle entry, ledger.entries.lookup handle = some entry →
    set.blockSize? handle = some entry.size
  /-- Free are exactly the blocks without references, which hold nothing, and each is listed once. -/
  free : ∀ pool ∈ set.pools, pool.free.Nodup ∧ ∀ index, index ∈ pool.free ↔
    ∃ slot, pool.slots[index.toNat]? = some slot ∧ slot.refs = 0 ∧ slot.content = none
  /-- The blocks of a class that can be had are those that are free in its pool. -/
  classes : ∀ number : Nat, ledger.classes[number]? = set.pools[number]?.map (·.asClass number)
  /-- The handles of two used blocks are handles of different places. -/
  apart : ∀ one ∈ ledger.entries, ∀ two ∈ ledger.entries, Coincide one two → one = two
  used : ∀ (number : Nat) pool, set.pools[number]? = some pool → pool.used = ledger.used number
  usedAll : set.used = ledger.entries.keys.card

theorem sumOver_eq_sum {β : Type} (measure : β → Nat) (items : List β) :
    sumOver measure items =
      ∑ number ∈ Finset.range items.length, (items[number]?.elim 0 measure) := by
  induction items with
  | nil => rfl
  | cons first rest ih =>
      rw [sumOver_cons, List.length_cons, Finset.sum_range_succ', ih, Nat.add_comm]
      rfl

/-- Tracked pools mirror the ledger. -/
theorem Tracked.mirrors (tracked : set.Tracked ledger) : set.Mirrors ledger := by
  have shown := tracked.shown
  -- What there is at the place of a handle without an entry: nothing, or a free block.
  have vacant {handle : Handle} {slot : Slot α} (none : ledger.entries.lookup handle = none)
      (found : set.slot? handle = some slot) : slot.content = Option.none ∧ slot.refs = 0 := by
    have empty := tracked.unlisted handle none
    rw [get?_of_slot? found] at empty
    obtain ⟨pool, poolFound, slotFound⟩ := slot?_eq_some found
    exact ⟨empty, ((tracked.sound.pools _ pool poolFound).slots _ slot slotFound).mpr empty⟩
  have used : ∀ (number : Nat) pool, set.pools[number]? = some pool →
      pool.used = ledger.used number := by
    intro number pool there
    have balanced := tracked.balanced number pool there
    rw [Pool.used]
    omega
  refine ⟨fun handle => ?_, fun handle => ?_, fun handle => ?_, fun handle passing => ?_,
    fun handle entry listed => (shown handle entry listed).1, fun pool member => ?_, tracked.classes,
    fun one oneThere two twoThere same => ?_, used, ?_⟩
  · cases listed : ledger.entries.lookup handle with
    | none => exact tracked.unlisted handle listed
    | some entry =>
        obtain ⟨-, slot, found, shows⟩ := shown handle entry listed
        rw [get?_of_slot? found, shows.content, Option.map_some]
  · rw [tag?]
    cases listed : ledger.entries.lookup handle with
    | none =>
        cases found : set.slot? handle with
        | none => rfl
        | some slot => simp [vacant listed found]
    | some entry =>
        obtain ⟨-, slot, found, shows⟩ := shown handle entry listed
        simp [found, shows.content, shows.tag]
  · rw [PoolSet.isStatic]
    cases listed : ledger.entries.lookup handle with
    | none =>
        cases found : set.slot? handle with
        | none => rfl
        | some slot => simp [Slot.isStatic, vacant listed found]
    | some entry =>
        obtain ⟨-, slot, found, shows⟩ := shown handle entry listed
        simp [found, shows.isStatic]
  · rw [PoolSet.refCount]
    cases listed : ledger.entries.lookup handle with
    | none =>
        cases found : set.slot? handle with
        | none => rfl
        | some slot => simp [vacant listed found]
    | some entry =>
        obtain ⟨-, slot, found, shows⟩ := shown handle entry listed
        rw [listed, Option.any_some] at passing
        have counted := shows.counted
        rw [passing, if_neg Bool.false_ne_true] at counted
        rw [found]
        change slot.refs.toNat / 2 = entry.references
        omega
  · obtain ⟨number, there⟩ := List.getElem?_of_mem member
    have sound := tracked.sound.pools number pool there
    refine ⟨sound.distinct, fun index => ⟨fun free => ?_, fun listed => ?_⟩⟩
    · obtain ⟨slot, found, empty⟩ := sound.vacant index free
      exact ⟨slot, found, (sound.slots _ slot found).mpr empty, empty⟩
    · obtain ⟨slot, found, -, empty⟩ := listed
      exact tracked.complete number pool there index slot found empty
  · obtain ⟨entry, listed⟩ := Finmap.mem_iff.mp oneThere
    obtain ⟨entry', listed'⟩ := Finmap.mem_iff.mp twoThere
    obtain ⟨-, slot, found, shows⟩ := shown one entry listed
    obtain ⟨-, slot', found', shows'⟩ := shown two entry' listed'
    by_contra apart
    exact not_coincide ((get?_of_slot? found).trans shows.content)
      ((get?_of_slot? found').trans shows'.content) apart same
  · -- Every used block belongs to one of the pools.
    have inside : ∀ handle ∈ ledger.entries.keys,
        handle.pool.toNat ∈ Finset.range set.pools.length := by
      intro handle member
      obtain ⟨entry, listed⟩ := Finmap.mem_iff.mp (Finmap.mem_keys.mp member)
      obtain ⟨-, slot, found, -⟩ := shown handle entry listed
      obtain ⟨pool, there, -⟩ := slot?_eq_some found
      exact Finset.mem_range.mpr (List.getElem?_eq_some_iff.mp there).1
    rw [PoolSet.used, sumOver_eq_sum, Finset.card_eq_sum_card_fiberwise inside]
    refine Finset.sum_congr rfl fun number member => ?_
    have there := List.getElem?_eq_getElem (Finset.mem_range.mp member)
    rw [there]
    exact used number _ there

/-- Operations are proper in two parts. -/
theorem proper_append {operations more : List (Operation α)} :
    set.Proper (operations ++ more) ↔
      set.Proper operations ∧ (set.run operations).Proper more := by
  induction operations generalizing set with
  | nil => exact (and_iff_right trivial).symm
  | cons operation rest ih => exact (and_congr_right fun _ => ih).trans and_assoc.symm

/-- The pools answer every sequence of operations through the handles of used blocks as the books do,
show what the books say, and keep a block that stays for ever. -/
theorem keeps_ledger (sizes : List (Nat × Nat)) (operations : List (Operation α))
    (proper : (new sizes).Proper operations) :
    (∃ start ledger, Ledger.Opens sizes start ∧
      Ledger.Run start operations ((new sizes).answers operations) ledger ∧
      ((new sizes).run operations).Mirrors ledger) ∧
    ∀ before after, operations = before ++ after → ∀ handle,
      ((new sizes).run before).isStatic handle = true →
        ((new sizes).run operations).isStatic handle = true ∧
          (((new sizes).run operations).get? handle).isSome = true := by
  obtain ⟨start, opens, tracked⟩ := tracked_new (α := α) sizes
  refine ⟨?_, ?_⟩
  · obtain ⟨ledger, run, tracked⟩ := tracked.run proper
    exact ⟨start, ledger, opens, run, tracked.mirrors⟩
  · rintro before after rfl handle static
    obtain ⟨one, two⟩ := proper_append.mp proper
    obtain ⟨middle, -, tracked⟩ := tracked.run one
    obtain ⟨ledger, run, tracked'⟩ := tracked.run two
    rw [tracked.mirrors.isStatic] at static
    have permanent := run.permanent static
    rw [run_append, tracked'.mirrors.isStatic, tracked'.mirrors.get?]
    refine ⟨permanent, ?_⟩
    cases listed : ledger.entries.lookup handle with
    | none =>
        rw [listed] at permanent
        cases permanent
    | some entry => rfl

/-- Blocks of two sizes; one is given back and taken again, and then stays for ever. -/
def recycling : List (Operation Nat) :=
  [.alloc 3 1 7, .retain ⟨0, 0, 0⟩, .release ⟨0, 0, 0⟩, .release ⟨0, 0, 0⟩, .alloc 4 2 8,
    .makeStatic ⟨0, 1, 0⟩, .release ⟨0, 1, 0⟩, .alloc 4 3 9, .alloc 9 4 10]

theorem keeps_ledger_recycling :
    (new [(8, 1), (4, 1)]).Proper recycling ∧
      ∃ start ledger, Ledger.Opens [(8, 1), (4, 1)] start ∧
        Ledger.Run start recycling
          [.taken ⟨0, 0, 0⟩, .done, .released none, .released (some 7), .taken ⟨0, 1, 0⟩, .done,
            .released none, .taken ⟨1, 0, 0⟩, .rejected 10]
          ledger ∧
        ((new [(8, 1), (4, 1)]).run recycling).Mirrors ledger := by
  have fresh : (new [(8, 1), (4, 1)] : PoolSet Nat) = ⟨[Pool.new 4 1, Pool.new 8 1]⟩ := by cbv
  have proper : (new [(8, 1), (4, 1)]).Proper recycling := by
    rw [fresh]
    simp only [Proper, recycling, Operation.handle?]
    decide
  have kept := (keeps_ledger [(8, 1), (4, 1)] recycling proper).1
  exact ⟨proper, by rwa [fresh] at kept ⊢⟩

end PoolSet

end PocketScript
