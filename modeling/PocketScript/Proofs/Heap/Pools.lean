import PocketScript.Pool

/-!
# What is in the pools

Seen from outside, the pools hold contents under handles, each with a count. Taking a block adds a
content under a new handle (`PoolSet.taken_of_alloc`), giving up the last reference to a block takes
its content away (`PoolSet.emptied_of_release`), and whatever else is done to a block leaves all the
others alone (`PoolSet.changed_updateSlot`).
-/

namespace PocketScript

variable {α : Type}

/-- A block holds something as long as it is counted. -/
def Slot.Sound (slot : Slot α) : Prop := slot.refs = 0 ↔ slot.content = none

/-- Every block can be referred to, and every free one is listed once and holds nothing. -/
structure Pool.Sound (pool : Pool α) : Prop where
  small : pool.slots.size ≤ 65536
  slots : ∀ (index : Nat) slot, pool.slots[index]? = some slot → slot.Sound
  distinct : pool.free.Nodup
  vacant : ∀ index ∈ pool.free, ∃ slot, pool.slots[index.toNat]? = some slot ∧ slot.content = none

/-- What the blocks of a pool hold. -/
def Pool.contents (pool : Pool α) : List α := pool.slots.toList.filterMap (·.content)

namespace PoolSet

variable {set after : PoolSet α} {handle : Handle} {slot : Slot α}

structure Sound (set : PoolSet α) : Prop where
  few : set.pools.length ≤ 256
  pools : ∀ (number : Nat) pool, set.pools[number]? = some pool → pool.Sound

/-- What all blocks hold. -/
def contents (set : PoolSet α) : List α := set.pools.flatMap Pool.contents

/-- The count of a block, with the mark of one that stays for ever; zero for a block that is gone. -/
def counter (set : PoolSet α) (handle : Handle) : UInt16 :=
  ((set.slot? handle).map (·.refs)).getD 0

/-! ## Changing one block -/

theorem slot?_eq (set : PoolSet α) (handle : Handle) :
    set.slot? handle =
      (set.pools[handle.pool.toNat]?.bind (·.slots[handle.index.toNat]?)).bind fun slot =>
        if slot.generation = handle.generation then some slot else none := by
  simp only [slot?, Option.bind_eq_bind, Option.bind_assoc]

theorem generation_of_slot? (found : set.slot? handle = some slot) :
    slot.generation = handle.generation := by
  rw [slot?_eq, Option.bind_eq_some_iff] at found
  obtain ⟨other, -, same⟩ := found
  split at same
  · injection same with same
    subst same
    assumption
  · cases same

/-- The places of two handles are the same. -/
abbrev Coincide (one two : Handle) : Prop := one.pool = two.pool ∧ one.index = two.index

theorem eq_of_coincide {one two : Handle} (same : Coincide one two)
    (generation : one.generation = two.generation) : one = two := by
  obtain ⟨pool, index⟩ := same
  cases one
  cases two
  simp_all only

/-- What there is at the places of handles after a change at one place. -/
theorem slot?_updatePool (found : set.slot? handle = some slot) {change : Pool α → Pool α}
    {inner : Slot α → Slot α}
    (same : ∀ pool, (change pool).slots = pool.slots.modify handle.index.toNat inner)
    (other : Handle) :
    (set.updatePool handle change).slot? other =
      if Coincide handle other then
        if (inner slot).generation = other.generation then some (inner slot) else none
      else set.slot? other := by
  obtain ⟨pool, poolFound, slotFound⟩ := slot?_eq_some found
  rw [slot?_eq, updatePool, List.getElem?_modify]
  by_cases coincide : Coincide handle other
  · rw [if_pos coincide, ← coincide.1, ← coincide.2, poolFound]
    simp [same, slotFound, Array.getElem?_modify]
  · rw [if_neg coincide, slot?_eq]
    by_cases samePool : handle.pool = other.pool
    · have apart : handle.index.toNat ≠ other.index.toNat :=
        fun equal => coincide ⟨samePool, UInt16.toNat_inj.mp equal⟩
      rw [← samePool, poolFound]
      simp [same, Array.getElem?_modify, apart]
    · have apart : handle.pool.toNat ≠ other.pool.toNat :=
        fun equal => samePool (UInt8.toNat_inj.mp equal)
      simp [apart]

/-- At a place there is but one generation. -/
theorem slot?_of_coincide (found : set.slot? handle = some slot) {other : Handle}
    (coincide : Coincide handle other) :
    set.slot? other = if slot.generation = other.generation then some slot else none := by
  obtain ⟨pool, poolFound, slotFound⟩ := slot?_eq_some found
  rw [slot?_eq, ← coincide.1, ← coincide.2, poolFound]
  simp [slotFound]

/-- A change at one place replaces what that block holds. -/
theorem contents_updatePool (found : set.slot? handle = some slot) {change : Pool α → Pool α}
    {inner : Slot α → Slot α}
    (same : ∀ pool, (change pool).slots = pool.slots.modify handle.index.toNat inner) :
    ∃ rest, set.contents.Perm (slot.content.toList ++ rest) ∧
      (set.updatePool handle change).contents.Perm ((inner slot).content.toList ++ rest) := by
  obtain ⟨pool, poolFound, slotFound⟩ := slot?_eq_some found
  obtain ⟨poolInside, poolThere⟩ := List.getElem?_eq_some_iff.mp poolFound
  obtain ⟨slotInside, slotThere⟩ := Array.getElem?_eq_some_iff.mp slotFound
  obtain ⟨pools, pool', behind, split, length, changed⟩ := List.exists_of_modify change poolInside
  have samePool : pool' = pool := by
    rw [← poolThere]
    simp only [split]
    rw [List.getElem_append_right (Nat.le_of_eq length)]
    simp [length]
  subst samePool
  obtain ⟨slots, slot', rest, splitSlots, lengthSlots, changedSlots⟩ :=
    @List.exists_of_modify _ inner _ pool'.slots.toList (by simpa using slotInside)
  have sameSlot : slot' = slot := by
    rw [← slotThere, ← Array.getElem_toList]
    simp only [splitSlots]
    rw [List.getElem_append_right (Nat.le_of_eq lengthSlots)]
    simp [lengthSlots]
  subst sameSlot
  refine ⟨(pools.flatMap Pool.contents ++ slots.filterMap (·.content)) ++
    (rest.filterMap (·.content) ++ behind.flatMap Pool.contents), ?_, ?_⟩
  · simp only [contents, split, List.flatMap_append, List.flatMap_cons, Pool.contents, splitSlots,
      List.filterMap_append, List.filterMap_cons]
    cases slot'.content with
    | none => simp
    | some content =>
        simp only [Option.toList_some, List.append_assoc, List.cons_append, List.nil_append]
        rw [← List.append_assoc, ← List.append_assoc]
        exact List.perm_middle
  · simp only [contents, updatePool, changed, List.flatMap_append, List.flatMap_cons, Pool.contents,
      same, Array.toList_modify, changedSlots, List.filterMap_append, List.filterMap_cons]
    cases (inner slot').content with
    | none => simp
    | some content =>
        simp only [Option.toList_some, List.append_assoc, List.cons_append, List.nil_append]
        rw [← List.append_assoc, ← List.append_assoc]
        exact List.perm_middle

/-- A release takes out what it hands out, and nothing else. -/
theorem contents_release (set : PoolSet α) (handle : Handle) :
    set.contents.Perm ((set.release handle).1.toList ++ (set.release handle).2.contents) := by
  rw [release]
  cases found : set.slot? handle with
  | none => exact .refl _
  | some slot =>
      dsimp only
      split
      · exact .refl _
      · split
        · have same : ∀ pool : Pool α, (pool.vacate handle.index).slots =
            pool.slots.modify handle.index.toNat Slot.vacate := fun _ => rfl
          obtain ⟨rest, before, behind⟩ := contents_updatePool found same
          exact before.trans (behind.symm.append_left _)
        · rw [updateSlot, found]
          have same : ∀ pool : Pool α, (pool.update handle.index.toNat fun slot =>
            { slot with refs := slot.refs - refStep }).slots = pool.slots.modify handle.index.toNat
              fun slot => { slot with refs := slot.refs - refStep } := fun _ => rfl
          obtain ⟨rest, before, behind⟩ := contents_updatePool found same
          exact before.trans behind.symm

/-- All blocks but one are as before. -/
structure SameBut (handle : Handle) (set after : PoolSet α) : Prop where
  get? : ∀ other, other ≠ handle → after.get? other = set.get? other
  counter : ∀ other, other ≠ handle → after.counter other = set.counter other

/-- A change at one place leaves all other blocks, when it keeps the generation or leaves the place
empty. -/
theorem sameBut_updatePool (found : set.slot? handle = some slot) {change : Pool α → Pool α}
    {inner : Slot α → Slot α}
    (same : ∀ pool, (change pool).slots = pool.slots.modify handle.index.toNat inner)
    (quiet : (inner slot).generation = slot.generation ∨
      (inner slot).content = none ∧ (inner slot).refs = 0) :
    SameBut handle set (set.updatePool handle change) := by
  have told : ∀ other, other ≠ handle →
      (set.updatePool handle change).get? other = set.get? other ∧
        (set.updatePool handle change).counter other = set.counter other := by
    intro other different
    simp only [get?, counter]
    by_cases coincide : Coincide handle other
    · have apart : slot.generation ≠ other.generation := by
        rw [generation_of_slot? found]
        exact fun equal => different (eq_of_coincide coincide equal).symm
      rw [slot?_of_coincide found coincide, slot?_updatePool found same, if_pos coincide,
        if_neg apart]
      split
      · rename_i equal
        rcases quiet with kept | ⟨empty, zero⟩
        · exact absurd (kept ▸ equal) apart
        · simp [empty, zero]
      · simp
    · rw [slot?_updatePool found same, if_neg coincide]
      exact ⟨rfl, rfl⟩
  exact ⟨fun other different => (told other different).1,
    fun other different => (told other different).2⟩

/-- Pools stay sound when the changed block is sound and the free blocks are listed as before. -/
theorem Sound.updatePool (sound : set.Sound) (found : set.slot? handle = some slot)
    {change : Pool α → Pool α} {inner : Slot α → Slot α}
    (same : ∀ pool, (change pool).slots = pool.slots.modify handle.index.toNat inner)
    (fine : (inner slot).Sound)
    (free : ∀ pool, set.pools[handle.pool.toNat]? = some pool → (change pool).free.Nodup ∧
      ∀ index ∈ (change pool).free, index ≠ handle.index ∧ index ∈ pool.free ∨
        index = handle.index ∧ (inner slot).content = none) :
    (set.updatePool handle change).Sound := by
  obtain ⟨pool, poolFound, slotFound⟩ := slot?_eq_some found
  have poolSound := sound.pools _ pool poolFound
  refine ⟨by simpa [PoolSet.updatePool] using sound.few, fun number other there => ?_⟩
  rw [PoolSet.updatePool] at there
  by_cases here : handle.pool.toNat = number
  · subst here
    rw [List.getElem?_modify_eq, poolFound] at there
    injection there with there
    subst there
    obtain ⟨distinct, listed⟩ := free pool poolFound
    refine ⟨?_, fun index slot' there => ?_, distinct, fun index member => ?_⟩
    · rw [same, Array.size_modify]
      exact poolSound.small
    · rw [same, Array.getElem?_modify] at there
      split at there
      · rename_i equal
        rw [← equal, slotFound] at there
        injection there with there
        exact there ▸ fine
      · exact poolSound.slots _ _ there
    · rw [same]
      rcases listed index member with ⟨different, before⟩ | ⟨rfl, empty⟩
      · obtain ⟨slot', there, vacant⟩ := poolSound.vacant index before
        have apart : handle.index.toNat ≠ index.toNat :=
          fun equal => different (UInt16.toNat_inj.mp equal).symm
        exact ⟨slot', by simp [Array.getElem?_modify, apart, there], vacant⟩
      · exact ⟨inner slot, by simp [Array.getElem?_modify, slotFound], empty⟩
  · rw [List.getElem?_modify_ne _ _ here] at there
    exact sound.pools number other there

/-! ## Counts -/

theorem isStatic_slot_iff (slot : Slot α) : slot.isStatic = true ↔ slot.refs.toNat % 2 = 1 := by
  rw [Slot.isStatic, decide_eq_true_eq, ne_eq, ← UInt16.toNat_inj, UInt16.toNat_and]
  change ¬ slot.refs.toNat &&& 1 = 0 ↔ _
  rw [Nat.and_one_is_mod]
  omega

theorem lor_one_odd (refs : UInt16) : (refs ||| 1).toNat % 2 = 1 := by
  rw [UInt16.toNat_or, ← Nat.and_one_is_mod]
  change (refs.toNat ||| 1) &&& 1 = 1
  rw [Nat.and_or_distrib_right, Nat.and_one_is_mod]
  rcases Nat.mod_two_eq_zero_or_one refs.toNat with even | odd
  · rw [even]
    rfl
  · rw [odd]
    rfl

theorem refCount_eq (set : PoolSet α) (handle : Handle) :
    set.refCount handle = (set.counter handle).toNat / 2 := by
  unfold refCount counter
  cases set.slot? handle with
  | none => simp
  | some slot => rfl

/-- A static block has an odd counter. -/
theorem isStatic_eq_true_iff (set : PoolSet α) (handle : Handle) :
    set.isStatic handle = true ↔ (set.counter handle).toNat % 2 = 1 := by
  unfold isStatic counter
  cases set.slot? handle with
  | none => simp
  | some slot => exact isStatic_slot_iff slot

/-- And any other block an even one. -/
theorem isStatic_eq_false_iff (set : PoolSet α) (handle : Handle) :
    set.isStatic handle = false ↔ (set.counter handle).toNat % 2 = 0 := by
  rw [← Bool.not_eq_true, isStatic_eq_true_iff]
  omega

/-- A block that holds something is counted. -/
theorem slot?_of_get? (sound : set.Sound) {content : α} (found : set.get? handle = some content) :
    ∃ slot, set.slot? handle = some slot ∧ slot.content = some content ∧ slot.refs ≠ 0 := by
  obtain ⟨slot, there, held⟩ := Option.bind_eq_some_iff.mp found
  obtain ⟨pool, poolFound, slotFound⟩ := slot?_eq_some there
  have fine := (sound.pools _ pool poolFound).slots _ slot slotFound
  refine ⟨slot, there, held, fun zero => ?_⟩
  rw [fine.mp zero] at held
  cases held

/-- A block that holds something and may be freed has a reference. -/
theorem refCount_pos (sound : set.Sound) {content : α} (found : set.get? handle = some content)
    (counted : set.isStatic handle = false) : 0 < set.refCount handle := by
  obtain ⟨slot, there, -, used⟩ := slot?_of_get? sound found
  have positive : slot.refs.toNat ≠ 0 := fun zero => used (UInt16.toNat_inj.mp zero)
  rw [isStatic_eq_false_iff] at counted
  rw [refCount_eq]
  simp only [counter, there, Option.map_some, Option.getD_some] at *
  omega

/-- Of the blocks that hold something, the free ones are none. -/
theorem not_mem_free (sound : set.Sound) (found : set.slot? handle = some slot)
    (holds : slot.content ≠ none) {pool : Pool α}
    (there : set.pools[handle.pool.toNat]? = some pool) : handle.index ∉ pool.free := by
  intro member
  obtain ⟨pool', poolFound, slotFound⟩ := slot?_eq_some found
  rw [there] at poolFound
  injection poolFound with same
  subst same
  obtain ⟨slot', slotFound', vacant⟩ := (sound.pools _ pool there).vacant _ member
  rw [slotFound] at slotFound'
  injection slotFound' with same
  subst same
  exact holds vacant

theorem get?_of_slot? (found : set.slot? handle = some slot) : set.get? handle = slot.content := by
  rw [get?, found]
  rfl

theorem counter_of_slot? (found : set.slot? handle = some slot) :
    set.counter handle = slot.refs := by
  rw [counter, found]
  rfl

/-- What a block holds is among what all blocks hold. -/
theorem mem_contents {content : α} (found : set.get? handle = some content) :
    content ∈ set.contents := by
  obtain ⟨slot, there, held⟩ := Option.bind_eq_some_iff.mp found
  obtain ⟨pool, poolFound, slotFound⟩ := slot?_eq_some there
  refine List.mem_flatMap.mpr ⟨pool, List.mem_of_getElem? poolFound, ?_⟩
  exact List.mem_filterMap.mpr ⟨slot, (Array.mem_of_getElem? slotFound).val, held⟩

/-- There is a handle for every block that holds something. -/
theorem exists_get? (sound : set.Sound) {content : α} (member : content ∈ set.contents) :
    ∃ handle, set.get? handle = some content := by
  obtain ⟨pool, poolMember, inside⟩ := List.mem_flatMap.mp member
  obtain ⟨slot, slotMember, held⟩ := List.mem_filterMap.mp inside
  obtain ⟨number, numberInside, poolFound⟩ := List.getElem_of_mem poolMember
  obtain ⟨index, indexInside, slotFound⟩ := List.getElem_of_mem slotMember
  have there : set.pools[number]? = some pool := List.getElem?_eq_some_iff.mpr ⟨_, poolFound⟩
  have few : number < UInt8.size := Nat.lt_of_lt_of_le numberInside sound.few
  have small : index < UInt16.size :=
    Nat.lt_of_lt_of_le (by simpa using indexInside) (sound.pools number pool there).small
  have here : pool.slots[index]? = some slot := by
    rw [← Array.getElem?_toList]
    exact List.getElem?_eq_some_iff.mpr ⟨indexInside, slotFound⟩
  refine ⟨⟨UInt8.ofNat number, slot.generation, UInt16.ofNat index⟩, ?_⟩
  rw [get?, slot?_eq, UInt8.toNat_ofNat_of_lt' few, UInt16.toNat_ofNat_of_lt' small, there,
    Option.bind_some, here, Option.bind_some, if_pos rfl, Option.bind_some, held]

/-- A block that is changed keeps its generation. -/
theorem slot?_updateSlot (found : set.slot? handle = some slot) {change : Slot α → Slot α}
    (kept : (change slot).generation = slot.generation) :
    (set.updateSlot handle change).slot? handle = some (change slot) := by
  rw [updateSlot, found]
  simp only
  have same : ∀ pool : Pool α, (pool.update handle.index.toNat change).slots =
    pool.slots.modify handle.index.toNat change := fun _ => rfl
  rw [slot?_updatePool found same, if_pos ⟨rfl, rfl⟩, kept, generation_of_slot? found, if_pos rfl]

/-- What changes when a used block is changed and stays used. -/
structure Changed (handle : Handle) (old new : Slot α) (set after : PoolSet α) : Prop where
  sound : after.Sound
  others : SameBut handle set after
  get? : after.get? handle = new.content
  counter : after.counter handle = new.refs
  contents : ∃ rest, set.contents.Perm (old.content.toList ++ rest) ∧
    after.contents.Perm (new.content.toList ++ rest)

/-- A slot that is changed in itself is all that is changed. -/
theorem changed_updateSlot (change : Slot α → Slot α) (sound : set.Sound)
    (found : set.slot? handle = some slot) (holds : slot.content ≠ none)
    (kept : (change slot).generation = slot.generation) (fine : (change slot).Sound) :
    Changed handle slot (change slot) set (set.updateSlot handle change) := by
  have same : ∀ pool : Pool α, (pool.update handle.index.toNat change).slots =
    pool.slots.modify handle.index.toNat change := fun _ => rfl
  have there := slot?_updateSlot found kept
  refine ⟨?_, ?_, get?_of_slot? there, counter_of_slot? there, ?_⟩
  · rw [updateSlot, found]
    refine sound.updatePool found same fine fun pool poolFound => ?_
    have apart := not_mem_free sound found holds poolFound
    exact ⟨(sound.pools _ pool poolFound).distinct, fun index member =>
      .inl ⟨fun equal => apart (equal ▸ member), member⟩⟩
  · rw [updateSlot, found]
    exact sameBut_updatePool found same (.inl kept)
  · rw [updateSlot, found]
    exact contents_updatePool found same

/-- The blocks hold what they held; only the count of one may differ. -/
structure Recounted (handle : Handle) (set after : PoolSet α) : Prop where
  sound : after.Sound
  get? : ∀ other, after.get? other = set.get? other
  counter : ∀ other, other ≠ handle → after.counter other = set.counter other
  contents : after.contents.Perm set.contents

/-- Nothing has to be counted. -/
theorem Recounted.refl (sound : set.Sound) (handle : Handle) : Recounted handle set set :=
  ⟨sound, fun _ => rfl, fun _ _ => rfl, .refl _⟩

theorem Changed.recounted {new : Slot α} (changed : Changed handle slot new set after)
    (found : set.slot? handle = some slot) (same : new.content = slot.content) :
    Recounted handle set after := by
  refine ⟨changed.sound, fun other => ?_, changed.others.counter, ?_⟩
  · by_cases here : other = handle
    · rw [here, changed.get?, same, get?_of_slot? found]
    · exact changed.others.get? other here
  · obtain ⟨rest, before, behind⟩ := changed.contents
    rw [same] at behind
    exact behind.trans before.symm

/-- A block that is kept gets one reference more, unless it stays for ever. -/
theorem retain_cases (sound : set.Sound) {content : α} (found : set.get? handle = some content) :
    Recounted handle set (set.retain handle) ∧
      ((set.retain handle).isStatic handle = false →
        set.isStatic handle = false ∧
          (set.retain handle).refCount handle = set.refCount handle + 1) := by
  obtain ⟨slot, there, held, counted⟩ := slot?_of_get? sound found
  have content_retain : slot.retain.content = slot.content := by
    unfold Slot.retain
    split
    · rfl
    · split <;> rfl
  have kept : slot.retain.generation = slot.generation := by
    unfold Slot.retain
    split
    · rfl
    · split <;> rfl
  have counter_retain : slot.retain.refs ≠ 0 ∧ (slot.retain.refs.toNat % 2 = 0 →
      slot.refs.toNat % 2 = 0 ∧ slot.retain.refs.toNat = slot.refs.toNat + 2) := by
    have positive : slot.refs.toNat ≠ 0 := fun zero => counted (UInt16.toNat_inj.mp zero)
    rw [ne_eq, ← UInt16.toNat_inj]
    unfold Slot.retain
    split
    · rename_i early
      rcases early with static | zero
      · rw [isStatic_slot_iff] at static
        exact ⟨positive, fun even => by omega⟩
      · exact absurd zero counted
    · rename_i more
      have even : ¬ slot.refs.toNat % 2 = 1 := fun odd =>
        more (.inl ((isStatic_slot_iff slot).mpr odd))
      split
      · rename_i room
        have sum : (slot.refs + refStep).toNat = slot.refs.toNat + 2 := by
          rw [UInt16.toNat_add]
          exact Nat.mod_eq_of_lt room
        rw [sum]
        change ¬ slot.refs.toNat + 2 = 0 ∧ _
        omega
      · have odd := lor_one_odd slot.refs
        change ¬ (slot.refs ||| 1).toNat = 0 ∧ ((slot.refs ||| 1).toNat % 2 = 0 → _)
        omega
  have changed := changed_updateSlot Slot.retain sound there (by simp [held]) kept (by
    rw [Slot.Sound, content_retain, held]
    simp [counter_retain.1])
  refine ⟨changed.recounted there content_retain, fun even => ?_⟩
  rw [isStatic_eq_false_iff, refCount_eq, refCount_eq, counter_of_slot? there] at *
  rw [retain, changed.counter] at even ⊢
  have := counter_retain.2 even
  omega

/-- The blocks after one has been given back: it is gone with what it held. -/
structure Emptied (handle : Handle) (content : α) (set after : PoolSet α) : Prop where
  sound : after.Sound
  gone : after.get? handle = none
  others : SameBut handle set after
  contents : set.contents.Perm (content :: after.contents)

/-- A reference that is given up was one of several, or the last one; on a block that stays for ever
it has no effect. -/
theorem release_cases (sound : set.Sound) {content : α} (found : set.get? handle = some content) :
    (set.isStatic handle = true ∧ set.release handle = (none, set)) ∨
    (set.isStatic handle = false ∧ set.refCount handle = 1 ∧
      ∃ after, set.release handle = (some content, after) ∧ Emptied handle content set after) ∨
    (set.isStatic handle = false ∧ ∃ after, set.release handle = (none, after) ∧
      Recounted handle set after ∧ after.isStatic handle = false ∧
        after.refCount handle + 1 = set.refCount handle) := by
  obtain ⟨slot, there, held, counted⟩ := slot?_of_get? sound found
  have positive : slot.refs.toNat ≠ 0 := fun zero => counted (UInt16.toNat_inj.mp zero)
  rw [isStatic_eq_false_iff, isStatic_eq_true_iff, refCount_eq, counter_of_slot? there]
  by_cases static : slot.refs.toNat % 2 = 1
  · refine .inl ⟨static, ?_⟩
    rw [release, there]
    simp only
    rw [if_pos (.inl ((isStatic_slot_iff slot).mpr static))]
  · refine .inr ?_
    have high : ¬ (slot.isStatic = true ∨ slot.refs < refStep) := by
      rw [isStatic_slot_iff, UInt16.lt_iff_toNat_lt]
      change ¬ (_ ∨ slot.refs.toNat < 2)
      omega
    by_cases last : slot.refs = refStep
    · refine .inl ⟨by omega, by rw [last]; decide, set.updatePool handle fun pool =>
        pool.vacate handle.index, ?_, ?_⟩
      · rw [release, there]
        simp only
        rw [if_neg high, if_pos last, held]
      have same : ∀ pool : Pool α, (pool.vacate handle.index).slots =
        pool.slots.modify handle.index.toNat Slot.vacate := fun _ => rfl
      refine ⟨?_, ?_, sameBut_updatePool there same (.inr ⟨rfl, rfl⟩), ?_⟩
      · refine sound.updatePool there same ⟨fun _ => rfl, fun _ => rfl⟩ fun pool poolFound => ?_
        have apart := not_mem_free sound there (by simp [held]) poolFound
        refine ⟨List.nodup_cons.mpr ⟨apart, (sound.pools _ pool poolFound).distinct⟩,
          fun index member => ?_⟩
        rcases List.mem_cons.mp member with rfl | member
        · exact .inr ⟨rfl, rfl⟩
        · exact .inl ⟨fun equal => apart (equal ▸ member), member⟩
      · rw [get?, slot?_updatePool there same, if_pos ⟨rfl, rfl⟩]
        split <;> rfl
      · obtain ⟨rest, before, behind⟩ := contents_updatePool there same
        rw [held] at before
        exact before.trans (List.Perm.cons content behind.symm)
    · have two : slot.refs.toNat ≠ 2 := fun equal => last (UInt16.toNat_inj.mp equal)
      have less : (slot.refs - refStep).toNat = slot.refs.toNat - 2 :=
        UInt16.toNat_sub_of_le _ _ (UInt16.le_iff_toNat_le.mpr (by
          change 2 ≤ slot.refs.toNat
          omega))
      have changed := changed_updateSlot (fun slot => { slot with refs := slot.refs - refStep }) sound there (by simp [held]) rfl (by
          rw [Slot.Sound, held, ← UInt16.toNat_inj, less]
          change slot.refs.toNat - 2 = 0 ↔ _
          simp only [reduceCtorEq, iff_false]
          omega)
      refine .inr ⟨by omega, _, ?_, changed.recounted there rfl, ?_, ?_⟩
      · rw [release, there]
        simp only
        rw [if_neg high, if_neg last]
      · rw [isStatic_eq_false_iff, changed.counter, less]
        omega
      · rw [refCount_eq, changed.counter, less]
        omega

/-- The blocks after one has been taken. -/
structure Taken (handle : Handle) (content : α) (set after : PoolSet α) : Prop where
  sound : after.Sound
  fresh : set.get? handle = none
  get? : after.get? handle = some content
  isStatic : after.isStatic handle = false
  refCount : after.refCount handle = 1
  others : SameBut handle set after
  contents : after.contents.Perm (content :: set.contents)

/-- A block is taken from the first pool that fits and has one, and there is none when there is no
such pool. -/
theorem allocIn_cases (size : Nat) (tag : UInt16) (content : α) (number : Nat)
    (pools : List (Pool α)) :
    (∀ pool ∈ pools, pool.fitting size = []) ∧
        allocIn size tag content number pools = (none, pools) ∨
      ∃ place pool index free, pools[place]? = some pool ∧ pool.fitting size = index :: free ∧
        (∀ earlier < place, ∀ other, pools[earlier]? = some other → other.fitting size = []) ∧
        allocIn size tag content number pools =
          (some ⟨UInt8.ofNat (number + place), pool.generation index, index⟩,
            pools.modify place (·.occupy index free tag content)) := by
  induction pools generalizing number with
  | nil => exact .inl ⟨fun _ member => absurd member List.not_mem_nil, rfl⟩
  | cons pool rest ih =>
      rw [allocIn]
      cases fitting : pool.fitting size with
      | cons index free =>
          exact .inr ⟨0, pool, index, free, rfl, fitting,
            fun _ impossible => absurd impossible (Nat.not_lt_zero _), rfl⟩
      | nil =>
          simp only
          rcases ih (number + 1) with ⟨full, none⟩ |
            ⟨place, pool', index, free, there, fits, first, taken⟩
          · refine .inl ⟨fun other member => ?_, by rw [none]⟩
            rcases List.mem_cons.mp member with rfl | member
            · exact fitting
            · exact full other member
          · refine .inr ⟨place + 1, pool', index, free, there, fits, fun earlier before other found =>
              ?_, ?_⟩
            · cases earlier with
              | zero =>
                  rw [List.getElem?_cons_zero, Option.some.injEq] at found
                  exact found ▸ fitting
              | succ earlier => exact first earlier (Nat.lt_of_succ_lt_succ before) other found
            · rw [taken, Nat.add_assoc, Nat.add_comm 1 place]
              rfl

/-- A pool from which a block can be taken is large enough, and lists it first. -/
theorem fitting_eq_cons {pool : Pool α} {size : Nat} {index : UInt16} {free : List UInt16}
    (fits : pool.fitting size = index :: free) :
    size ≤ pool.blockSize ∧ pool.free = index :: free := by
  unfold Pool.fitting at fits
  split at fits
  · cases fits
  · exact ⟨Nat.le_of_not_lt ‹_›, fits⟩

/-- Either there is no block, or one is taken that was free. -/
theorem alloc_cases (sound : set.Sound) (size : Nat) (tag : UInt16) (content : α) :
    set.alloc size tag content = (none, set) ∨
      ∃ handle after, set.alloc size tag content = (some handle, after) ∧
        Taken handle content set after := by
  rcases allocIn_cases size tag content 0 set.pools with ⟨-, none⟩ |
    ⟨place, pool, index, free, poolFound, fits, -, taken⟩
  · exact .inl (by rw [alloc, none])
  obtain ⟨-, listed⟩ := fitting_eq_cons fits
  refine .inr ⟨⟨UInt8.ofNat place, pool.generation index, index⟩, _, by
    rw [alloc, taken, Nat.zero_add], ?_⟩
  have inside : place < 256 :=
    Nat.lt_of_lt_of_le (List.getElem?_eq_some_iff.mp poolFound).1 sound.few
  have number : (UInt8.ofNat place).toNat = place := UInt8.toNat_ofNat_of_lt' inside
  have poolSound := sound.pools _ pool poolFound
  obtain ⟨slot, slotFound, vacant⟩ := poolSound.vacant index (listed ▸ List.mem_cons_self)
  have generation : pool.generation index = slot.generation := by
    rw [Pool.generation, slotFound]
    rfl
  generalize same : (⟨UInt8.ofNat place, pool.generation index, index⟩ : Handle) = handle
  have samePool : handle.pool.toNat = place := by rw [← same, number]
  have sameIndex : handle.index = index := by rw [← same]
  have there : set.slot? handle = some slot := by
    rw [slot?_eq, samePool, sameIndex, poolFound, ← same]
    simp [slotFound, generation]
  have shape : ∀ pool : Pool α, (pool.occupy index free tag content).slots =
      pool.slots.modify handle.index.toNat fun slot =>
        { slot with tag, refs := refStep, content := some content } := by
    rw [sameIndex]
    exact fun _ => rfl
  have result : (⟨set.pools.modify place (·.occupy index free tag content)⟩ : PoolSet α) =
      set.updatePool handle (·.occupy index free tag content) := by
    rw [updatePool, samePool]
  have after : (set.updatePool handle (·.occupy index free tag content)).slot? handle =
      some { slot with tag, refs := refStep, content := some content } := by
    rw [slot?_updatePool there shape, if_pos ⟨rfl, rfl⟩]
    exact if_pos (generation_of_slot? there)
  rw [result]
  have distinct := poolSound.distinct
  rw [listed, List.nodup_cons] at distinct
  refine ⟨?_, ?_, get?_of_slot? after, ?_, ?_, sameBut_updatePool there shape (.inl rfl), ?_⟩
  · refine sound.updatePool there shape ⟨fun impossible => ?_, fun impossible => ?_⟩
      fun pool' poolFound' => ?_
    · cases impossible
    · cases impossible
    · rw [samePool, poolFound] at poolFound'
      injection poolFound' with equal
      subst equal
      refine ⟨distinct.2, fun other member => .inl ⟨fun equal => ?_, ?_⟩⟩
      · rw [equal, sameIndex] at member
        exact distinct.1 member
      · rw [listed]
        exact List.mem_cons_of_mem _ member
  · rw [get?_of_slot? there, vacant]
  · rw [isStatic_eq_false_iff, counter_of_slot? after]
    exact (by decide : refStep.toNat % 2 = 0)
  · rw [refCount_eq, counter_of_slot? after]
    exact (by decide : refStep.toNat / 2 = 1)
  · obtain ⟨rest, before, behind⟩ := contents_updatePool there shape
    rw [vacant] at before
    exact behind.trans (List.Perm.cons content before.symm)

/-- The blocks after what one holds has been replaced. -/
structure Replaced (handle : Handle) (old new : α) (set after : PoolSet α) : Prop where
  sound : after.Sound
  get? : after.get? handle = some new
  others : ∀ other, other ≠ handle → after.get? other = set.get? other
  counter : ∀ other, after.counter other = set.counter other
  contents : ∃ rest, set.contents.Perm (old :: rest) ∧ after.contents.Perm (new :: rest)

/-- A content may be replaced. -/
theorem replaced_put (sound : set.Sound) {old : α} (found : set.get? handle = some old) (new : α) :
    Replaced handle old new set (set.put handle new) := by
  obtain ⟨slot, there, held, counted⟩ := slot?_of_get? sound found
  have changed := changed_updateSlot (fun slot : Slot α =>
    if slot.content.isSome then { slot with content := some new } else slot) sound there
    (by simp [held]) (by simp [held]) (by simp [Slot.Sound, held, counted])
  simp only [held, Option.isSome_some, if_true] at changed
  refine ⟨changed.sound, changed.get?, changed.others.get?, fun other => ?_, ?_⟩
  · by_cases here : other = handle
    · rw [here, put, changed.counter, counter_of_slot? there]
    · exact changed.others.counter other here
  · simpa [held, put] using changed.contents

/-- A change that fixes the item changes nothing. -/
theorem modify_of_fixed {β : Type} {items : List β} {index : Nat} {change : β → β}
    (fixed : ∀ item, items[index]? = some item → change item = item) :
    items.modify index change = items := by
  apply List.ext_getElem?
  intro place
  rw [List.getElem?_modify]
  cases found : items[place]? with
  | none => rfl
  | some item =>
      by_cases here : index = place
      · subst here
        simp [fixed item found]
      · simp [here]

/-- Changing nothing about a block changes nothing. -/
theorem updateSlot_of_fixed {change : Slot α → Slot α}
    (fixed : ∀ slot, set.slot? handle = some slot → change slot = slot) :
    set.updateSlot handle change = set := by
  unfold updateSlot
  cases found : set.slot? handle with
  | none => rfl
  | some slot =>
      obtain ⟨pool, poolFound, slotFound⟩ := slot?_eq_some found
      refine congrArg PoolSet.mk (modify_of_fixed fun other there => ?_)
      rw [poolFound, Option.some.injEq] at there
      subst there
      have slots : pool.slots.modify handle.index.toNat change = pool.slots := by
        refine Array.toList_inj.mp ?_
        rw [Array.toList_modify]
        refine modify_of_fixed fun other there => ?_
        rw [Array.getElem?_toList, slotFound, Option.some.injEq] at there
        rw [← there, fixed slot found]
      rw [Pool.update, slots]

/-- A block that holds nothing is not counted. -/
theorem retain_of_get?_none (sound : set.Sound) (gone : set.get? handle = none) :
    set.retain handle = set := by
  refine updateSlot_of_fixed fun slot found => ?_
  obtain ⟨pool, poolFound, slotFound⟩ := slot?_eq_some found
  rw [get?_of_slot? found] at gone
  have free : slot.refs = 0 := ((sound.pools _ pool poolFound).slots _ slot slotFound).mpr gone
  rw [Slot.retain, if_pos (.inr free)]

/-- Nothing is put where nothing is. -/
theorem put_of_get?_none (gone : set.get? handle = none) (content : α) :
    set.put handle content = set := by
  refine updateSlot_of_fixed fun slot found => ?_
  rw [get?_of_slot? found] at gone
  simp only [gone]
  rfl

/-! ## Changes at two places -/

/-- Two used blocks at the same place are the same block. -/
theorem not_coincide {one two : Handle} {first second : α} (here : set.get? one = some first)
    (there : set.get? two = some second) (apart : one ≠ two) : ¬ Coincide one two := by
  intro coincide
  obtain ⟨slot, found, -⟩ := Option.bind_eq_some_iff.mp here
  obtain ⟨other, found', -⟩ := Option.bind_eq_some_iff.mp there
  have same := slot?_of_coincide found coincide
  rw [found'] at same
  split at same
  · rename_i generation
    exact apart (eq_of_coincide coincide ((generation_of_slot? found).symm.trans generation))
  · cases same

/-- Two slots may be changed in either order. -/
theorem modify_comm (slots : Array (Slot α)) (first second : Slot α → Slot α) {one two : Nat}
    (apart : one ≠ two) :
    (slots.modify one first).modify two second = (slots.modify two second).modify one first := by
  apply Array.toList_inj.mp
  simp only [Array.toList_modify]
  exact List.modify_modify_ne _ _ _ apart

/-- Changes of two pools, or of two places in one pool, may be made in any order. -/
theorem updatePool_comm (set : PoolSet α) {one two : Handle} {first second : Pool α → Pool α}
    (comm : ∀ pool, one.pool = two.pool → first (second pool) = second (first pool)) :
    (set.updatePool one first).updatePool two second =
      (set.updatePool two second).updatePool one first := by
  simp only [updatePool]
  by_cases same : one.pool = two.pool
  · rw [same, List.modify_modify_eq, List.modify_modify_eq]
    congr 2
    funext pool
    exact (comm pool same).symm
  · have apart : one.pool.toNat ≠ two.pool.toNat := fun equal => same (UInt8.toNat_inj.mp equal)
    rw [List.modify_modify_ne _ _ _ apart]

/-- Giving up a reference to one block and filling another may be done in any order. -/
theorem put_release_comm (set : PoolSet α) {one two : Handle} (apart : ¬ Coincide one two)
    (content : α) :
    (set.release one).2.put two content = ((set.put two content).release one).2 := by
  have distinct : one.pool = two.pool → one.index.toNat ≠ two.index.toNat := fun same equal =>
    apart ⟨same, UInt16.toNat_inj.mp equal⟩
  have apart' : ¬ Coincide two one := fun same => apart ⟨same.1.symm, same.2.symm⟩
  have shape {handle : Handle} (change : Slot α → Slot α) : ∀ pool : Pool α,
      (pool.update handle.index.toNat change).slots =
        pool.slots.modify handle.index.toNat change := fun _ => rfl
  have shape' : ∀ pool : Pool α, (pool.vacate one.index).slots =
      pool.slots.modify one.index.toNat Slot.vacate := fun _ => rfl
  -- Neither change is seen at the other place.
  have unseen : (set.put two content).slot? one = set.slot? one := by
    unfold put updateSlot
    cases found : set.slot? two with
    | none => rfl
    | some slot => exact (slot?_updatePool found (shape _) one).trans (if_neg apart')
  rw [release, release, unseen]
  cases found : set.slot? one with
  | none => rfl
  | some slot =>
      simp only
      split
      · rfl
      · split
        · have kept : (set.updatePool one fun pool => pool.vacate one.index).slot? two =
              set.slot? two := (slot?_updatePool found shape' two).trans (if_neg apart)
          simp only [put, updateSlot, kept]
          cases there : set.slot? two with
          | none => rfl
          | some other =>
              refine updatePool_comm set fun pool same => ?_
              simp only [Pool.update, Pool.vacate]
              rw [modify_comm _ _ _ (distinct same)]
        · have kept : (set.updateSlot one fun slot =>
              { slot with refs := slot.refs - refStep }).slot? two = set.slot? two := by
            rw [updateSlot, found]
            exact (slot?_updatePool found (shape _) two).trans (if_neg apart)
          simp only [put]
          rw [updateSlot, kept]
          rw [put] at unseen
          rw [updateSlot.eq_def (set.updateSlot two _), unseen, found]
          simp only [updateSlot, found]
          cases there : set.slot? two with
          | none => rfl
          | some other =>
              refine updatePool_comm set fun pool same => ?_
              simp only [Pool.update]
              rw [modify_comm _ _ _ (distinct same)]

/-! ## New pools -/

/-- New pools are sound. -/
theorem sound_new (sizes : List (Nat × Nat)) : (PoolSet.new sizes : PoolSet α).Sound := by
  refine ⟨?_, fun number pool there => ?_⟩
  · simp only [new, List.length_map, List.length_take]
    omega
  · obtain ⟨⟨size, count⟩, -, rfl⟩ := List.mem_map.mp (List.mem_of_getElem? there)
    have bound : min count 65535 < UInt16.size := Nat.lt_succ_of_le (Nat.min_le_right count 65535)
    have faithful {number : Nat} (member : number ∈ List.range (min count 65535)) :
        (UInt16.ofNat number).toNat = number :=
      UInt16.toNat_ofNat_of_lt' (Nat.lt_trans (List.mem_range.mp member) bound)
    refine ⟨?_, fun index slot there => ?_, ?_, fun index member => ?_⟩
    · simp [Pool.new, Nat.le_of_lt bound]
    · simp only [Pool.new, Array.getElem?_replicate] at there
      split at there
      · injection there with there
        subst there
        exact ⟨fun _ => rfl, fun _ => rfl⟩
      · cases there
    · refine List.pairwise_map.mpr (List.Pairwise.imp_of_mem ?_ List.nodup_range)
      intro one two oneInside twoInside different equal
      apply different
      rw [← faithful oneInside, ← faithful twoInside, equal]
    · obtain ⟨number, inside, rfl⟩ := List.mem_map.mp member
      refine ⟨{}, ?_, rfl⟩
      change (Array.replicate _ _)[_]? = _
      rw [faithful inside, Array.getElem?_replicate, if_pos (List.mem_range.mp inside)]

/-- And they are empty. -/
theorem contents_new (sizes : List (Nat × Nat)) : (PoolSet.new sizes : PoolSet α).contents = [] := by
  rw [contents, List.flatMap_eq_nil_iff]
  intro pool member
  obtain ⟨⟨size, count⟩, -, rfl⟩ := List.mem_map.mp member
  rw [Pool.contents, List.filterMap_eq_nil_iff]
  intro slot there
  simp only [Pool.new, Array.toList_replicate] at there
  rw [List.eq_of_mem_replicate there]

end PoolSet

end PocketScript
