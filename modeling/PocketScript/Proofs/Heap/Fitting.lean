import PocketScript.Proofs.Heap.Storing

/-!
# Contents fit their blocks

The pools keep their blocks, whatever is taken and given back (`PoolSet.shape`), and a block is taken
only from a pool whose blocks are large enough. So everything fits the block that holds it, and the
elements of an array or an object fit the block that was taken for them, which belongs to no other
array or object (`Heap.Fitting`). Giving references up cannot change that, and neither can the
operations of the heap.
-/

namespace PocketScript

variable {α : Type}

namespace PoolSet

variable {set middle after : PoolSet α} {handle : Handle}

/-- The block size and the number of blocks of each pool. -/
def shape (set : PoolSet α) : List (Nat × Nat) :=
  set.pools.map fun pool => (pool.blockSize, pool.slots.size)

/-- The blocks of the handle's pool have so many bytes. -/
def Spans (set : PoolSet α) (handle : Handle) (bytes : Nat) : Prop :=
  ∃ size, set.blockSize? handle = some size ∧ bytes ≤ size

theorem blockSize?_eq (set : PoolSet α) (handle : Handle) :
    set.blockSize? handle = set.shape[handle.pool.toNat]?.map (·.1) := by
  rw [blockSize?, shape, List.getElem?_map, Option.map_map]
  rfl

theorem Spans.of_shape {bytes : Nat} (spans : set.Spans handle bytes)
    (same : after.shape = set.shape) : after.Spans handle bytes := by
  obtain ⟨size, known, enough⟩ := spans
  refine ⟨size, ?_, enough⟩
  rw [blockSize?_eq, same, ← blockSize?_eq]
  exact known

theorem shape_updatePool {change : Pool α → Pool α} (size : ∀ pool, (change pool).blockSize = pool.blockSize)
    (count : ∀ pool, (change pool).slots.size = pool.slots.size) :
    (set.updatePool handle change).shape = set.shape := by
  apply List.ext_getElem?
  intro place
  rw [shape, shape, updatePool, List.getElem?_map, List.getElem?_map, List.getElem?_modify]
  split <;> cases set.pools[place]? <;> simp [size, count]

/-- A slot that is changed always keeps it. -/
theorem shape_updateSlot (set : PoolSet α) (handle : Handle) (change : Slot α → Slot α) :
    (set.updateSlot handle change).shape = set.shape := by
  unfold updateSlot
  split
  · rfl
  · exact shape_updatePool (fun _ => rfl) fun _ => Array.size_modify

/-- So a release keeps the shape. -/
theorem shape_release (set : PoolSet α) (handle : Handle) :
    (set.release handle).2.shape = set.shape := by
  unfold release
  split
  · rfl
  · split
    · rfl
    · split
      · exact shape_updatePool (fun _ => rfl) fun _ => Array.size_modify
      · exact shape_updateSlot _ _ _

/-- A block is taken from a pool with blocks that are large enough. -/
theorem alloc_spans (sound : set.Sound) {size : Nat} {tag : UInt16} {content : α}
    (taken : set.alloc size tag content = (some handle, after)) :
    after.shape = set.shape ∧ after.Spans handle size := by
  unfold alloc at taken
  rcases allocIn_cases size tag content 0 set.pools with ⟨-, none⟩ |
    ⟨place, pool, index, free, there, fits, -, got⟩
  · rw [none] at taken
    cases taken
  · rw [got, Nat.zero_add] at taken
    cases taken
    have few : place < UInt8.size :=
      Nat.lt_of_lt_of_le (List.getElem?_eq_some_iff.mp there).1 sound.few
    have number : (UInt8.ofNat place).toNat = place := UInt8.toNat_ofNat_of_lt' few
    have same : (PoolSet.mk (set.pools.modify place (·.occupy index free tag content))).shape =
        set.shape := by
      have kept : (set.updatePool ⟨UInt8.ofNat place, pool.generation index, index⟩
          (·.occupy index free tag content)).shape = set.shape :=
        shape_updatePool (fun _ => rfl) fun _ => Array.size_modify
      rwa [updatePool, number] at kept
    refine ⟨same, Spans.of_shape ⟨pool.blockSize, ?_, (fitting_eq_cons fits).1⟩ same⟩
    change (set.pools[(UInt8.ofNat place).toNat]?).map _ = _
    rw [number, there]
    rfl

/-- The same pools hold what they held, or less. -/
structure Shrinks (set after : PoolSet α) : Prop where
  sound : set.Sound → after.Sound
  shape : after.shape = set.shape
  kept : set.Sound → ∀ handle content, after.get? handle = some content →
    set.get? handle = some content

/-- Nothing has to be given up. -/
theorem Shrinks.refl (set : PoolSet α) : Shrinks set set := ⟨id, rfl, fun _ _ _ => id⟩

/-- Blocks may be given up step by step. -/
theorem Shrinks.trans (one : Shrinks set middle) (two : Shrinks middle after) : Shrinks set after :=
  ⟨two.sound ∘ one.sound, two.shape.trans one.shape, fun sound handle content found =>
    one.kept sound handle content (two.kept (one.sound sound) handle content found)⟩

/-- One more reference gives nothing up. -/
theorem shrinks_retain (set : PoolSet α) (handle : Handle) : Shrinks set (set.retain handle) := by
  have told : set.Sound → (set.retain handle).Sound ∧
      ∀ other, (set.retain handle).get? other = set.get? other := by
    intro sound
    cases found : set.get? handle with
    | none =>
        rw [retain_of_get?_none sound found]
        exact ⟨sound, fun _ => rfl⟩
    | some content => exact ⟨(retain_cases sound found).1.sound, (retain_cases sound found).1.get?⟩
  exact ⟨fun sound => (told sound).1, shape_updateSlot _ _ _,
    fun sound other content found => ((told sound).2 other).symm.trans found⟩

/-- A block that holds nothing cannot be given up. -/
theorem release_of_get?_none (sound : set.Sound) (gone : set.get? handle = none) :
    set.release handle = (none, set) := by
  unfold release
  cases found : set.slot? handle with
  | none => rfl
  | some slot =>
      obtain ⟨pool, poolFound, slotFound⟩ := slot?_eq_some found
      rw [get?_of_slot? found] at gone
      have free : slot.refs = 0 := ((sound.pools _ pool poolFound).slots _ slot slotFound).mpr gone
      simp only
      rw [if_pos (.inr (by rw [free]; decide))]

/-- One reference less may give up a block. -/
theorem shrinks_release (set : PoolSet α) (handle : Handle) :
    Shrinks set (set.release handle).2 := by
  have told : set.Sound → (set.release handle).2.Sound ∧
      ∀ other content, (set.release handle).2.get? other = some content →
        set.get? other = some content := by
    intro sound
    cases found : set.get? handle with
    | none =>
        rw [release_of_get?_none sound found]
        exact ⟨sound, fun _ _ => id⟩
    | some content =>
        obtain ⟨-, kept⟩ | ⟨-, -, after, given, emptied⟩ | ⟨-, after, kept, recounted, -⟩ :=
          release_cases sound found
        · rw [kept]
          exact ⟨sound, fun _ _ => id⟩
        · rw [given]
          refine ⟨emptied.sound, fun other content there => ?_⟩
          by_cases same : other = handle
          · rw [same, emptied.gone] at there
            cases there
          · exact (emptied.others.get? other same).symm.trans there
        · rw [kept]
          exact ⟨recounted.sound, fun other content there => (recounted.get? other).symm.trans there⟩
  exact ⟨fun sound => (told sound).1, shape_release _ _, fun sound => (told sound).2⟩

end PoolSet

/-! ## What fits -/

/-- There is room for so many elements if there is a block for them, and so many there are at most. -/
structure PoolSet.Houses (blocks : PoolSet α) (storage : Option Handle) (count capacity bytes : Nat) :
    Prop where
  count : count ≤ capacity
  own : storage.isSome = true ↔ 0 < capacity
  spans : ∀ room, storage = some room → blocks.Spans room bytes

/-- The elements have room in the block that was taken for them. -/
def Content.Housed (blocks : PoolSet Content) : Content → Prop
  | array items capacity room => blocks.Houses room items.size capacity (arrayStorageSize capacity)
  | object properties capacity room =>
      blocks.Houses room properties.size capacity (objectStorageSize capacity)
  | _ => True

theorem Content.Housed.of_shape {before after : PoolSet Content} {content : Content}
    (housed : content.Housed before) (same : after.shape = before.shape) : content.Housed after := by
  cases content with
  | array items capacity storage =>
      exact ⟨housed.count, housed.own, fun room known => (housed.spans room known).of_shape same⟩
  | object properties capacity storage =>
      exact ⟨housed.count, housed.own, fun room known => (housed.spans room known).of_shape same⟩
  | _ => trivial

namespace Heap

variable {rules : Rules} {heap middle after : Heap} {block : Handle} {content : Content}
  {outside : List Reference} {value : Value} {storage : Option Handle}

/-- Everything fits its block, and elements that have a block of their own fit that. -/
structure Fitting (heap : Heap) : Prop where
  sized : ∀ block content, heap.get? block = some content → heap.blocks.Spans block content.size
  housed : ∀ block content, heap.get? block = some content → content.Housed heap.blocks
  apart : ∀ one two first second room, heap.get? one = some first → heap.get? two = some second →
    first.storage? = some room → second.storage? = some room → one = two

/-- No elements are in the block. -/
def Spare (heap : Heap) (storage : Option Handle) : Prop :=
  ∀ room, storage = some room → ∀ block content, heap.get? block = some content →
    content.storage? ≠ some room

theorem spare_none (heap : Heap) : heap.Spare none := fun _ impossible => by cases impossible

/-- What is left of a fitting heap fits. -/
theorem Fitting.shrunk (fitting : heap.Fitting) (sound : heap.blocks.Sound)
    (shrinks : PoolSet.Shrinks heap.blocks after.blocks) : after.Fitting where
  sized block content found :=
    (fitting.sized block content (shrinks.kept sound _ _ found)).of_shape shrinks.shape
  housed block content found :=
    (fitting.housed block content (shrinks.kept sound _ _ found)).of_shape shrinks.shape
  apart one two first second room here there :=
    fitting.apart one two first second room (shrinks.kept sound _ _ here) (shrinks.kept sound _ _ there)

theorem Spare.shrunk (spare : heap.Spare storage) (sound : heap.blocks.Sound)
    (shrinks : PoolSet.Shrinks heap.blocks after.blocks) : after.Spare storage :=
  fun room known block content found => spare room known block content (shrinks.kept sound _ _ found)

/-! ## Giving references up -/

theorem shrinks_releaseStorage (blocks : PoolSet Content) (content : Content) :
    PoolSet.Shrinks blocks (releaseStorage blocks content) := by
  unfold releaseStorage
  split
  · exact .refl _
  · exact PoolSet.shrinks_release _ _

theorem shrinks_releasePending (blocks : PoolSet Content) (pending : List Value) :
    PoolSet.Shrinks blocks (releasePending blocks pending) := by
  fun_induction releasePending blocks pending with
  | case1 blocks => exact .refl _
  | case2 blocks value rest blockless ih => exact ih
  | case3 blocks value rest block leads kept ih => exact (PoolSet.shrinks_release _ _).trans ih
  | case4 blocks value rest block leads content freed ih =>
      exact ((PoolSet.shrinks_release _ _).trans (shrinks_releaseStorage _ _)).trans ih

theorem shrinks_releaseContent (heap : Heap) (content : Content) :
    PoolSet.Shrinks heap.blocks (heap.releaseContent content).blocks :=
  (shrinks_releaseStorage _ _).trans (shrinks_releasePending _ _)

theorem shrinks_releaseBlock (heap : Heap) (block : Handle) :
    PoolSet.Shrinks heap.blocks (heap.releaseBlock block).blocks := by
  have released := PoolSet.shrinks_release heap.blocks block
  unfold releaseBlock
  generalize heap.blocks.release block = outcome at released
  obtain ⟨_ | content, blocks⟩ := outcome
  · exact released
  · exact released.trans (shrinks_releaseContent ⟨blocks⟩ content)

theorem shrinks_release (heap : Heap) (value : Value) :
    PoolSet.Shrinks heap.blocks (heap.release value).blocks := by
  unfold release
  split
  · exact .refl _
  · exact shrinks_releaseBlock _ _

theorem shrinks_releaseAll (heap : Heap) (values : List Value) :
    PoolSet.Shrinks heap.blocks (heap.releaseAll values).blocks := by
  induction values generalizing heap with
  | nil => exact .refl _
  | cons value rest ih => exact (shrinks_release heap value).trans (ih _)

theorem shrinks_retain (heap : Heap) (value : Value) :
    PoolSet.Shrinks heap.blocks (heap.retain value).blocks := by
  unfold retain
  split
  · exact .refl _
  · exact PoolSet.shrinks_retain _ _

/-- A block that was taken for elements may be given back. -/
theorem shrinks_withoutRoom (heap : Heap) (storage : Option Handle) :
    PoolSet.Shrinks heap.blocks (heap.withoutRoom storage).blocks := by
  cases storage with
  | none => exact .refl _
  | some room => exact PoolSet.shrinks_release _ _

/-! ## Taking blocks -/

/-- The same pools are there, and everything fits. -/
structure Refits (heap after : Heap) : Prop where
  shape : after.blocks.shape = heap.blocks.shape
  fitting : after.Fitting

theorem Refits.trans (one : Refits heap middle) (two : Refits middle after) : Refits heap after :=
  ⟨two.shape.trans one.shape, two.fitting⟩

theorem Fitting.refits (fitting : heap.Fitting) (sound : heap.blocks.Sound)
    (shrinks : PoolSet.Shrinks heap.blocks after.blocks) : Refits heap after :=
  ⟨shrinks.shape, fitting.shrunk sound shrinks⟩

/-- What a new block holds fits it. -/
theorem Fitting.allocSized (fitting : heap.Fitting) (sound : heap.blocks.Sound) {size : Nat}
    (fits : content.size ≤ size) (housed : content.Housed heap.blocks)
    (spare : heap.Spare content.storage?) : Refits heap (heap.allocSized size content).2 := by
  unfold Heap.allocSized
  rcases PoolSet.alloc_cases sound size content.tag content with none | ⟨block, blocks, got, taken⟩
  · rw [none]
    exact fitting.refits sound (shrinks_releaseContent heap content)
  rw [got]
  obtain ⟨shape, size', known, enough⟩ := PoolSet.alloc_spans sound got
  have cases : ∀ other content', (Heap.mk blocks).get? other = some content' →
      other = block ∧ content' = content ∨ heap.get? other = some content' := by
    intro other content' found
    by_cases same : other = block
    · subst same
      exact .inl ⟨rfl, Option.some.inj (found.symm.trans taken.get?)⟩
    · exact .inr ((taken.others.get? other same).symm.trans found)
  refine ⟨shape, fun other content' found => ?_, fun other content' found => ?_,
    fun one two first second room here there own own' => ?_⟩
  · obtain ⟨rfl, rfl⟩ | before := cases other content' found
    · exact ⟨size', known, Nat.le_trans fits enough⟩
    · exact (fitting.sized other content' before).of_shape shape
  · obtain ⟨rfl, rfl⟩ | before := cases other content' found
    · exact housed.of_shape shape
    · exact (fitting.housed other content' before).of_shape shape
  · obtain ⟨rfl, rfl⟩ | before := cases one first here
    · obtain ⟨rfl, rfl⟩ | before' := cases two second there
      · rfl
      · exact absurd own' (spare room own two second before')
    · obtain ⟨rfl, rfl⟩ | before' := cases two second there
      · exact absurd own (spare room own' one first before)
      · exact fitting.apart one two first second room before before' own own'

/-- A new block leaves the pools sound. -/
theorem sound_allocSized (sound : heap.blocks.Sound) (size : Nat) (content : Content) :
    (heap.allocSized size content).2.blocks.Sound := by
  unfold Heap.allocSized
  rcases PoolSet.alloc_cases sound size content.tag content with none | ⟨block, blocks, got, taken⟩
  · rw [none]
    exact (shrinks_releaseContent heap content).sound sound
  · rw [got]
    exact taken.sound

/-- Content without elements in another block. -/
theorem Fitting.alloc (fitting : heap.Fitting) (sound : heap.blocks.Sound)
    (housed : content.Housed heap.blocks) (spare : heap.Spare content.storage?) :
    Refits heap (heap.alloc content).2 :=
  fitting.allocSized sound (Nat.le_refl _) housed spare

theorem Fitting.allocCell (fitting : heap.Fitting) (sound : heap.blocks.Sound) (value : Value) :
    Refits heap (heap.allocCell value).2 :=
  @Fitting.alloc _ (.cell value) fitting sound trivial (spare_none heap)

theorem Fitting.allocString (fitting : heap.Fitting) (sound : heap.blocks.Sound) (text : String) :
    Refits heap (heap.allocString text).2 :=
  @Fitting.alloc _ (.text text) fitting sound trivial (spare_none heap)

theorem Fitting.allocForeign (fitting : heap.Fitting) (sound : heap.blocks.Sound) (text : String)
    (hostHandle : Nat) : Refits heap (heap.allocForeign text hostHandle).2 :=
  @Fitting.alloc _ (.foreign text hostHandle) fitting sound trivial (spare_none heap)

theorem Fitting.allocClosure (fitting : heap.Fitting) (sound : heap.blocks.Sound)
    (target : FunctionRef) (cells : Array Value) :
    Refits heap (heap.allocClosure target cells).2 :=
  @Fitting.alloc _ (.closure target cells) fitting sound trivial (spare_none heap)

theorem Fitting.allocTimer (fitting : heap.Fitting) (sound : heap.blocks.Sound) :
    Refits heap heap.allocTimer.2 :=
  @Fitting.alloc _ .timer fitting sound trivial (spare_none heap)

/-! ## Blocks for elements -/

/-- What elements refer to is there, so a block that is not there holds none. -/
theorem Balanced.spare (balanced : heap.Balanced rules outside) {room : Handle}
    (gone : heap.get? room = none) : heap.Spare (some room) := by
  rintro _ ⟨⟩ block content found own
  have inside : Reference.storage room ∈ content.references := by
    simp [Content.references, own]
  obtain ⟨kind, there, -⟩ := (balanced.fits _ (List.mem_append_left _
    (List.mem_flatMap.mpr ⟨content, PoolSet.mem_contents found, inside⟩))).live room rfl
  obtain ⟨other, found', -⟩ := get?_of_kind? there
  exact absurd (gone.symm.trans found') (Option.some_ne_none _).symm

/-- A new block for elements is large enough, and nobody else's; there is none for no elements. -/
theorem Fitting.allocStorage (fitting : heap.Fitting) (balanced : heap.Balanced rules outside)
    (bytes capacity : Nat) :
    Refits heap (heap.allocStorage bytes capacity).2 ∧
      ∀ storage, (heap.allocStorage bytes capacity).1 = .ok storage →
        (heap.allocStorage bytes capacity).2.Spare storage ∧ ∀ count ≤ capacity,
          (heap.allocStorage bytes capacity).2.blocks.Houses storage count capacity bytes := by
  unfold Heap.allocStorage
  split
  · rename_i none
    refine ⟨⟨rfl, fitting⟩, ?_⟩
    rintro storage ⟨⟩
    refine ⟨spare_none heap, fun count few => ⟨few, by simp [none], ?_⟩⟩
    rintro _ ⟨⟩
  rename_i some
  have refits : Refits heap (heap.allocSized bytes .storage).2 :=
    @Fitting.allocSized _ .storage fitting balanced.sound bytes (Nat.zero_le _) trivial
      (spare_none heap)
  refine ⟨refits, fun storage given => ?_⟩
  unfold Heap.allocSized at refits given ⊢
  rcases PoolSet.alloc_cases balanced.sound bytes Content.storage.tag .storage with none |
    ⟨block, blocks, got, taken⟩
  · rw [none] at given
    cases given
  rw [got] at refits given ⊢
  cases given
  refine ⟨?_, fun count few => ⟨few, ⟨fun _ => by omega, fun _ => rfl⟩, ?_⟩⟩
  · rintro _ ⟨⟩ other content found
    by_cases same : other = block
    · subst same
      obtain rfl := Option.some.inj (found.symm.trans taken.get?)
      exact (Option.some_ne_none _).symm
    · exact balanced.spare taken.fresh block rfl other content
        ((taken.others.get? other same).symm.trans found)
  · rintro _ ⟨⟩
    exact (PoolSet.alloc_spans balanced.sound got).2

/-- The elements of an array get a block of their own. -/
theorem Fitting.allocArray {items : Array Value} (fitting : heap.Fitting)
    (balanced : heap.Balanced rules (items.toList.map .value ++ outside)) :
    Refits heap (heap.allocArray items).2 := by
  obtain ⟨first, houses⟩ := fitting.allocStorage balanced (arrayStorageSize items.size) items.size
  have left := balanced.allocStorage (arrayStorageSize items.size) items.size
  unfold Heap.allocArray
  dsimp only
  generalize heap.allocStorage (arrayStorageSize items.size) items.size = outcome
    at first houses left
  obtain ⟨fault | storage, after⟩ := outcome
  · exact first.trans (first.fitting.refits left.2.sound (shrinks_releaseAll _ _))
  · obtain ⟨spare, housed⟩ := houses storage rfl
    exact first.trans (@Fitting.alloc after (.array items items.size storage) first.fitting
      (Balanced.sound left) (housed _ (Nat.le_refl _)) spare)

/-- And so do the properties of an object. -/
theorem Fitting.allocObject {properties : List (String × Value)} (fitting : heap.Fitting)
    (balanced : heap.Balanced rules ((properties.map (·.2)).map .value ++ outside)) :
    Refits heap (heap.allocObject properties).2 := by
  have same := putProperties_perm properties (#[], [])
  unfold Heap.allocObject
  generalize properties.foldl putProperty (#[], []) = state at same
  obtain ⟨unique, replaced⟩ := state
  have left : (heap.releaseAll replaced.reverse).Balanced rules
      ((unique.toList.map (·.2)).map .value ++ outside) := by
    refine Balanced.releaseAll (balanced.perm (perm_of_count fun reference => ?_))
    have one := (same.map Reference.value).count_eq reference
    have two := ((List.reverse_perm replaced).map Reference.value).count_eq reference
    simp only [valuesOf, List.map_append, List.count_append, List.map_nil, List.append_nil] at *
    omega
  have released := fitting.refits balanced.sound (shrinks_releaseAll heap replaced.reverse)
  simp only
  generalize heap.releaseAll replaced.reverse = middle at left released
  obtain ⟨first, houses⟩ :=
    released.fitting.allocStorage left (objectStorageSize unique.size) unique.size
  have stored := left.allocStorage (objectStorageSize unique.size) unique.size
  generalize middle.allocStorage (objectStorageSize unique.size) unique.size = outcome
    at first houses stored
  refine released.trans ?_
  obtain ⟨fault | storage, after⟩ := outcome
  · exact first.trans (first.fitting.refits stored.2.sound (shrinks_releaseAll _ _))
  · obtain ⟨spare, housed⟩ := houses storage rfl
    exact first.trans (@Fitting.alloc after (.object unique unique.size storage) first.fitting
      (Balanced.sound stored) (housed _ (Nat.le_refl _)) spare)

/-! ## Stores -/

/-- What is put into a block fits it like what was there before. -/
theorem Fitting.put (fitting : heap.Fitting) (sound : heap.blocks.Sound)
    (fits : ∀ old, heap.get? block = some old → content.size ≤ old.size)
    (housed : content.Housed heap.blocks)
    (spare : ∀ room, content.storage? = some room → ∀ other held, other ≠ block →
      heap.get? other = some held → held.storage? ≠ some room) :
    Refits heap (heap.put block content) := by
  have shape : (heap.put block content).blocks.shape = heap.blocks.shape :=
    PoolSet.shape_updateSlot _ _ _
  cases found : heap.get? block with
  | none =>
      have same : heap.put block content = heap :=
        congrArg Heap.mk (PoolSet.put_of_get?_none found content)
      rw [same]
      exact ⟨rfl, fitting⟩
  | some old =>
      have replaced := PoolSet.replaced_put sound found content
      have cases : ∀ other held, (heap.put block content).get? other = some held →
          other = block ∧ held = content ∨ other ≠ block ∧ heap.get? other = some held := by
        intro other held there
        by_cases same : other = block
        · subst same
          exact .inl ⟨rfl, Option.some.inj (there.symm.trans replaced.get?)⟩
        · exact .inr ⟨same, (replaced.others other same).symm.trans there⟩
      refine ⟨shape, fun other held there => ?_, fun other held there => ?_,
        fun one two first second room here there own own' => ?_⟩
      · obtain ⟨rfl, rfl⟩ | ⟨-, before⟩ := cases other held there
        · obtain ⟨size, known, enough⟩ := fitting.sized other old found
          exact PoolSet.Spans.of_shape ⟨size, known, Nat.le_trans (fits old found) enough⟩ shape
        · exact (fitting.sized other held before).of_shape shape
      · obtain ⟨rfl, rfl⟩ | ⟨-, before⟩ := cases other held there
        · exact housed.of_shape shape
        · exact (fitting.housed other held before).of_shape shape
      · obtain ⟨rfl, rfl⟩ | ⟨different, before⟩ := cases one first here
        · obtain ⟨rfl, rfl⟩ | ⟨different, before⟩ := cases two second there
          · rfl
          · exact absurd own' (spare room own two second different before)
        · obtain ⟨rfl, rfl⟩ | ⟨different', before'⟩ := cases two second there
          · exact absurd own (spare room own' one first different before)
          · exact fitting.apart one two first second room before before' own own'

/-- The elements stay where they were. -/
theorem Fitting.putInPlace {old : Content} (fitting : heap.Fitting) (sound : heap.blocks.Sound)
    (found : heap.get? block = some old) (fits : content.size ≤ old.size)
    (housed : content.Housed heap.blocks) (same : content.storage? = old.storage?) :
    Refits heap (heap.put block content) := by
  refine fitting.put sound (fun other there => ?_) housed fun room own other held different there =>
    fun own' => different (fitting.apart other block held old room there found own'
      (same.symm.trans own))
  obtain rfl := Option.some.inj (found.symm.trans there)
  exact fits

/-- A block for more elements. -/
theorem Fitting.growStorage (fitting : heap.Fitting) (balanced : heap.Balanced rules outside)
    (bytes : Nat → Nat) (wanted needed : Nat) :
    Refits heap (heap.growStorage bytes wanted needed).2 ∧
      ∀ capacity storage, (heap.growStorage bytes wanted needed).1 = .ok (capacity, storage) →
        (heap.growStorage bytes wanted needed).2.Spare storage ∧ ∀ count ≤ capacity,
          (heap.growStorage bytes wanted needed).2.blocks.Houses storage count capacity
            (bytes capacity) := by
  obtain ⟨first, houses⟩ := fitting.allocStorage balanced (bytes wanted) wanted
  have left := balanced.allocStorage (bytes wanted) wanted
  unfold Heap.growStorage
  generalize heap.allocStorage (bytes wanted) wanted = outcome at first houses left
  obtain ⟨fault | storage, after⟩ := outcome
  · obtain ⟨second, houses⟩ := first.fitting.allocStorage left.2 (bytes needed) needed
    simp only
    generalize after.allocStorage (bytes needed) needed = outcome at second houses
    obtain ⟨fault | storage, last⟩ := outcome
    · refine ⟨first.trans second, ?_⟩
      rintro _ _ ⟨⟩
    · refine ⟨first.trans second, ?_⟩
      rintro _ _ ⟨⟩
      exact houses storage rfl
  · refine ⟨first, ?_⟩
    rintro _ _ ⟨⟩
    exact houses storage rfl

/-- The elements of an array or an object move into another block. -/
theorem Fitting.move {grown : Option Handle} (fitting : heap.Fitting) (sound : heap.blocks.Sound)
    (old : Option Handle) (fits : ∀ held, heap.get? block = some held → content.size ≤ held.size)
    (housed : content.Housed heap.blocks) (own : content.storage? = grown)
    (spare : heap.Spare grown) : Refits heap ((heap.withoutRoom old).put block content) := by
  have shrinks := shrinks_withoutRoom heap old
  have less := fitting.refits sound shrinks
  refine less.trans (less.fitting.put (shrinks.sound sound) (fun held found => ?_)
    (housed.of_shape shrinks.shape) fun room known other held _ found => ?_)
  · exact fits held (shrinks.kept sound _ _ found)
  · exact spare.shrunk sound shrinks room (own.symm.trans known) other held found

/-- A value that is refused is released. -/
theorem Fitting.refuse (fitting : heap.Fitting) (sound : heap.blocks.Sound) (value : Value)
    (fault : Fault) : Refits heap (heap.refuse value fault).2 :=
  fitting.refits sound (shrinks_release heap value)

section Changes

variable {change : Change} {capacity : Nat} {blocks : PoolSet Content}

theorem Change.Stores.housed (stores : change.Stores value) :
    ((change.old capacity storage).Housed blocks ↔
      blocks.Houses storage change.count capacity (change.bytes capacity)) ∧
    ((change.new capacity storage).Housed blocks ↔
      blocks.Houses storage change.newCount capacity (change.bytes capacity)) := by
  cases stores <;> exact ⟨Iff.rfl, Iff.rfl⟩

theorem Change.Stores.size_le (stores : change.Stores value) {capacity' : Nat}
    {storage' : Option Handle} :
    (change.new capacity' storage').size ≤ (change.old capacity storage).size := by
  cases stores <;> exact Nat.le_refl _

end Changes

/-- Elements that have grown out of their block get a larger one. -/
theorem Fitting.store {outcome : Outcome Unit} (fitting : heap.Fitting)
    (balanced : heap.Balanced rules (.value value :: outside))
    (ends : heap.Ends block value outcome) : Refits heap outcome.2 := by
  cases ends with
  | mismatch => exact fitting.refuse balanced.sound value _
  | @inPlace change capacity storage stores found few =>
      have houses := stores.housed.1.mp (fitting.housed _ _ found)
      have count := houses.count
      have housed := stores.housed.2.mpr ⟨by omega, houses.own, houses.spans⟩
      have put := fitting.putInPlace balanced.sound found stores.size_le housed
        (stores.storage?.2.trans stores.storage?.1.symm)
      have sound := (PoolSet.replaced_put balanced.sound found (change.new capacity storage)).sound
      exact put.trans (put.fitting.refits sound (shrinks_releaseAll _ _))
  | @full change capacity storage wanted needed fault after stores found failed =>
      obtain ⟨refits, -⟩ := fitting.growStorage balanced change.bytes wanted needed
      rcases balanced.growStorage change.bytes wanted needed found with
        ⟨_, _, failed', -, left⟩ | ⟨_, _, _, grown, -⟩
      · cases failed.symm.trans failed'
        rw [failed] at refits
        exact refits.trans (refits.fitting.refuse left.sound value fault)
      · cases failed.symm.trans grown
  | @moved change capacity storage moved wanted needed larger after stores found _ few grown =>
      obtain ⟨refits, room⟩ := fitting.growStorage balanced change.bytes wanted needed
      rcases balanced.growStorage change.bytes wanted needed found with
        ⟨_, _, failed, -⟩ | ⟨_, _, _, grown', enough, left, kept⟩
      · cases grown.symm.trans failed
      cases grown.symm.trans grown'
      rw [grown] at refits room
      obtain ⟨spare, housed⟩ := room larger moved rfl
      have count := (stores.housed.1.mp (fitting.housed _ _ found)).count
      have few := few count
      refine refits.trans (refits.fitting.move left.sound storage (fun held there => ?_)
        (stores.housed.2.mpr (housed _ (by omega))) stores.storage?.2 spare)
      obtain rfl := Option.some.inj (kept.symm.trans there)
      exact stores.size_le

theorem Fitting.arraySet (fitting : heap.Fitting)
    (balanced : heap.Balanced rules (.value value :: outside)) (block : Handle) (index : Nat) :
    Refits heap (heap.arraySet block index value).2 :=
  fitting.store balanced (ends_arraySet heap block index value)

theorem Fitting.objectSet (fitting : heap.Fitting)
    (balanced : heap.Balanced rules (.value value :: outside)) (block : Handle) (key : String) :
    Refits heap (heap.objectSet block key value).2 :=
  fitting.store balanced (ends_objectSet heap block key value)

/-- A cell holds one value at any time. -/
theorem Fitting.cellSet (fitting : heap.Fitting) (sound : heap.blocks.Sound) (block : Handle)
    (value : Value) : Refits heap (heap.cellSet block value).2 := by
  unfold Heap.cellSet
  split
  · rename_i old found
    have put := @Fitting.putInPlace _ _ (.cell value) _ fitting sound found (Nat.le_refl _) trivial rfl
    exact put.trans (put.fitting.refits (PoolSet.replaced_put sound found (.cell value)).sound
      (shrinks_release _ _))
  · exact fitting.refuse sound value _

/-- In a new heap there is nothing that has to fit. -/
theorem fitting_new (sizes : List (Nat × Nat)) : (Heap.new sizes).Fitting := by
  have empty : ∀ block content, (Heap.new sizes).get? block ≠ some content := by
    intro block content found
    have inside := PoolSet.mem_contents found
    rw [show (Heap.new sizes).blocks.contents = [] from PoolSet.contents_new sizes] at inside
    cases inside
  exact ⟨fun block content found => absurd found (empty block content),
    fun block content found => absurd found (empty block content),
    fun one _ first _ _ found => absurd found (empty one first)⟩

end Heap

end PocketScript
