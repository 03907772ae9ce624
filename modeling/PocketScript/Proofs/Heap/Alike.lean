import PocketScript.Proofs.Heap.Fitting

/-!
# Heaps that look alike

A block that is taken and given back at once leaves a trace in the pools: the generation of its place
has moved on. Nobody can tell, for no handle leads there. Two heaps look alike when under every
handle there is the same content with the same count, and the same blocks are free in the same order
(`PoolSet.Alike`). Giving references up in one has the same effect as in the other
(`Heap.alike_releasePending`).
-/

namespace PocketScript

variable {α : Type}

namespace PoolSet

variable {set other after : PoolSet α} {handle : Handle} {content : α}

/-- The free blocks of each pool, the next one first. -/
def vacancies (set : PoolSet α) : List (List UInt16) := set.pools.map (·.free)

/-- Two sets of pools hold the same and have the same blocks to offer. -/
structure Alike (set other : PoolSet α) : Prop where
  sound : set.Sound
  sound' : other.Sound
  shape : other.shape = set.shape
  vacancies : other.vacancies = set.vacancies
  get? : ∀ handle, other.get? handle = set.get? handle
  counter : ∀ handle, other.counter handle = set.counter handle

theorem Alike.refl (sound : set.Sound) : Alike set set :=
  ⟨sound, sound, rfl, rfl, fun _ => rfl, fun _ => rfl⟩

/-- As many blocks are in use. -/
theorem Alike.usage (alike : Alike set other) : other.usage = set.usage := by
  have told (set : PoolSet α) : set.usage = List.zipWith
      (fun outline free => ⟨outline.1, outline.2, outline.2 - free.length⟩)
        set.shape set.vacancies := by
    simp only [PoolSet.usage, PoolSet.shape, PoolSet.vacancies, List.zipWith_map,
      List.zipWith_self, Pool.used]
  rw [told, told, alike.shape, alike.vacancies]

theorem Alike.isStatic (alike : Alike set other) (handle : Handle) :
    other.isStatic handle = set.isStatic handle := by
  rw [Bool.eq_iff_iff, isStatic_eq_true_iff, isStatic_eq_true_iff, alike.counter]

theorem Alike.refCount (alike : Alike set other) (handle : Handle) :
    other.refCount handle = set.refCount handle := by
  rw [refCount_eq, refCount_eq, alike.counter]

/-- A block that holds nothing is not counted. -/
theorem counter_of_get?_none (sound : set.Sound) (gone : set.get? handle = none) :
    set.counter handle = 0 := by
  unfold counter
  cases found : set.slot? handle with
  | none => rfl
  | some slot =>
      obtain ⟨pool, poolFound, slotFound⟩ := slot?_eq_some found
      rw [get?_of_slot? found] at gone
      exact ((sound.pools _ pool poolFound).slots _ slot slotFound).mpr gone

/-- The count tells whether the block stays for ever and how many references there are. -/
theorem counter_eq_of_refCount (free : set.isStatic handle = false)
    (free' : other.isStatic handle = false) (same : other.refCount handle = set.refCount handle) :
    other.counter handle = set.counter handle := by
  rw [isStatic_eq_false_iff] at free free'
  rw [refCount_eq, refCount_eq] at same
  exact UInt16.toNat_inj.mp (by omega)

/-! ## Giving one reference up -/

theorem vacancies_updatePool {change : Pool α → Pool α} {free : List UInt16 → List UInt16}
    (same : ∀ pool, (change pool).free = free pool.free) :
    (set.updatePool handle change).vacancies =
      set.vacancies.modify handle.pool.toNat free := by
  apply List.ext_getElem?
  intro place
  rw [vacancies, vacancies, updatePool, List.getElem?_map, List.getElem?_modify,
    List.getElem?_modify, List.getElem?_map]
  split <;> cases set.pools[place]? <;> simp [same]

theorem vacancies_updateSlot (set : PoolSet α) (handle : Handle) (change : Slot α → Slot α) :
    (set.updateSlot handle change).vacancies = set.vacancies := by
  unfold updateSlot
  split
  · rfl
  · have same : ∀ pool : Pool α, (pool.update handle.index.toNat change).free = id pool.free :=
      fun _ => rfl
    rw [vacancies_updatePool same]
    exact modify_of_fixed fun _ _ => rfl

/-- A block that is given back is the next one to be taken. -/
theorem vacancies_release (found : set.get? handle = some content) :
    (set.release handle).2.vacancies =
      match (set.release handle).1 with
      | none => set.vacancies
      | some _ => set.vacancies.modify handle.pool.toNat (handle.index :: ·) := by
  obtain ⟨slot, there, held⟩ := Option.bind_eq_some_iff.mp found
  rw [release, there]
  dsimp only
  split
  · rfl
  split
  · rw [held]
    exact vacancies_updatePool fun _ => rfl
  · exact vacancies_updateSlot _ _ _

/-- The last reference takes the content with it. -/
theorem release_last (sound : set.Sound) (found : set.get? handle = some content)
    (free : set.isStatic handle = false) (one : set.refCount handle = 1) :
    ∃ after, set.release handle = (some content, after) ∧ Emptied handle content set after := by
  obtain ⟨static, -⟩ | ⟨-, -, after, given, emptied⟩ | ⟨-, after, -, recounted, stillFree, less⟩ :=
    release_cases sound found
  · exact absurd (free.symm.trans static) Bool.false_ne_true
  · exact ⟨after, given, emptied⟩
  · have := refCount_pos recounted.sound ((recounted.get? handle).trans found) stillFree
    omega

/-- A reference that is not the last one leaves the block with one less. -/
theorem release_more (sound : set.Sound) (found : set.get? handle = some content)
    (free : set.isStatic handle = false) (more : set.refCount handle ≠ 1) :
    ∃ after, set.release handle = (none, after) ∧ Recounted handle set after ∧
      after.isStatic handle = false ∧ after.refCount handle + 1 = set.refCount handle := by
  obtain ⟨static, -⟩ | ⟨-, one, -⟩ | ⟨-, less⟩ := release_cases sound found
  · exact absurd (free.symm.trans static) Bool.false_ne_true
  · exact absurd one more
  · exact less

theorem release_static (sound : set.Sound) (found : set.get? handle = some content)
    (static : set.isStatic handle = true) : set.release handle = (none, set) := by
  obtain ⟨-, kept⟩ | ⟨free, -⟩ | ⟨free, -⟩ := release_cases sound found
  · exact kept
  all_goals exact absurd (free.symm.trans static) Bool.false_ne_true

/-- Pools from which the same block is gone look alike. -/
theorem Alike.emptied (alike : Alike set other) {left left' : PoolSet α}
    (emptied : Emptied handle content set left) (emptied' : Emptied handle content other left')
    (shape : left'.shape = left.shape) (vacancies : left'.vacancies = left.vacancies) :
    Alike left left' := by
  refine ⟨emptied.sound, emptied'.sound, shape, vacancies, fun another => ?_, fun another => ?_⟩
  · by_cases here : another = handle
    · rw [here, emptied.gone, emptied'.gone]
    · rw [emptied.others.get? another here, emptied'.others.get? another here, alike.get?]
  · by_cases here : another = handle
    · rw [here, counter_of_get?_none emptied.sound emptied.gone,
        counter_of_get?_none emptied'.sound emptied'.gone]
    · rw [emptied.others.counter another here, emptied'.others.counter another here,
        alike.counter]

/-- Pools in which the same count has changed in the same way look alike. -/
theorem Alike.recounted (alike : Alike set other) {left left' : PoolSet α}
    (recounted : Recounted handle set left) (recounted' : Recounted handle other left')
    (same : left'.counter handle = left.counter handle)
    (shape : left'.shape = left.shape) (vacancies : left'.vacancies = left.vacancies) :
    Alike left left' := by
  refine ⟨recounted.sound, recounted'.sound, shape, vacancies, fun another => ?_,
    fun another => ?_⟩
  · rw [recounted.get?, recounted'.get?, alike.get?]
  · by_cases here : another = handle
    · rw [here, same]
    · rw [recounted.counter another here, recounted'.counter another here, alike.counter]

/-- What a reference that is given up takes with it is the same, and so is what is left. -/
theorem Alike.release (alike : Alike set other) (handle : Handle) :
    (other.release handle).1 = (set.release handle).1 ∧
      Alike (set.release handle).2 (other.release handle).2 := by
  cases found : set.get? handle with
  | none =>
      have found' : other.get? handle = none := (alike.get? handle).trans found
      rw [release_of_get?_none alike.sound found, release_of_get?_none alike.sound' found']
      exact ⟨rfl, alike⟩
  | some content =>
      have found' : other.get? handle = some content := (alike.get? handle).trans found
      have shape := ((shape_release other handle).trans alike.shape).trans
        (shape_release set handle).symm
      have vacancies := vacancies_release found
      have vacancies' := vacancies_release found'
      have count := alike.refCount handle
      cases static : set.isStatic handle with
      | true =>
          rw [release_static alike.sound found static,
            release_static alike.sound' found' ((alike.isStatic handle).trans static)]
          exact ⟨rfl, alike⟩
      | false =>
          have static' := (alike.isStatic handle).trans static
          by_cases one : set.refCount handle = 1
          · obtain ⟨left, given, emptied⟩ := release_last alike.sound found static one
            obtain ⟨left', given', emptied'⟩ :=
              release_last alike.sound' found' static' (count.trans one)
            rw [given] at vacancies shape ⊢
            rw [given'] at vacancies' shape ⊢
            refine ⟨rfl, alike.emptied emptied emptied' shape ?_⟩
            rw [vacancies, vacancies', alike.vacancies]
          · obtain ⟨left, given, recounted, free, less⟩ :=
              release_more alike.sound found static one
            obtain ⟨left', given', recounted', free', less'⟩ :=
              release_more alike.sound' found' static' fun one' => one (count.symm.trans one')
            have same := counter_eq_of_refCount free free' (by omega)
            rw [given] at vacancies shape ⊢
            rw [given'] at vacancies' shape ⊢
            refine ⟨rfl, alike.recounted recounted recounted' same shape ?_⟩
            rw [vacancies, vacancies', alike.vacancies]

/-! ## Taking a block and giving it back -/

/-- A block is taken from the front of the free ones. -/
theorem vacancies_alloc (sound : set.Sound) {size : Nat} {tag : UInt16}
    (got : set.alloc size tag content = (some handle, after)) :
    set.vacancies = after.vacancies.modify handle.pool.toNat (handle.index :: ·) := by
  unfold alloc at got
  obtain ⟨-, none⟩ | ⟨place, pool, index, free, there, fits, -, taken⟩ :=
    allocIn_cases size tag content 0 set.pools
  · rw [none] at got
    cases got
  · rw [taken, Nat.zero_add] at got
    cases got
    have few : place < UInt8.size :=
      Nat.lt_of_lt_of_le (List.getElem?_eq_some_iff.mp there).1 sound.few
    have number : (UInt8.ofNat place).toNat = place := UInt8.toNat_ofNat_of_lt' few
    simp only [vacancies, number]
    apply List.ext_getElem?
    intro other
    rw [List.getElem?_modify, List.getElem?_map, List.getElem?_map, List.getElem?_modify]
    split
    · rename_i here
      subst here
      simp [there, (fitting_eq_cons fits).2, Pool.occupy]
    · simp

/-- A block that is taken and given back leaves the pools as they were. -/
theorem alike_of_taken (sound : set.Sound) {size : Nat} {tag : UInt16}
    (got : set.alloc size tag content = (some handle, after))
    (taken : Taken handle content set after) : Alike set (after.release handle).2 := by
  have vacancies := vacancies_release taken.get?
  have shape := (shape_release after handle).trans (alloc_spans sound got).1
  obtain ⟨left, given, emptied⟩ := release_last taken.sound taken.get? taken.isStatic taken.refCount
  rw [given] at vacancies shape ⊢
  refine ⟨sound, emptied.sound, shape, vacancies.trans (vacancies_alloc sound got).symm,
    fun other => ?_, fun other => ?_⟩
  · by_cases here : other = handle
    · rw [here, emptied.gone, taken.fresh]
    · rw [emptied.others.get? other here, taken.others.get? other here]
  · by_cases here : other = handle
    · rw [here, counter_of_get?_none emptied.sound emptied.gone,
        counter_of_get?_none sound taken.fresh]
    · rw [emptied.others.counter other here, taken.others.counter other here]

end PoolSet

namespace Heap

open PoolSet (Alike)

variable {heap : Heap} {blocks other : PoolSet Content} {value : Value} {block : Handle}
  {content : Content}

/-! ## Giving values up -/

/-- Values may be given up in two goes. -/
theorem releasePending_append (blocks : PoolSet Content) (pending rest : List Value) :
    releasePending blocks (pending ++ rest) =
      releasePending (releasePending blocks pending) rest := by
  induction blocks, pending using Heap.releasePending.induct with
  | case1 blocks => rw [releasePending, List.nil_append]
  | case2 blocks value more none ih =>
      rw [List.cons_append, releasePending_of_none none, releasePending_of_none none, ih]
  | case3 blocks value more block leads kept ih =>
      rw [List.cons_append, releasePending_of_kept leads kept, releasePending_of_kept leads kept,
        ih]
  | case4 blocks value more block leads content freed ih =>
      rw [List.cons_append, releasePending_of_freed leads freed,
        releasePending_of_freed leads freed, ← List.append_assoc, ih]

/-- Values are given up one after the other, each with all that goes with it. -/
theorem releaseAll_eq_releasePending (heap : Heap) (values : List Value) :
    heap.releaseAll values = ⟨releasePending heap.blocks values⟩ := by
  induction values generalizing heap with
  | nil => rw [releasePending, releaseAll, List.foldl_nil]
  | cons value rest ih =>
      rw [← List.singleton_append, releasePending_append]
      change (heap.release value).releaseAll rest = _
      rw [ih, release_eq_releasePending]

theorem alike_releaseStorage (alike : Alike blocks other) (content : Content) :
    Alike (releaseStorage blocks content) (releaseStorage other content) := by
  unfold releaseStorage
  split
  · exact alike
  · exact (alike.release _).2

/-- Heaps that look alike do so still when the same values have been given up. -/
theorem alike_releasePending (alike : Alike blocks other) (pending : List Value) :
    Alike (releasePending blocks pending) (releasePending other pending) := by
  induction blocks, pending using Heap.releasePending.induct generalizing other with
  | case1 blocks =>
      rw [releasePending, releasePending]
      exact alike
  | case2 blocks value rest none ih =>
      rw [releasePending_of_none none, releasePending_of_none none]
      exact ih alike
  | case3 blocks value rest block leads kept ih =>
      obtain ⟨same, left⟩ := alike.release block
      rw [releasePending_of_kept leads kept, releasePending_of_kept leads (same.trans kept)]
      exact ih left
  | case4 blocks value rest block leads content freed ih =>
      obtain ⟨same, left⟩ := alike.release block
      rw [releasePending_of_freed leads freed, releasePending_of_freed leads (same.trans freed)]
      exact ih (alike_releaseStorage left content)

end Heap

end PocketScript
