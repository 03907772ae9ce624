import PocketScript.Proofs.Heap.Pools

/-!
# Stale handles

A block that is freed goes to its next generation, so the handle it had finds nothing any more. There
are 65536 generations: the handle finds nothing until the same place has been freed that often
(`PoolSet.stale_run`), and then it finds what lies there now (`PoolSet.stale_returns`).
-/

namespace PocketScript

variable {α : Type}

/-- What is done to the pools, apart from looking at them. -/
inductive PoolSet.Operation (α : Type) where
  | alloc (size : Nat) (tag : UInt16) (content : α)
  | retain (handle : Handle)
  | release (handle : Handle)
  | makeStatic (handle : Handle)
  | put (handle : Handle) (content : α)

namespace PoolSet

variable {set : PoolSet α} {handle : Handle} {slot : Slot α}

def apply (set : PoolSet α) : Operation α → PoolSet α
  | .alloc size tag content => (set.alloc size tag content).2
  | .retain handle => set.retain handle
  | .release handle => (set.release handle).2
  | .makeStatic handle => set.makeStatic handle
  | .put handle content => set.put handle content

def run (set : PoolSet α) (operations : List (Operation α)) : PoolSet α :=
  operations.foldl apply set

theorem run_append (operations more : List (Operation α)) :
    set.run (operations ++ more) = (set.run operations).run more := List.foldl_append

/-- The operation frees the block at the place of a handle. -/
def frees (set : PoolSet α) (place : Handle) : Operation α → Bool
  | .release handle =>
      decide (Coincide handle place) && (set.slot? handle).any fun slot => slot.refs = refStep
  | _ => false

/-- How often operations free a block at the place of a handle. -/
def freed (set : PoolSet α) (place : Handle) : List (Operation α) → Nat
  | [] => 0
  | operation :: rest =>
      (set.frees place operation).toNat + (set.apply operation).freed place rest

/-- The generation at the place of a handle. -/
def generation? (set : PoolSet α) (place : Handle) : Option UInt16 :=
  (set.pools[place.pool.toNat]?.bind (·.slots[place.index.toNat]?)).map (·.generation)

/-- A handle finds something only in its own generation. -/
theorem slot?_eq_none (other : set.generation? handle ≠ some handle.generation) :
    set.slot? handle = none := by
  rw [slot?_eq, Option.bind_eq_none_iff]
  intro slot found
  rw [generation?, found, Option.map_some, ne_eq, Option.some.injEq] at other
  exact if_neg other

theorem generation?_of_slot? (found : set.slot? handle = some slot) :
    set.generation? handle = some handle.generation := by
  rw [slot?_eq, Option.bind_eq_some_iff] at found
  obtain ⟨other, there, same⟩ := found
  split at same
  · rename_i equal
    rw [generation?, there, Option.map_some, equal]
  · cases same

/-- A change at one place changes the generation there. -/
theorem generation?_updatePool {change : Pool α → Pool α} (inner : Slot α → Slot α)
    (same : ∀ pool, (change pool).slots = pool.slots.modify handle.index.toNat inner)
    (next : UInt16 → UInt16) (turns : ∀ slot, (inner slot).generation = next slot.generation)
    (place : Handle) :
    (set.updatePool handle change).generation? place =
      if Coincide handle place then (set.generation? place).map next
      else set.generation? place := by
  rw [generation?, generation?, updatePool, List.getElem?_modify]
  by_cases coincide : Coincide handle place
  · rw [if_pos coincide, ← coincide.1, ← coincide.2]
    simp only [if_true]
    cases set.pools[handle.pool.toNat]? with
    | none => rfl
    | some pool =>
        simp only [Option.map_eq_map, Option.map_some, Option.bind_some, same,
          Array.getElem?_modify, if_true]
        cases pool.slots[handle.index.toNat]? with
        | none => rfl
        | some slot => simp [turns]
  · rw [if_neg coincide]
    by_cases samePool : handle.pool = place.pool
    · have apart : handle.index.toNat ≠ place.index.toNat :=
        fun equal => coincide ⟨samePool, UInt16.toNat_inj.mp equal⟩
      rw [← samePool]
      simp only [if_true]
      cases set.pools[handle.pool.toNat]? with
      | none => rfl
      | some pool => simp [same, Array.getElem?_modify, apart]
    · have apart : handle.pool.toNat ≠ place.pool.toNat :=
        fun equal => samePool (UInt8.toNat_inj.mp equal)
      simp [apart]

/-- A change that keeps generations. -/
theorem generation?_updateSlot (change : Slot α → Slot α)
    (kept : ∀ slot, (change slot).generation = slot.generation) (place : Handle) :
    (set.updateSlot handle change).generation? place = set.generation? place := by
  unfold updateSlot
  split
  · rfl
  · rw [generation?_updatePool change (fun _ => rfl) id kept, Option.map_id]
    split <;> rfl

/-- A block that is taken keeps its generation. -/
theorem generation?_alloc (size : Nat) (tag : UInt16) (content : α) (place : Handle) :
    (set.alloc size tag content).2.generation? place = set.generation? place := by
  rcases allocIn_cases size tag content 0 set.pools with ⟨-, none⟩ |
    ⟨number, pool, index, free, there, -, -, taken⟩
  · rw [alloc, none]
  · rw [alloc, taken, generation?, generation?, List.getElem?_modify]
    by_cases here : number = place.pool.toNat
    · subst here
      rw [there]
      simp only [if_true, Option.map_eq_map, Option.map_some, Option.bind_some]
      have shape : (pool.occupy index free tag content).slots =
        pool.slots.modify index.toNat fun slot =>
          { slot with tag, refs := refStep, content := some content } := rfl
      rw [shape, Array.getElem?_modify]
      split
      · cases pool.slots[place.index.toNat]? <;> rfl
      · rfl
    · simp [here]

/-- The release of a last reference moves the place of its block to the next generation. -/
theorem generation?_release (place : Handle) :
    (set.release handle).2.generation? place =
      if set.frees place (.release handle) then (set.generation? place).map (· + 1)
      else set.generation? place := by
  rw [release, frees]
  cases found : set.slot? handle with
  | none => simp
  | some slot =>
      by_cases last : slot.refs = refStep
      · have free : ¬ (slot.isStatic = true ∨ slot.refs < refStep) := by
          rw [Slot.isStatic, last]
          decide
        dsimp only
        rw [if_neg free, if_pos last]
        simp only [Option.any_some, last, decide_true, Bool.and_true, decide_eq_true_eq]
        exact generation?_updatePool Slot.vacate (fun _ => rfl) (· + 1) (fun _ => rfl) place
      · rw [Option.any_some, decide_eq_false last, Bool.and_false, if_neg Bool.false_ne_true]
        dsimp only
        rw [if_neg last]
        split
        · rfl
        · exact generation?_updateSlot (fun slot => { slot with refs := slot.refs - refStep })
            (fun _ => rfl) place

/-- An operation that frees a block moves its place to the next generation, and no other operation
moves it. -/
theorem generation?_apply (operation : Operation α) (place : Handle) :
    (set.apply operation).generation? place =
      if set.frees place operation then (set.generation? place).map (· + 1)
      else set.generation? place := by
  cases operation with
  | alloc size tag content => exact generation?_alloc size tag content place
  | retain handle =>
      refine generation?_updateSlot Slot.retain (fun slot => ?_) place
      unfold Slot.retain
      split
      · rfl
      · split <;> rfl
  | makeStatic handle =>
      refine generation?_updateSlot Slot.makeStatic (fun slot => ?_) place
      unfold Slot.makeStatic
      split <;> rfl
  | put handle content =>
      refine generation?_updateSlot _ (fun slot => ?_) place
      split <;> rfl
  | release handle => exact generation?_release place

/-- The generation of a place counts how often it was freed. -/
theorem generation?_run (operations : List (Operation α)) (place : Handle) :
    (set.run operations).generation? place =
      (set.generation? place).map (· + UInt16.ofNat (set.freed place operations)) := by
  induction operations generalizing set with
  | nil => simp [run, freed]
  | cons operation rest ih =>
      change ((set.apply operation).run rest).generation? place = _
      rw [ih, generation?_apply, freed]
      cases set.frees place operation with
      | true =>
          simp only [if_true, Option.map_map, Bool.toNat_true]
          congr 1
          funext generation
          simp [UInt16.ofNat_add, UInt16.add_assoc]
      | false => simp

/-- Nothing is found through a handle, and nothing is changed through it. -/
structure Stale (set : PoolSet α) (handle : Handle) : Prop where
  get? : set.get? handle = none
  tag? : set.tag? handle = none
  refCount : set.refCount handle = 0
  retain : set.retain handle = set
  release : set.release handle = (none, set)
  makeStatic : set.makeStatic handle = set
  put : ∀ content, set.put handle content = set

theorem stale_of_slot? (none : set.slot? handle = none) : set.Stale handle where
  get? := by rw [PoolSet.get?, none]; rfl
  tag? := by rw [PoolSet.tag?, none]; rfl
  refCount := by rw [PoolSet.refCount, none]
  retain := by rw [PoolSet.retain, updateSlot, none]
  release := by rw [PoolSet.release, none]
  makeStatic := by rw [PoolSet.makeStatic, updateSlot, none]
  put content := by rw [PoolSet.put, updateSlot, none]

/-- A release that hands out content frees the block of its handle. -/
theorem generation?_of_release {content : α} (freed : (set.release handle).1 = some content) :
    (set.release handle).2.generation? handle = some (handle.generation + 1) := by
  obtain ⟨slot, found, last⟩ : ∃ slot, set.slot? handle = some slot ∧ slot.refs = refStep := by
    rw [release] at freed
    cases found : set.slot? handle with
    | none => rw [found] at freed; cases freed
    | some slot =>
        rw [found] at freed
        dsimp only at freed
        split at freed
        · cases freed
        · split at freed
          · exact ⟨slot, rfl, ‹_›⟩
          · cases freed
  have frees : set.frees handle (.release handle) = true := by
    simp [PoolSet.frees, found, last, Coincide]
  rw [generation?_release, frees, if_pos rfl, generation?_of_slot? found, Option.map_some]

/-- The handle of a block that was freed stays stale until its place has been freed 65536 times. -/
theorem stale_run {content : α} (freed : (set.release handle).1 = some content)
    (operations : List (Operation α))
    (few : (set.release handle).2.freed handle operations + 1 < 65536) :
    ((set.release handle).2.run operations).Stale handle := by
  refine stale_of_slot? (slot?_eq_none ?_)
  rw [generation?_run, generation?_of_release freed, Option.map_some, ne_eq, Option.some.injEq]
  intro around
  have turned := congrArg UInt16.toNat around
  have small := handle.generation.toNat_lt
  simp only [UInt16.toNat_add, UInt16.toNat_ofNat', UInt16.reduceToNat] at turned
  omega

/-- A pool of one free block, with the tag of its last use. -/
def single (tag generation : UInt16) : PoolSet α :=
  ⟨[{ blockSize := 16, slots := #[{ tag, generation }], free := [0] }]⟩

theorem stale_run_reused :
    ∃ set : PoolSet Nat, set = (single 0 0).apply (.alloc 1 1 7) ∧
      (set.release ⟨0, 0, 0⟩).1 = some 7 ∧
      ((set.release ⟨0, 0, 0⟩).2.run [.alloc 1 2 8, .release ⟨0, 0, 0⟩, .release ⟨0, 1, 0⟩,
        .alloc 1 2 9]).Stale ⟨0, 0, 0⟩ := by
  refine ⟨_, rfl, rfl, ?_⟩
  apply stale_run rfl
  decide

/-- After that the handle finds whatever lies at its place. -/
theorem stale_returns {content : α} (freed : (set.release handle).1 = some content)
    (operations : List (Operation α))
    (around : (set.release handle).2.freed handle operations + 1 = 65536) :
    ((set.release handle).2.run operations).slot? handle =
      ((set.release handle).2.run operations).pools[handle.pool.toNat]?.bind
        (·.slots[handle.index.toNat]?) := by
  have same : ((set.release handle).2.run operations).generation? handle =
      some handle.generation := by
    rw [generation?_run, generation?_of_release freed, Option.map_some,
      show (set.release handle).2.freed handle operations = 65535 by omega]
    exact congrArg some (by rw [UInt16.add_assoc]; exact UInt16.add_zero _)
  rw [generation?, Option.map_eq_some_iff] at same
  obtain ⟨slot, there, equal⟩ := same
  rw [slot?_eq, there, Option.bind_some, if_pos equal]

section Returns

/-- Takes the one block and gives it back, again and again. -/
def cycles (tag : UInt16) (content : α) (generation : UInt16) : Nat → List (Operation α)
  | 0 => []
  | count + 1 =>
      .alloc 1 tag content :: .release ⟨0, generation, 0⟩ ::
        cycles tag content (generation + 1) count

theorem apply_cycle (last tag : UInt16) (content : α) (generation : UInt16) :
    ((single last generation).apply (.alloc 1 tag content)).apply (.release ⟨0, generation, 0⟩) =
      single tag (generation + 1) := by
  have found : ((single last generation).apply (.alloc 1 tag content)).slot? ⟨0, generation, 0⟩ =
      some { tag, refs := refStep, generation, content := some content } := by
    rw [slot?_eq]
    exact if_pos rfl
  change (release _ _).2 = _
  rw [release, found]
  dsimp only
  have counted : ¬ (decide (refStep &&& 1 ≠ 0) = true ∨ refStep < refStep) := by decide
  rw [Slot.isStatic, if_neg counted, if_pos rfl]
  simp [apply, alloc, allocIn, single, Pool.fitting, Pool.occupy, Pool.update, Pool.vacate,
    updatePool, Slot.vacate]

/-- Each time round the block goes to its next generation. -/
theorem run_cycles (last tag : UInt16) (content : α) (generation : UInt16) (count : Nat) :
    (single last generation).run (cycles tag content generation (count + 1)) =
      single tag (generation + UInt16.ofNat (count + 1)) := by
  induction count generalizing last generation with
  | zero =>
      change ((single last generation).apply (.alloc 1 tag content)).apply
        (.release ⟨0, generation, 0⟩) = _
      rw [apply_cycle]
      rfl
  | succ count ih =>
      change ((apply _ _).apply _).run (cycles tag content (generation + 1) (count + 1)) = _
      rw [apply_cycle, ih, UInt16.add_assoc, Nat.add_comm (count + 1), UInt16.ofNat_add 1]
      rfl

/-- The number of generations is reached: the handle of the first of 65536 blocks that were freed at
one place finds the next one. -/
theorem get?_cycles :
    ((single 0 0).run (cycles 1 7 0 (65535 + 1) ++ [.alloc 1 2 9])).get? ⟨0, 0, 0⟩ = some 9 := by
  rw [run_append, run_cycles]
  rfl

end Returns

end PoolSet

end PocketScript
