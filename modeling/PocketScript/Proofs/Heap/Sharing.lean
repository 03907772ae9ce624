import Mathlib.Data.Fintype.Card
import Mathlib.Data.Fintype.Prod
import Mathlib.Logic.Relation
import PocketScript.Proofs.Heap.Storing

/-!
# Callers of a heap

Callers make blocks, store values in them, and keep references to some. As long as they hand over and
give up only references that they hold, every block is counted exactly as often as it is referred to,
whatever they ask for and whether or not there is room for it (`Heap.Shared.Exact.run`). Giving up
references ends on every heap (`Heap.release_passes`). And when the blocks that are in use refer to
each other without a cycle, they are the ones that can be reached from the references held by callers
(`Heap.Shared.Exact.live_iff_reachable`).
-/

namespace PocketScript

namespace Heap

variable {heap : Heap} {block : Handle} {content : Content} {value : Value} {α : Type}

/-! ## Passes of a release -/

/-- One pass of the loop that gives up values: it takes the first one, and puts what its block held
in its place when that was the last reference. -/
def releaseNext : PoolSet Content × List Value → PoolSet Content × List Value
  | (blocks, []) => (blocks, [])
  | (blocks, value :: rest) =>
      match value.block? with
      | none => (blocks, rest)
      | some block =>
          match (blocks.release block).1 with
          | none => ((blocks.release block).2, rest)
          | some content =>
              (releaseStorage (blocks.release block).2 content, content.heldReversed ++ rest)

theorem sumOver_perm (amount : α → Nat) {one two : List α} (same : one.Perm two) :
    sumOver amount one = sumOver amount two := by
  induction same with
  | nil => rfl
  | cons item _ ih => rw [sumOver_cons, sumOver_cons, ih]
  | swap one two rest =>
      simp only [sumOver_cons]
      omega
  | trans _ _ first second => exact first.trans second

/-- How many values blocks hold. -/
def heldValues (blocks : PoolSet Content) : Nat :=
  sumOver (·.heldReversed.length) blocks.contents

/-- A block that is freed does not hold its values any more. -/
theorem heldValues_release (blocks : PoolSet Content) (block : Handle) :
    heldValues blocks = ((blocks.release block).1.map (·.heldReversed.length)).getD 0 +
      heldValues (blocks.release block).2 := by
  rw [heldValues, sumOver_perm _ (blocks.contents_release block), sumOver_append, heldValues]
  cases (blocks.release block).1 <;> rfl

theorem heldValues_releaseStorage_le (blocks : PoolSet Content) (content : Content) :
    heldValues (releaseStorage blocks content) ≤ heldValues blocks := by
  unfold releaseStorage
  split
  · exact Nat.le_refl _
  · rw [heldValues_release blocks]
    exact Nat.le_add_left _ _

/-- The values that are pending or held by blocks. -/
def unsettled (state : PoolSet Content × List Value) : Nat := heldValues state.1 + state.2.length

/-- Each pass settles a value. -/
theorem unsettled_releaseNext_lt (blocks : PoolSet Content) (value : Value) (rest : List Value) :
    unsettled (releaseNext (blocks, value :: rest)) < unsettled (blocks, value :: rest) := by
  simp only [unsettled, releaseNext, List.length_cons]
  cases value.block? with
  | none => exact Nat.lt_succ_self _
  | some block =>
      have less := heldValues_release blocks block
      dsimp only
      cases freed : (blocks.release block).1 with
      | none =>
          dsimp only
          omega
      | some content =>
          have settled := heldValues_releaseStorage_le (blocks.release block).2 content
          rw [freed, Option.map_some, Option.getD_some] at less
          simp only [List.length_append]
          omega

/-- A pass leaves the outcome of the release as it is. -/
theorem releasePending_releaseNext (blocks : PoolSet Content) (value : Value) (rest : List Value) :
    releasePending (releaseNext (blocks, value :: rest)).1 (releaseNext (blocks, value :: rest)).2 =
      releasePending blocks (value :: rest) := by
  rw [releasePending, releaseNext]
  cases value.block? with
  | none => rfl
  | some block =>
      dsimp only
      split <;> split <;> simp_all only [reduceCtorEq, Option.some.injEq]

/-- Values are given up pass by pass, in no more passes than there are values in all. -/
theorem iterate_releaseNext {passes : Nat} {blocks : PoolSet Content} {pending : List Value}
    (enough : unsettled (blocks, pending) ≤ passes) :
    releaseNext^[passes] (blocks, pending) = (releasePending blocks pending, []) := by
  induction passes generalizing blocks pending with
  | zero =>
      cases pending with
      | nil =>
          rw [releasePending]
          rfl
      | cons value rest => simp [unsettled] at enough
  | succ passes ih =>
      cases pending with
      | nil =>
          rw [releasePending]
          exact Function.iterate_fixed rfl _
      | cons value rest =>
          have less := unsettled_releaseNext_lt blocks value rest
          rw [Function.iterate_succ_apply, ← releasePending_releaseNext]
          exact ih (Nat.le_of_lt_succ (Nat.lt_of_lt_of_le less enough))

/-- A value is given up by such passes, and they end whatever the blocks refer to. -/
theorem release_passes (heap : Heap) (value : Value) :
    releaseNext^[heldValues heap.blocks + 1] (heap.blocks, [value]) =
      ((heap.release value).blocks, []) := by
  rw [release_eq_releasePending]
  exact iterate_releaseNext (Nat.le_refl _)

/-! ## References between blocks -/

/-- How often blocks refer to a block. -/
def occurrences (heap : Heap) (block : Handle) : Nat := places block heap.references

/-- A block in use refers to another one. -/
def Contains (heap : Heap) (holder block : Handle) : Prop :=
  ∃ content, heap.get? holder = some content ∧
    ∃ reference ∈ content.references, reference.block? = some block

instance : Finite Handle :=
  Finite.of_injective (fun handle => (handle.pool.toFin, handle.generation.toFin, handle.index.toFin))
    fun one two same => by
      simp only [Prod.mk.injEq, UInt8.toFin_inj, UInt16.toFin_inj] at same
      obtain ⟨pool, generation, index⟩ := same
      cases one
      cases two
      simp_all only

/-- Without cycles there is no endless way back. -/
theorem wellFounded_contains
    (acyclic : ∀ block, ¬ Relation.TransGen heap.Contains block block) :
    WellFounded heap.Contains := by
  have : Std.Irrefl (Relation.TransGen heap.Contains) := ⟨acyclic⟩
  exact Subrelation.wf .single
    (Finite.wellFounded_of_trans_of_irrefl (Relation.TransGen heap.Contains))

/-! ## Requests -/

/-- What a caller asks of a heap. -/
inductive Request where
  | allocString (text : String)
  | allocForeign (text : String) (hostHandle : Nat)
  | allocArray (items : Array Value)
  | allocObject (properties : List (String × Value))
  | allocCell (value : Value)
  | allocClosure (target : FunctionRef) (cells : Array Value)
  | allocTimer
  | retain (value : Value)
  | release (value : Value)
  | releaseAll (values : List Value)
  | releaseBlock (block : Handle)
  | arraySet (block : Handle) (index : Nat) (value : Value)
  | objectSet (block : Handle) (key : String) (value : Value)
  | cellSet (block : Handle) (value : Value)

/-- The blocks that values refer to. -/
def blocksOf (values : List Value) : List Handle := values.filterMap Value.block?

namespace Request

/-- The references that the caller hands over or gives up. -/
def takes : Request → List Handle
  | allocArray items => blocksOf items.toList
  | allocObject properties => blocksOf (properties.map (·.2))
  | allocClosure _ cells => blocksOf cells.toList
  | releaseAll values => blocksOf values
  | allocCell value | release value | arraySet _ _ value | objectSet _ _ value
  | cellSet _ value => blocksOf [value]
  | releaseBlock block => [block]
  | allocString _ | allocForeign _ _ | allocTimer | retain _ => []

/-- The references in the result of an operation; none when it fails. -/
def answer (references : α → List Handle) : Outcome α → List Handle × Heap
  | (.ok result, heap) => (references result, heap)
  | (.error _, heap) => ([], heap)

/-- Serves a request: the references that the caller gets, and the heap that is left. A reference to
a block that is gone is none. -/
def serve (heap : Heap) : Request → List Handle × Heap
  | allocString text => answer (blocksOf [·]) (heap.allocString text)
  | allocForeign text hostHandle => answer (blocksOf [·]) (heap.allocForeign text hostHandle)
  | allocArray items => answer (blocksOf [·]) (heap.allocArray items)
  | allocObject properties => answer (blocksOf [·]) (heap.allocObject properties)
  | allocCell value => answer (blocksOf [·]) (heap.allocCell value)
  | allocClosure target cells => answer (blocksOf [·]) (heap.allocClosure target cells)
  | allocTimer => answer ([·]) heap.allocTimer
  | retain value => (if heap.isLive value then blocksOf [value] else [], heap.retain value)
  | release value => ([], heap.release value)
  | releaseAll values => ([], heap.releaseAll values)
  | releaseBlock block => ([], heap.releaseBlock block)
  | arraySet block index value => answer (fun _ => []) (heap.arraySet block index value)
  | objectSet block key value => answer (fun _ => []) (heap.objectSet block key value)
  | cellSet block value => answer (fun _ => []) (heap.cellSet block value)

end Request

/-- A heap with the references that callers hold. -/
structure Shared where
  heap : Heap
  held : List Handle

namespace Shared

variable {state after : Shared} {request : Request}

def new (sizes : List (Nat × Nat)) : Shared := ⟨Heap.new sizes, []⟩

/-- Serves a request, provided that the caller holds what it hands over or gives up. -/
def step (state : Shared) (request : Request) : Option Shared :=
  if request.takes.Subperm state.held then
    let (given, heap) := request.serve state.heap
    some ⟨heap, given ++ state.held.diff request.takes⟩
  else none

def run (state : Shared) (requests : List Request) : Option Shared := requests.foldlM step state

/-- A block that can be reached from the references that callers hold. -/
def Reachable (state : Shared) (block : Handle) : Prop :=
  ∃ root ∈ state.held, Relation.ReflTransGen state.heap.Contains root block

/-! ## Exact counts -/

/-- A reference of a caller. Of which kind the value is that it keeps makes no difference. -/
abbrev holding (block : Handle) : Reference := .value (.object block)

/-- The counts agree with the references in the heap and those of the callers. -/
def Exact (state : Shared) : Prop := state.heap.Balanced .free (state.held.map holding)

end Shared

theorem places_eq_count (block : Handle) (references : List Reference) :
    places block references = (references.filterMap Reference.block?).count block := by
  rw [places, List.count_filterMap]
  exact List.countP_congr fun reference _ => by simp

theorem blocks_map_value (values : List Value) :
    (values.map Reference.value).filterMap Reference.block? = blocksOf values := by
  rw [List.filterMap_map]
  rfl

theorem blocks_map_holding (held : List Handle) :
    (held.map Shared.holding).filterMap Reference.block? = held := by
  rw [List.filterMap_map]
  exact List.filterMap_some

/-- When nothing is asked of values, only their blocks count. -/
theorem Balanced.ofBlocks {outside other : List Reference} (balanced : heap.Balanced .free outside)
    (values : ∀ reference ∈ other, ∃ value, reference = .value value)
    (same : (outside.filterMap Reference.block?).Perm (other.filterMap Reference.block?)) :
    heap.Balanced .free other where
  sound := balanced.sound
  fits reference member := by
    rcases List.mem_append.mp member with inside | loose
    · exact balanced.fits reference (List.mem_append_left _ inside)
    · refine ⟨fun block leads => ?_, fun _ _ => trivial⟩
      obtain ⟨before, there, leads'⟩ := List.mem_filterMap.mp
        (same.mem_iff.mpr (List.mem_filterMap.mpr ⟨reference, loose, leads⟩))
      obtain ⟨kind, found, -⟩ := (balanced.mem there).live block leads'
      obtain ⟨value, rfl⟩ := values reference loose
      exact ⟨kind, found, trivial⟩
  proper := balanced.proper
  counted block content found free := by
    rw [balanced.counted block content found free]
    rw [places_append, places_append, places_eq_count _ outside, places_eq_count _ other,
      same.count_eq]

namespace Shared

variable {state after : Shared} {request : Request} {held rest : List Handle}

/-- What a caller hands over is not held by it any more. -/
theorem handOver (values : List Value) (balanced : heap.Balanced .free (held.map holding))
    (owns : (blocksOf values).Subperm held) :
    heap.Balanced .free (values.map .value ++ (held.diff (blocksOf values)).map holding) := by
  refine balanced.ofBlocks (fun reference member => ?_) ?_
  · rcases List.mem_append.mp member with given | kept
    · obtain ⟨value, -, rfl⟩ := List.mem_map.mp given
      exact ⟨value, rfl⟩
    · obtain ⟨block, -, rfl⟩ := List.mem_map.mp kept
      exact ⟨_, rfl⟩
  · rw [List.filterMap_append, blocks_map_holding, blocks_map_value, blocks_map_holding]
    exact (List.subperm_append_diff_self_of_count_le (List.subperm_ext_iff.mp owns)).symm

/-- What a caller gets it holds from then on. -/
theorem takeOver {references : List Reference}
    (balanced : heap.Balanced .free (references ++ rest.map holding)) :
    heap.Balanced .free ((references.filterMap Reference.block? ++ rest).map holding) := by
  refine balanced.ofBlocks (fun reference member => ?_) ?_
  · obtain ⟨block, -, rfl⟩ := List.mem_map.mp member
    exact ⟨_, rfl⟩
  · rw [List.filterMap_append, blocks_map_holding, blocks_map_holding]

/-- The result of an operation is held, and nothing is when it failed. -/
theorem exact_answer {outcome : Outcome α} {references : α → List Reference}
    {blocks : α → List Handle} (gives : Gives .free (rest.map holding) references outcome)
    (same : ∀ result, (references result).filterMap Reference.block? = blocks result) :
    Exact ⟨(Request.answer blocks outcome).2, (Request.answer blocks outcome).1 ++ rest⟩ := by
  obtain ⟨fault | result, heap⟩ := outcome
  · exact gives.2
  · have held := takeOver gives
    rw [same] at held
    exact held

/-- A reference to a block that is in use is one more, and one to a block that is gone is none. -/
theorem exact_retain (exact : heap.Balanced .free (held.map holding)) (value : Value) :
    (heap.retain value).Balanced .free
      (((if heap.isLive value then blocksOf [value] else []) ++ held).map holding) := by
  cases leads : value.block? with
  | none => simpa [Heap.retain, isLive, leads] using exact
  | some block =>
      cases found : heap.get? block with
      | none =>
          simpa [Heap.retain, isLive, leads, found,
            PoolSet.retain_of_get?_none exact.sound found] using exact
      | some content =>
          have fits : (Reference.value value).Fits .free heap := by
            refine ⟨fun other same => ⟨content.kind, ?_, trivial⟩, fun _ _ => trivial⟩
            rw [Reference.block?, leads, Option.some.injEq] at same
            rw [kind?, ← same, found, Option.map_some]
          have live : heap.isLive value = true := by simp [isLive, leads, found]
          rw [if_pos live, ← blocks_map_value]
          exact takeOver (exact.retainValue fits)

/-- Whatever is asked for, the counts agree afterwards with the references that there are then. -/
theorem Exact.step (exact : state.Exact) (done : state.step request = some after) :
    after.Exact := by
  obtain ⟨heap, held⟩ := state
  unfold Shared.step at done
  split at done
  case isFalse => cases done
  rename_i owns
  injection done with done
  subst done
  have single : ∀ value : Value, [Reference.value value].filterMap Reference.block? =
    blocksOf [value] := fun value => blocks_map_value [value]
  cases request with
  | allocString text => exact exact_answer (Balanced.allocString exact text) single
  | allocForeign text hostHandle =>
      exact exact_answer (Balanced.allocForeign exact text hostHandle) single
  | allocArray items => exact exact_answer (Balanced.allocArray (handOver _ exact owns)) single
  | allocObject properties =>
      exact exact_answer (Balanced.allocObject (handOver _ exact owns)) single
  | allocCell value => exact exact_answer (Balanced.allocCell (handOver _ exact owns)) single
  | allocClosure target cells =>
      exact exact_answer
        (Balanced.allocClosure (handOver _ exact owns) trivial fun _ _ => trivial) single
  | allocTimer => exact exact_answer (Balanced.allocTimer exact) fun _ => rfl
  | retain value => exact exact_retain exact value
  | release value => exact Balanced.release (handOver _ exact owns)
  | releaseAll values => exact Balanced.releaseAll (handOver _ exact owns)
  | releaseBlock block =>
      exact Balanced.releaseBlock (handOver [.object block] exact owns) rfl
  | arraySet block index value =>
      exact exact_answer (Balanced.arraySet (handOver _ exact owns) block index) fun _ => rfl
  | objectSet block key value =>
      exact exact_answer (Balanced.objectSet (handOver _ exact owns) block key) fun _ => rfl
  | cellSet block value =>
      exact exact_answer (Balanced.cellSet (handOver _ exact owns) block) fun _ => rfl

theorem exact_new (sizes : List (Nat × Nat)) : (new sizes).Exact := balanced_new sizes

theorem Exact.run {requests : List Request} (exact : state.Exact)
    (done : state.run requests = some after) : after.Exact := by
  induction requests generalizing state with
  | nil =>
      injection done with done
      exact done ▸ exact
  | cons request rest ih =>
      rw [Shared.run, List.foldlM_cons, Option.bind_eq_bind, Option.bind_eq_some_iff] at done
      obtain ⟨between, first, done⟩ := done
      exact ih (exact.step first) done

/-- A block is counted once for each caller that holds it, and once for each place in a block. -/
theorem Exact.refCount {content : Content} (exact : state.Exact)
    (found : state.heap.get? block = some content)
    (counted : state.heap.blocks.isStatic block = false) :
    state.heap.blocks.refCount block = state.held.count block + state.heap.occurrences block := by
  rw [exact.counted block content found counted, places_append, places_eq_count _ (List.map _ _),
    blocks_map_holding, Nat.add_comm]
  rfl

/-! ## Reachable blocks -/

/-- What is held by a caller or by a block is in use. -/
theorem Exact.isSome_of_held (exact : state.Exact) (member : block ∈ state.held) :
    (state.heap.get? block).isSome = true := by
  obtain ⟨kind, there, -⟩ := (Balanced.mem exact (List.mem_map_of_mem member)).live block rfl
  obtain ⟨content, found, -⟩ := get?_of_kind? there
  rw [found, Option.isSome_some]

theorem Exact.isSome_of_contains (exact : state.Exact) {holder : Handle}
    (contains : state.heap.Contains holder block) : (state.heap.get? block).isSome = true := by
  obtain ⟨content, found, reference, member, leads⟩ := contains
  have inside : reference ∈ state.heap.references :=
    List.mem_flatMap.mpr ⟨content, PoolSet.mem_contents found, member⟩
  obtain ⟨kind, there, -⟩ :=
    (Balanced.fits exact reference (List.mem_append_left _ inside)).live block leads
  obtain ⟨other, found, -⟩ := get?_of_kind? there
  rw [found, Option.isSome_some]

/-- A block in use is held by a caller or by a block. -/
theorem Exact.holder {content : Content} (exact : state.Exact)
    (found : state.heap.get? block = some content)
    (counted : state.heap.blocks.isStatic block = false) :
    block ∈ state.held ∨ ∃ holder, state.heap.Contains holder block := by
  have positive := PoolSet.refCount_pos (Balanced.sound exact) found counted
  rw [exact.refCount found counted] at positive
  by_cases member : block ∈ state.held
  · exact .inl member
  · rw [List.count_eq_zero_of_not_mem member, Nat.zero_add] at positive
    obtain ⟨reference, inside, leads⟩ := List.countP_pos_iff.mp positive
    obtain ⟨content, member, own⟩ := List.mem_flatMap.mp inside
    obtain ⟨holder, there⟩ := PoolSet.exists_get? (Balanced.sound exact) member
    exact .inr ⟨holder, content, there, reference, own, of_decide_eq_true leads⟩

/-- Without cycles, and without blocks that stay for ever, the blocks in use are the ones that can be
reached. From a block that no caller holds the way back leads to one that is. -/
theorem Exact.live_iff_reachable (exact : state.Exact)
    (acyclic : ∀ block, ¬ Relation.TransGen state.heap.Contains block block)
    (counted : ∀ block, (state.heap.get? block).isSome = true →
      state.heap.blocks.isStatic block = false) (block : Handle) :
    (state.heap.get? block).isSome = true ↔ state.Reachable block := by
  constructor
  · intro live
    induction block using (wellFounded_contains acyclic).induction with
    | h block ih =>
        obtain ⟨content, found⟩ := Option.isSome_iff_exists.mp live
        rcases exact.holder found (counted block live) with member | ⟨holder, contains⟩
        · exact ⟨block, member, .refl⟩
        · obtain ⟨other, there, -⟩ := id contains
          obtain ⟨root, member, path⟩ := ih holder contains (by rw [there, Option.isSome_some])
          exact ⟨root, member, path.tail contains⟩
  · rintro ⟨root, member, path⟩
    cases path with
    | refl => exact exact.isSome_of_held member
    | tail _ last => exact exact.isSome_of_contains last

/-- Callers that hand over and give up only what they hold keep the counts exact, every release comes
to an end, and unless there are cycles or blocks that stay for ever, exactly those blocks are in use
that can be reached. -/
theorem run_exact {sizes : List (Nat × Nat)} {requests : List Request}
    (done : (new sizes).run requests = some state) :
    (∀ block content, state.heap.get? block = some content →
      state.heap.blocks.isStatic block = false →
        state.heap.blocks.refCount block =
          state.held.count block + state.heap.occurrences block) ∧
    (∀ (heap : Heap) (value : Value), releaseNext^[heldValues heap.blocks + 1]
      (heap.blocks, [value]) = ((heap.release value).blocks, [])) ∧
    ((∀ block, ¬ Relation.TransGen state.heap.Contains block block) →
      (∀ block, (state.heap.get? block).isSome = true →
        state.heap.blocks.isStatic block = false) →
      ∀ block, (state.heap.get? block).isSome = true ↔ state.Reachable block) := by
  have exact : state.Exact := (exact_new sizes).run done
  exact ⟨fun _ _ found counted => exact.refCount found counted, release_passes,
    exact.live_iff_reachable⟩

/-- A cell takes a text over, which is reached through the cell from then on. -/
theorem run_exact_cell : ∃ state, (new [(16, 2)]).run
      [.allocForeign "a" 7, .allocCell (.foreign ⟨0, 0, 0⟩)] = some state ∧
    state.held = [⟨0, 0, 1⟩] ∧
    state.heap.blocks.refCount ⟨0, 0, 0⟩ = 0 + state.heap.occurrences ⟨0, 0, 0⟩ ∧
    state.Reachable ⟨0, 0, 0⟩ := by
  have start : new [(16, 2)] =
      ⟨⟨⟨[{ blockSize := 16, slots := #[{}, {}], free := [0, 1] }]⟩⟩, []⟩ := by
    simp only [new, Heap.new, PoolSet.new, Pool.new]
    simp
    exact ⟨rfl, rfl⟩
  obtain ⟨state, done, held, found, static, contents, slots⟩ : ∃ state, (new [(16, 2)]).run
      [.allocForeign "a" 7, .allocCell (.foreign ⟨0, 0, 0⟩)] = some state ∧
      state.held = [⟨0, 0, 1⟩] ∧ state.heap.get? ⟨0, 0, 0⟩ = some (.foreign "a" 7) ∧
      state.heap.blocks.isStatic ⟨0, 0, 0⟩ = false ∧
      state.heap.blocks.contents = [.foreign "a" 7, .cell (.foreign ⟨0, 0, 0⟩)] ∧
      ∀ pool ∈ state.heap.blocks.pools, ∀ slot ∈ pool.slots, slot.isStatic = false := by
    rw [start]
    exact ⟨_, rfl, rfl, rfl, rfl, rfl, by decide⟩
  have leads : ∀ one two, state.heap.Contains one two → one ≠ ⟨0, 0, 0⟩ ∧ two = ⟨0, 0, 0⟩ := by
    rintro one two ⟨content, there, reference, member, same⟩
    have inside := PoolSet.mem_contents there
    rw [contents] at inside
    rcases List.mem_cons.mp inside with rfl | inside
    · cases member
    · rw [List.mem_singleton] at inside
      subst inside
      rw [List.mem_singleton.mp member] at same
      refine ⟨?_, (Option.some.inj same).symm⟩
      rintro rfl
      rw [found] at there
      cases there
  have exact := run_exact done
  refine ⟨state, done, held, ?_, ?_⟩
  · rw [exact.1 ⟨0, 0, 0⟩ _ found static, held]
    rfl
  · refine (exact.2.2 ?_ ?_ _).mp (by rw [found, Option.isSome_some])
    · intro block cycle
      obtain ⟨_, first, -⟩ := Relation.TransGen.head'_iff.mp cycle
      obtain ⟨_, -, last⟩ := Relation.TransGen.tail'_iff.mp cycle
      exact (leads _ _ first).1 (leads _ _ last).2
    · intro block live
      obtain ⟨slot, there, -⟩ := Option.bind_eq_some_iff.mp (Option.eq_some_of_isSome live)
      obtain ⟨pool, poolFound, slotFound⟩ := PoolSet.slot?_eq_some there
      rw [PoolSet.isStatic, there]
      exact slots pool (List.mem_of_getElem? poolFound) slot (Array.mem_of_getElem? slotFound)

end Shared

end Heap

end PocketScript
