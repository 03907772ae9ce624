import PocketScript.Heap
import PocketScript.Proofs.Heap.Pools

/-!
# Balanced heaps

Every place that keeps a block alive counts as a reference to it: a value on the stack, in a global
or in another block, an array's block of elements, a timer's block. A heap is balanced with the
references from outside it (`Heap.Balanced`) when each block that may be freed is counted exactly as
often as it is referred to, and no reference leads to a block that was freed or that holds something
of another kind. Counting a reference adds it (`Heap.Balanced.retain`), and giving one up takes it
away, with all that goes with it (`Heap.Balanced.release`).
-/

namespace PocketScript

/-- What never changes of the content of a block while the block is used. -/
inductive Kind where
  | text
  | foreign
  | array
  | object
  | storage
  | cell
  | closure (target : FunctionRef) (cells : Nat)
  | timer
  deriving DecidableEq

namespace Content

def kind : Content → Kind
  | text _ => .text
  | foreign _ _ => .foreign
  | array _ _ _ => .array
  | object _ _ _ => .object
  | storage => .storage
  | cell _ => .cell
  | closure target cells => .closure target cells.size
  | timer => .timer

end Content

/-- The kind of what a block holds. -/
def Heap.kind? (heap : Heap) (block : Handle) : Option Kind := (heap.get? block).map Content.kind

/-- Something that keeps a block alive. -/
inductive Reference where
  | value (value : Value)
  /-- The room for the elements of an array or an object. -/
  | storage (block : Handle)
  | timer (block : Handle)
  /-- The closure that a frame runs; it is known which function that is. -/
  | callee (block : Handle) (target : FunctionRef) (cells : Nat)
  deriving DecidableEq

/-- Values of this kind refer to blocks of that kind. -/
def Value.Suits : Value → Kind → Prop
  | string _, .text | foreign _, .foreign | array _, .array | object _, .object | cell _, .cell
  | closure _, .closure _ _ => True
  | _, _ => False

namespace Reference

def block? : Reference → Option Handle
  | .value held => held.block?
  | .storage block | .timer block | .callee block _ _ => some block

end Reference

/-- The functions that may be called with so many captured variables. -/
abbrev Callable := FunctionRef → Nat → Prop

/-- What is asked of values, apart from their being counted. -/
structure Rules where
  callable : Callable
  /-- The kinds of blocks that a value may refer to. -/
  suits : Value → Kind → Prop
  own : ∀ value kind, value.Suits kind → suits value kind
  /-- What a closure may capture. -/
  captures : Value → Prop

namespace Rules

/-- Values are of the kinds of their blocks, and closures capture variables. -/
abbrev typed (callable : Callable) : Rules where
  callable
  suits := Value.Suits
  own _ _ suits := suits
  captures value := value.isCell = true

/-- What some rules allow is allowed by others. -/
structure Stricter (rules other : Rules) : Prop where
  callable : ∀ target cells, rules.callable target cells → other.callable target cells
  suits : ∀ value kind, rules.suits value kind → other.suits value kind
  captures : ∀ value, rules.captures value → other.captures value

theorem typed_stricter {one two : Callable} (more : ∀ target cells, one target cells →
    two target cells) : (typed one).Stricter (typed two) where
  callable := more
  suits _ _ suits := suits
  captures _ captures := captures

/-- Nothing is asked of values. -/
abbrev free : Rules where
  callable _ _ := True
  suits _ _ := True
  own _ _ _ := trivial
  captures _ := True

end Rules

/-- The reference leads to blocks of a kind. -/
def Reference.Suits (rules : Rules) : Reference → Kind → Prop
  | .value held, kind => rules.suits held kind
  | .storage _, kind => kind = .storage
  | .timer _, kind => kind = .timer
  | .callee _ target cells, kind => kind = .closure target cells

/-- A reference leads to a block of its kind, and a function may be called without captures. -/
structure Reference.Fits (rules : Rules) (heap : Heap) (reference : Reference) : Prop where
  live : ∀ block, reference.block? = some block →
    ∃ kind, heap.kind? block = some kind ∧ reference.Suits rules kind
  function : ∀ target, reference = .value (.function target) → rules.callable target 0

namespace Content

/-- The references that the content owns, the one to its elements' block first. -/
def references (content : Content) : List Reference :=
  content.storage?.toList.map .storage ++ content.heldReversed.map .value

/-- No array has more items than there is room for, and a closure captures cells, enough of them for
its function. -/
def Proper (rules : Rules) : Content → Prop
  | array items capacity _ => items.size ≤ capacity
  | closure target cells => rules.callable target cells.size ∧ ∀ cell ∈ cells, rules.captures cell
  | _ => True

end Content

/-- How many references lead to a block. -/
def places (block : Handle) (references : List Reference) : Nat :=
  references.countP (·.block? = some block)

theorem places_append (block : Handle) (one two : List Reference) :
    places block (one ++ two) = places block one + places block two :=
  List.countP_append

theorem places_cons (block : Handle) (reference : Reference) (rest : List Reference) :
    places block (reference :: rest) =
      places block rest + if reference.block? = some block then 1 else 0 := by
  simp only [places, List.countP_cons, decide_eq_true_eq]

theorem places_perm {one two : List Reference} (same : one.Perm two) (block : Handle) :
    places block one = places block two :=
  same.countP_eq _

/-- A block that a reference leads to is referred to. -/
theorem places_pos {references : List Reference} {reference : Reference} {block : Handle}
    (member : reference ∈ references) (leads : reference.block? = some block) :
    0 < places block references :=
  List.countP_pos_iff.mpr ⟨reference, member, decide_eq_true leads⟩

/-- References are the same ones when each is there as often. -/
theorem perm_of_count {one two : List Reference} (same : ∀ reference, one.count reference =
    two.count reference) : one.Perm two :=
  List.perm_iff_count.mpr same

namespace Heap

variable {rules : Rules} {heap after : Heap} {outside : List Reference}
  {reference : Reference} {block : Handle} {content : Content} {value : Value}

/-- The references that the blocks hold. -/
def references (heap : Heap) : List Reference := heap.blocks.contents.flatMap Content.references

/-- The counts of a heap agree with the references in it and the ones from outside, and all these
references are good. -/
structure Balanced (rules : Rules) (heap : Heap) (outside : List Reference) : Prop where
  sound : heap.blocks.Sound
  fits : ∀ reference ∈ heap.references ++ outside, reference.Fits rules heap
  proper : ∀ content ∈ heap.blocks.contents, content.Proper rules
  counted : ∀ block content, heap.get? block = some content →
    heap.blocks.isStatic block = false →
      heap.blocks.refCount block = places block (heap.references ++ outside)

/-! ## Which references there are -/

theorem Balanced.perm (balanced : heap.Balanced rules outside) {other : List Reference}
    (same : outside.Perm other) : heap.Balanced rules other where
  sound := balanced.sound
  fits reference member :=
    balanced.fits reference ((same.append_left heap.references).mem_iff.mpr member)
  proper := balanced.proper
  counted block content found free := by
    rw [balanced.counted block content found free]
    exact places_perm (same.append_left _) block

/-- Each of them fits. -/
theorem Balanced.mem (balanced : heap.Balanced rules outside) (member : reference ∈ outside) :
    reference.Fits rules heap :=
  balanced.fits reference (List.mem_append_right _ member)

/-- A reference may be seen as another one to the same block. -/
theorem Balanced.exchange (balanced : heap.Balanced rules (reference :: outside))
    {other : Reference} (same : other.block? = reference.block?)
    (fits : other.Fits rules heap) : heap.Balanced rules (other :: outside) where
  sound := balanced.sound
  fits another member := by
    rcases List.mem_append.mp member with inside | loose
    · exact balanced.fits another (List.mem_append_left _ inside)
    · rcases List.mem_cons.mp loose with rfl | loose
      · exact fits
      · exact balanced.mem (List.mem_cons_of_mem _ loose)
  proper := balanced.proper
  counted block content found free := by
    rw [balanced.counted block content found free]
    simp only [places_append, places_cons, same]

/-- What refers to no block may be added. -/
theorem Balanced.add (balanced : heap.Balanced rules outside) (none : reference.block? = none)
    (fits : reference.Fits rules heap) : heap.Balanced rules (reference :: outside) where
  sound := balanced.sound
  fits another member := by
    rcases List.mem_append.mp member with inside | loose
    · exact balanced.fits another (List.mem_append_left _ inside)
    · rcases List.mem_cons.mp loose with rfl | loose
      · exact fits
      · exact balanced.mem loose
  proper := balanced.proper
  counted block content found free := by
    rw [balanced.counted block content found free]
    simp only [places_append, places_cons, none, reduceCtorEq, if_false, Nat.add_zero]

/-- What refers to no block may be left out. -/
theorem Balanced.omit (balanced : heap.Balanced rules (reference :: outside))
    (none : reference.block? = none) : heap.Balanced rules outside where
  sound := balanced.sound
  fits another member := by
    rcases List.mem_append.mp member with inside | loose
    · exact balanced.fits another (List.mem_append_left _ inside)
    · exact balanced.mem (List.mem_cons_of_mem _ loose)
  proper := balanced.proper
  counted block content found free := by
    rw [balanced.counted block content found free]
    simp only [places_append, places_cons, none, reduceCtorEq, if_false, Nat.add_zero]

/-- What fits stricter rules fits. -/
theorem Reference.Fits.mono {other : Rules} (fits : reference.Fits rules heap)
    (more : rules.Stricter other) : reference.Fits other heap where
  live block leads := by
    obtain ⟨kind, there, suits⟩ := fits.live block leads
    refine ⟨kind, there, ?_⟩
    cases reference with
    | value held => exact more.suits held kind suits
    | _ => exact suits
  function target same := more.callable target 0 (fits.function target same)

/-- Less may be asked of values, and more functions may become known. -/
theorem Balanced.mono {other : Rules} (balanced : heap.Balanced rules outside)
    (more : rules.Stricter other) : heap.Balanced other outside where
  sound := balanced.sound
  fits reference member := Reference.Fits.mono (balanced.fits reference member) more
  proper content member := by
    have proper := balanced.proper content member
    cases content with
    | closure target cells =>
        exact ⟨more.callable _ _ proper.1, fun cell here => more.captures cell (proper.2 cell here)⟩
    | _ => exact proper
  counted := balanced.counted

/-- A reference fits in any heap in which its block is of the same kind. -/
theorem Reference.Fits.of_kind (fits : reference.Fits rules heap)
    (same : ∀ block, reference.block? = some block → after.kind? block = heap.kind? block) :
    reference.Fits rules after where
  live block leads := by
    obtain ⟨kind, there, suits⟩ := fits.live block leads
    exact ⟨kind, (same block leads).trans there, suits⟩
  function := fits.function

/-! ## Counting references -/

theorem kind?_of_get? {blocks : PoolSet Content}
    (same : blocks.get? block = heap.blocks.get? block) :
    (Heap.mk blocks).kind? block = heap.kind? block := by
  unfold kind? get?
  rw [same]

/-- Counts that stay the same. -/
theorem counts_of_counter {blocks : PoolSet Content}
    (same : blocks.counter block = heap.blocks.counter block) :
    blocks.isStatic block = heap.blocks.isStatic block ∧
      blocks.refCount block = heap.blocks.refCount block := by
  rw [PoolSet.refCount_eq, PoolSet.refCount_eq, same, Bool.eq_iff_iff,
    PoolSet.isStatic_eq_true_iff, PoolSet.isStatic_eq_true_iff, same]
  exact ⟨.rfl, rfl⟩

/-- A heap in which the count of one block differs is balanced when that count is right. -/
theorem Balanced.recounted (balanced : heap.Balanced rules outside) {blocks : PoolSet Content}
    (recounted : PoolSet.Recounted block heap.blocks blocks) {other : List Reference}
    (fits : ∀ reference ∈ other, reference.Fits rules heap)
    (same : ∀ another, another ≠ block → places another other = places another outside)
    (right : blocks.isStatic block = false → blocks.refCount block =
      places block (heap.references ++ other)) :
    (Heap.mk blocks).Balanced rules other := by
  have held : (Heap.mk blocks).references.Perm heap.references :=
    recounted.contents.flatMap_right _
  refine ⟨recounted.sound, fun reference member => ?_, fun content member => ?_,
    fun another content found free => ?_⟩
  · apply Reference.Fits.of_kind _ fun block _ => kind?_of_get? (recounted.get? block)
    rcases List.mem_append.mp member with inside | loose
    · exact balanced.fits reference (List.mem_append_left _ (held.mem_iff.mp inside))
    · exact fits reference loose
  · exact balanced.proper content (recounted.contents.mem_iff.mp member)
  · rw [places_perm (held.append_right other)]
    by_cases here : another = block
    · subst here
      exact right free
    · obtain ⟨static, count⟩ := counts_of_counter (recounted.counter another here)
      have before : heap.get? another = some content := (recounted.get? another).symm.trans found
      rw [count, balanced.counted another content before (static ▸ free), places_append,
        places_append, same another here]

/-- A block of a kind has a content. -/
theorem get?_of_kind? {kind : Kind} (there : heap.kind? block = some kind) :
    ∃ content, heap.get? block = some content ∧ content.kind = kind :=
  Option.map_eq_some_iff.mp there

/-- A reference to a used block that is counted is there from now on. -/
theorem Balanced.retain (balanced : heap.Balanced rules outside)
    (leads : reference.block? = some block) (fits : reference.Fits rules heap) :
    (Heap.mk (heap.blocks.retain block)).Balanced rules (reference :: outside) := by
  obtain ⟨kind, there, -⟩ := fits.live block leads
  obtain ⟨content, found, -⟩ := get?_of_kind? there
  obtain ⟨recounted, counted⟩ := PoolSet.retain_cases balanced.sound found
  refine balanced.recounted recounted (fun another member => ?_) (fun another apart => ?_)
    fun free => ?_
  · rcases List.mem_cons.mp member with rfl | member
    · exact fits
    · exact balanced.mem member
  · rw [places_cons, leads, if_neg fun same => apart (Option.some.inj same).symm, Nat.add_zero]
  · obtain ⟨wasFree, more⟩ := counted free
    rw [more, balanced.counted block content found wasFree]
    simp only [places_append, places_cons, leads, if_true]
    omega

/-- What is left when a reference is given up: less by one, or what the block had held in its
place. -/
theorem Balanced.drop (balanced : heap.Balanced rules (reference :: outside))
    (leads : reference.block? = some block) :
    (∃ blocks, heap.blocks.release block = (none, blocks) ∧
      (Heap.mk blocks).Balanced rules outside) ∨
    ∃ content blocks, heap.blocks.release block = (some content, blocks) ∧
      heap.get? block = some content ∧
        (Heap.mk blocks).Balanced rules (content.references ++ outside) := by
  obtain ⟨kind, there, -⟩ := (balanced.mem List.mem_cons_self).live block leads
  obtain ⟨content, found, -⟩ := get?_of_kind? there
  have rest : ∀ another ∈ outside, another.Fits rules heap := fun another member =>
    balanced.mem (List.mem_cons_of_mem _ member)
  have elsewhere : ∀ another, another ≠ block →
      places another outside = places another (reference :: outside) := by
    intro another apart
    rw [places_cons, leads, if_neg fun same => apart (Option.some.inj same).symm, Nat.add_zero]
  rcases PoolSet.release_cases balanced.sound found with ⟨static, kept⟩ |
    ⟨free, one, blocks, given, emptied⟩ | ⟨free, blocks, kept, recounted, stillFree, less⟩
  · refine .inl ⟨_, kept, balanced.recounted (.refl balanced.sound block) rest elsewhere
      fun free => ?_⟩
    rw [static] at free
    cases free
  · refine .inr ⟨content, blocks, given, found, ?_⟩
    have held : heap.references.Perm (content.references ++ (Heap.mk blocks).references) :=
      emptied.contents.flatMap_right _
    -- The one reference that was counted is the one given up, so no other leads to the block.
    have alone := balanced.counted block content found free
    simp only [one, places_append, places_cons, leads, if_true, places_perm held] at alone
    have apart : ∀ another ∈ content.references ++ (Heap.mk blocks).references ++ outside,
        another.block? ≠ some block := by
      intro another member same
      have positive := places_pos member same
      simp only [places_append] at positive
      omega
    have all : ∀ another ∈ content.references ++ (Heap.mk blocks).references ++ outside,
        another.Fits rules (Heap.mk blocks) := by
      intro another member
      have fits : another.Fits rules heap := by
        rcases List.mem_append.mp member with inside | loose
        · exact balanced.fits another (List.mem_append_left _ (held.mem_iff.mpr inside))
        · exact rest another loose
      refine Reference.Fits.of_kind fits fun other same => kind?_of_get? ?_
      exact emptied.others.get? other fun equal => apart another member (equal ▸ same)
    refine ⟨emptied.sound, fun another member => all another ?_, fun other member => ?_,
      fun other content' present free' => ?_⟩
    · simp only [List.mem_append] at member ⊢
      rcases member with inside | own | loose
      · exact .inl (.inr inside)
      · exact .inl (.inl own)
      · exact .inr loose
    · exact balanced.proper other (emptied.contents.mem_iff.mpr (List.mem_cons_of_mem _ member))
    · have different : other ≠ block := by
        rintro rfl
        exact absurd (emptied.gone.symm.trans present) (Option.some_ne_none _).symm
      obtain ⟨static, count⟩ := counts_of_counter (emptied.others.counter other different)
      have before : heap.get? other = some content' :=
        (emptied.others.get? other different).symm.trans present
      have counted := balanced.counted other content' before (static ▸ free')
      have apart : ¬ reference.block? = some other := fun same =>
        different (Option.some.inj (same.symm.trans leads))
      simp only [places_append, places_cons, if_neg apart, places_perm held] at counted ⊢
      omega
  · refine .inl ⟨blocks, kept, balanced.recounted recounted rest elsewhere fun _ => ?_⟩
    have counted := balanced.counted block content found free
    simp only [places_append, places_cons, leads, if_true] at counted ⊢
    omega

/-! ## Giving references up -/

section Pending

variable {blocks : PoolSet Content}

theorem releasePending_of_none (none : value.block? = none) (rest : List Value) :
    releasePending blocks (value :: rest) = releasePending blocks rest := by
  rw [releasePending, none]

theorem releasePending_of_kept (leads : value.block? = some block)
    (kept : (blocks.release block).1 = none) (rest : List Value) :
    releasePending blocks (value :: rest) = releasePending (blocks.release block).2 rest := by
  rw [releasePending, leads]
  dsimp only
  split
  · rfl
  · rename_i freed
    rw [kept] at freed
    cases freed

theorem releasePending_of_freed (leads : value.block? = some block)
    (freed : (blocks.release block).1 = some content) (rest : List Value) :
    releasePending blocks (value :: rest) =
      releasePending (releaseStorage (blocks.release block).2 content)
        (content.heldReversed ++ rest) := by
  rw [releasePending, leads]
  dsimp only
  split
  · rename_i kept
    rw [freed] at kept
    cases kept
  · rename_i freed'
    rw [freed] at freed'
    cases freed'
    rfl

/-- A value is released with all that it leads to alone. -/
theorem release_eq_releasePending (heap : Heap) (value : Value) :
    heap.release value = ⟨releasePending heap.blocks [value]⟩ := by
  unfold release releaseBlock
  cases leads : value.block? with
  | none => rw [releasePending_of_none leads, releasePending]
  | some block =>
      dsimp only
      split
      · rename_i blocks given
        have kept : (heap.blocks.release block).1 = none := by rw [given]
        rw [releasePending_of_kept leads kept, given, releasePending]
      · rename_i content blocks given
        have freed : (heap.blocks.release block).1 = some content := by rw [given]
        rw [releasePending_of_freed leads freed, given, List.append_nil]
        rfl

end Pending

/-- The block with the elements of some content holds nothing itself. -/
theorem Balanced.releaseStorage (content : Content) {blocks : PoolSet Content}
    (balanced : (Heap.mk blocks).Balanced rules
      (content.storage?.toList.map .storage ++ outside)) :
    (Heap.mk (releaseStorage blocks content)).Balanced rules outside := by
  unfold Heap.releaseStorage
  cases own : content.storage? with
  | none => simpa [own] using balanced
  | some storage =>
      rw [own] at balanced
      rcases balanced.drop rfl with ⟨blocks, kept, left⟩ | ⟨held, blocks, given, found, left⟩
      · simpa [kept] using left
      · obtain ⟨kind, there, rfl⟩ := (balanced.mem List.mem_cons_self).live storage rfl
        have empty : held.references = [] := by
          rw [kind?, found, Option.map_some, Option.some.injEq] at there
          cases held with
          | storage => rfl
          | _ => cases there
        simp only [empty, List.nil_append] at left
        simpa [given] using left

/-- Values that are released leave the others. -/
theorem Balanced.releasePending {blocks : PoolSet Content} {pending : List Value}
    (balanced : (Heap.mk blocks).Balanced rules (pending.map .value ++ outside)) :
    (Heap.mk (releasePending blocks pending)).Balanced rules outside := by
  induction blocks, pending using Heap.releasePending.induct with
  | case1 blocks =>
      rw [Heap.releasePending]
      exact balanced
  | case2 blocks value rest none ih =>
      rw [releasePending_of_none none]
      exact ih (balanced.omit none)
  | case3 blocks value rest block leads kept ih =>
      rw [releasePending_of_kept leads kept]
      rcases balanced.drop leads with ⟨after, same, left⟩ | ⟨content, after, given, -, -⟩
      · apply ih
        rw [same]
        exact left
      · rw [given] at kept
        cases kept
  | case4 blocks value rest block leads content freed ih =>
      rw [releasePending_of_freed leads freed]
      rcases balanced.drop leads with ⟨after, same, -⟩ | ⟨content', after, given, -, left⟩
      · rw [same] at freed
        cases freed
      · apply ih
        apply Balanced.releaseStorage
        rw [given] at freed ⊢
        injection freed with equal
        subst equal
        simpa [Content.references, List.append_assoc] using left

/-- Content that is given up gives up what it owns. -/
theorem Balanced.releaseContent (balanced : heap.Balanced rules (content.references ++ outside)) :
    (heap.releaseContent content).Balanced rules outside := by
  apply Balanced.releasePending
  apply Balanced.releaseStorage
  simpa [Content.references, List.append_assoc] using balanced

/-- A reference to a block that is given up is gone. -/
theorem Balanced.releaseBlock (balanced : heap.Balanced rules (reference :: outside))
    (leads : reference.block? = some block) :
    (heap.releaseBlock block).Balanced rules outside := by
  unfold Heap.releaseBlock
  rcases balanced.drop leads with ⟨blocks, kept, left⟩ | ⟨content, blocks, given, -, left⟩
  · rw [kept]
    exact left
  · rw [given]
    exact left.releaseContent

/-- A balanced heap may release a reference. -/
theorem Balanced.release (balanced : heap.Balanced rules (.value value :: outside)) :
    (heap.release value).Balanced rules outside := by
  unfold Heap.release
  cases leads : value.block? with
  | none => exact balanced.omit leads
  | some block => exact balanced.releaseBlock leads

/-- Or several. -/
theorem Balanced.releaseAll {values : List Value}
    (balanced : heap.Balanced rules (values.map .value ++ outside)) :
    (heap.releaseAll values).Balanced rules outside := by
  induction values generalizing heap with
  | nil => exact balanced
  | cons value rest ih => exact ih balanced.release

/-- A value that is known to be good may be kept once more. -/
theorem Balanced.retainValue (balanced : heap.Balanced rules outside)
    (fits : (Reference.value value).Fits rules heap) :
    (heap.retain value).Balanced rules (.value value :: outside) := by
  unfold Heap.retain
  cases leads : value.block? with
  | none => exact balanced.add leads fits
  | some block => exact balanced.retain leads fits

end Heap

end PocketScript
