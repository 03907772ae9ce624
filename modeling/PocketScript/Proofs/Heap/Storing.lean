import PocketScript.Proofs.Heap.Balance

/-!
# Taking and filling blocks

Whoever makes a block or stores something in one hands over the references to what it stores. The
block takes them over, or they are given up when that fails, so the heap is balanced either way
(`Heap.Gives`). What a store replaces is given up as well. A store in an array and one in an object go
the same ways (`Heap.Ends`), so each property of a heap is carried through both at once.
-/

namespace PocketScript

/-- The fault does not mean that code is malformed or that the stack has no room. -/
def Fault.isOrdinary : Fault → Bool
  | stackOverflow | stackUnderflow | invalidOpcode _ | invalidOperand => false
  | _ => true

namespace Heap

variable {α : Type} {rules : Rules} {heap after : Heap} {outside given taken : List Reference}
  {reference : Reference} {block : Handle} {content old new : Content} {value : Value}

/-- An outcome leaves the heap balanced, with the references of its result; when it is a fault, with
those from outside only. -/
def Gives (rules : Rules) (outside : List Reference) (references : α → List Reference)
    (outcome : Outcome α) : Prop :=
  match outcome with
  | (.ok result, heap) => heap.Balanced rules (references result ++ outside)
  | (.error fault, heap) => fault.isOrdinary = true ∧ heap.Balanced rules outside

/-! ## Replacing what a block holds -/

/-- The content of a block may be replaced by one of the same kind; what the new content owns comes
from the old one or is given, and what it does not own is taken out. -/
theorem Balanced.put (given taken : List Reference) (new : Content)
    (balanced : heap.Balanced rules (given ++ outside))
    (found : heap.get? block = some old) (kept : new.kind = old.kind)
    (proper : new.Proper rules)
    (same : (old.references ++ given).Perm (new.references ++ taken)) :
    (heap.put block new).Balanced rules (taken ++ outside) := by
  have replaced := PoolSet.replaced_put balanced.sound found new
  obtain ⟨rest, before, behind⟩ := replaced.contents
  have kinds : ∀ other, (heap.put block new).kind? other = heap.kind? other := by
    intro other
    by_cases here : other = block
    · rw [here, kind?, kind?, found]
      change ((heap.blocks.put block new).get? block).map Content.kind = _
      rw [replaced.get?, Option.map_some, Option.map_some, kept]
    · exact congrArg (Option.map Content.kind) (replaced.others other here)
  have held : heap.references.Perm (old.references ++ rest.flatMap Content.references) :=
    before.flatMap_right _
  have holds : (heap.put block new).references.Perm
      (new.references ++ rest.flatMap Content.references) := behind.flatMap_right _
  have all : ((heap.put block new).references ++ (taken ++ outside)).Perm
      (heap.references ++ (given ++ outside)) := by
    apply perm_of_count
    intro reference
    have one := held.count_eq reference
    have two := holds.count_eq reference
    have three := same.count_eq reference
    simp only [List.count_append] at *
    omega
  refine ⟨replaced.sound, fun reference member => ?_, fun content member => ?_,
    fun other content there free => ?_⟩
  · exact Reference.Fits.of_kind (balanced.fits reference (all.mem_iff.mp member))
      fun other _ => kinds other
  · rcases List.mem_cons.mp (behind.mem_iff.mp member) with rfl | member
    · exact proper
    · exact balanced.proper content (before.mem_iff.mpr (List.mem_cons_of_mem _ member))
  · obtain ⟨static, count⟩ := counts_of_counter (replaced.counter other)
    obtain ⟨content', before, -⟩ := get?_of_kind?
      ((kinds other).symm.trans (congrArg (Option.map Content.kind) there))
    rw [places_perm all, ← balanced.counted other content' before (static.symm.trans free)]
    exact count

/-! ## New blocks -/

/-- A new block owns what its content holds, and nothing refers to it but the one who asked. -/
theorem Balanced.allocSized (content : Content)
    (balanced : heap.Balanced rules (content.references ++ outside)) (proper : content.Proper rules) (size : Nat) :
    (∃ block after, heap.allocSized size content = (.ok block, after) ∧
      after.get? block = some content ∧
        ∀ reference : Reference, reference.block? = some block → reference.Suits rules content.kind →
          after.Balanced rules (reference :: outside)) ∨
    ∃ after, heap.allocSized size content = (.error .outOfMemory, after) ∧
      after.Balanced rules outside := by
  rcases PoolSet.alloc_cases balanced.sound size content.tag content with none |
    ⟨block, blocks, got, taken⟩
  · exact .inr ⟨_, by rw [Heap.allocSized, none], balanced.releaseContent⟩
  refine .inl ⟨block, ⟨blocks⟩, by rw [Heap.allocSized, got], taken.get?, ?_⟩
  intro reference leads suits
  have held : (Heap.mk blocks).references.Perm (content.references ++ heap.references) :=
    taken.contents.flatMap_right _
  have fresh : ∀ another ∈ heap.references ++ (content.references ++ outside),
      another.block? ≠ some block := by
    intro another member same
    obtain ⟨kind, there, -⟩ := (balanced.fits another member).live block same
    obtain ⟨old, found, -⟩ := get?_of_kind? there
    exact absurd (taken.fresh.symm.trans found) (Option.some_ne_none _).symm
  refine ⟨taken.sound, fun another member => ?_, fun other member => ?_,
    fun other content' there free => ?_⟩
  · rcases List.mem_append.mp member with inside | loose
    · have own : another ∈ heap.references ++ (content.references ++ outside) := by
        have := held.mem_iff.mp inside
        simp only [List.mem_append] at this ⊢
        rcases this with own | inside
        · exact .inr (.inl own)
        · exact .inl inside
      refine Reference.Fits.of_kind (balanced.fits another own) fun other same => kind?_of_get? ?_
      exact taken.others.get? other fun equal => fresh another own (equal ▸ same)
    · rcases List.mem_cons.mp loose with rfl | loose
      · refine ⟨fun other same => ?_, fun target same => ?_⟩
        · rw [leads] at same
          injection same with same
          subst same
          exact ⟨content.kind, congrArg (Option.map Content.kind) taken.get?, suits⟩
        · subst same
          cases leads
      · have own : another ∈ heap.references ++ (content.references ++ outside) :=
          List.mem_append_right _ (List.mem_append_right _ loose)
        refine Reference.Fits.of_kind (balanced.fits another own) fun other same =>
          kind?_of_get? ?_
        exact taken.others.get? other fun equal => fresh another own (equal ▸ same)
  · rcases List.mem_cons.mp (taken.contents.mem_iff.mp member) with rfl | member
    · exact proper
    · exact balanced.proper other member
  · simp only [places_append, places_cons, places_perm held]
    by_cases here : other = block
    · subst here
      have none : places other (heap.references ++ (content.references ++ outside)) = 0 :=
        List.countP_eq_zero.mpr fun another member => by
          simpa using fresh another member
      have one : (Heap.mk blocks).blocks.refCount other = 1 := taken.refCount
      simp only [places_append] at none
      rw [one, if_pos leads]
      omega
    · obtain ⟨static, count⟩ := counts_of_counter (taken.others.counter other here)
      have before : heap.get? other = some content' :=
        (taken.others.get? other here).symm.trans there
      have counted := balanced.counted other content' before (static ▸ free)
      have apart : ¬ reference.block? = some other := fun same =>
        here (Option.some.inj (same.symm.trans leads))
      simp only [places_append] at counted
      rw [if_neg apart]
      omega

/-- A new block as a value. -/
theorem Balanced.allocValue (content : Content)
    (balanced : heap.Balanced rules (content.references ++ outside)) (proper : content.Proper rules) {kind : Handle → Value}
    (leads : ∀ block, (kind block).block? = some block)
    (suits : ∀ block, (kind block).Suits content.kind) :
    Gives rules outside (fun value => [.value value]) (asValue kind (heap.alloc content)) := by
  rcases balanced.allocSized content proper content.size with ⟨block, after, got, -, balanced⟩ |
    ⟨after, failed, balanced⟩
  · rw [Heap.alloc, got]
    exact balanced (.value (kind block)) (leads block) (rules.own _ _ (suits block))
  · rw [Heap.alloc, failed]
    exact ⟨rfl, balanced⟩

theorem Balanced.allocString (balanced : heap.Balanced rules outside) (text : String) :
    Gives rules outside (fun value => [.value value]) (heap.allocString text) :=
  balanced.allocValue (.text text) trivial (fun _ => rfl) fun _ => trivial

theorem Balanced.allocForeign (balanced : heap.Balanced rules outside) (text : String)
    (hostHandle : Nat) :
    Gives rules outside (fun value => [.value value]) (heap.allocForeign text hostHandle) :=
  balanced.allocValue (.foreign text hostHandle) trivial (fun _ => rfl) fun _ => trivial

theorem Balanced.allocCell (balanced : heap.Balanced rules (.value value :: outside)) :
    Gives rules outside (fun value => [.value value]) (heap.allocCell value) :=
  balanced.allocValue (.cell value) trivial (fun _ => rfl) fun _ => trivial

theorem Balanced.allocClosure {cells : Array Value} {target : FunctionRef}
    (balanced : heap.Balanced rules (cells.toList.map .value ++ outside))
    (able : rules.callable target cells.size) (boxes : ∀ cell ∈ cells, rules.captures cell) :
    Gives rules outside (fun value => [.value value]) (heap.allocClosure target cells) := by
  refine Balanced.allocValue (.closure target cells) (balanced.perm ?_) ⟨able, boxes⟩
    (fun _ => rfl) fun _ => trivial
  exact ((List.reverse_perm cells.toList).map Reference.value).symm.append_right outside

theorem Balanced.allocTimer (balanced : heap.Balanced rules outside) :
    Gives rules outside (fun block => [.timer block]) heap.allocTimer := by
  rcases balanced.allocSized .timer trivial Content.timer.size with
    ⟨block, after, got, -, balanced⟩ | ⟨after, failed, balanced⟩
  · rw [Heap.allocTimer, Heap.alloc, got]
    exact balanced (.timer block) rfl rfl
  · rw [Heap.allocTimer, Heap.alloc, failed]
    exact ⟨rfl, balanced⟩

/-! ## Arrays and objects -/

/-- The references to the block with some elements. -/
abbrev room (storage : Option Handle) : List Reference := storage.toList.map .storage

/-- What an array owns. -/
theorem array_references (items : Array Value) (capacity : Nat) (storage : Option Handle) :
    (Content.array items capacity storage).references.Perm
      (room storage ++ items.toList.map .value) :=
  ((List.reverse_perm items.toList).map Reference.value).append_left _

/-- What an object owns. -/
theorem object_references (properties : Array (String × Value)) (capacity : Nat)
    (storage : Option Handle) :
    (Content.object properties capacity storage).references.Perm
      (room storage ++ (properties.toList.map (·.2)).map .value) :=
  ((List.reverse_perm (properties.toList.map (·.2))).map Reference.value).append_left _

theorem Balanced.allocStorage (balanced : heap.Balanced rules outside) (size capacity : Nat) :
    Gives rules outside room (heap.allocStorage size capacity) := by
  unfold Heap.allocStorage
  split
  · exact balanced
  · rcases balanced.allocSized .storage trivial size with
      ⟨block, after, got, -, balanced⟩ | ⟨after, failed, balanced⟩
    · rw [got]
      exact balanced (.storage block) rfl rfl
    · rw [failed]
      exact ⟨rfl, balanced⟩

/-- Taking room for elements leaves the used blocks as they are. -/
theorem get?_allocStorage (sound : heap.blocks.Sound) (size capacity : Nat)
    (found : heap.get? block = some content) :
    (heap.allocStorage size capacity).2.get? block = some content := by
  unfold Heap.allocStorage
  split
  · exact found
  · rcases PoolSet.alloc_cases sound size Content.storage.tag Content.storage with none |
      ⟨other, blocks, got, taken⟩
    · simpa [Heap.allocSized, none, releaseContent, releaseStorage, Content.storage?,
        Content.heldReversed, releasePending] using found
    · simp only [Heap.allocSized, got]
      refine (taken.others.get? block fun same => ?_).trans found
      rw [same] at found
      exact absurd (taken.fresh.symm.trans found) (Option.some_ne_none _).symm

theorem Balanced.allocArray {items : Array Value}
    (balanced : heap.Balanced rules (items.toList.map .value ++ outside)) :
    Gives rules outside (fun value => [.value value]) (heap.allocArray items) := by
  have stored := balanced.allocStorage (arrayStorageSize items.size) items.size
  unfold Heap.allocArray
  simp only
  generalize heap.allocStorage (arrayStorageSize items.size) items.size = outcome at stored
  obtain ⟨fault | storage, after⟩ := outcome
  · exact ⟨stored.1, stored.2.releaseAll⟩
  · refine Balanced.allocValue (.array items items.size storage)
      (Balanced.perm stored ?_) (Nat.le_refl _) (fun _ => rfl) fun _ => trivial
    rw [← List.append_assoc]
    exact (array_references items items.size storage).symm.append_right outside

/-- Setting one of some items takes the old one out. -/
theorem set_perm {α : Type} {items : List α} {index : Nat} {item : α}
    (found : items[index]? = some item) (other : α) :
    (item :: items.set index other).Perm (other :: items) := by
  induction items generalizing index with
  | nil => cases found
  | cons first rest ih =>
      cases index with
      | zero =>
          injection found with same
          subst same
          exact List.Perm.swap _ _ _
      | succ index =>
          exact (List.Perm.swap _ _ _).trans
            ((List.Perm.cons first (ih found)).trans (List.Perm.swap _ _ _))

/-- The values of properties. -/
abbrev valuesOf (properties : Array (String × Value)) : List Value := properties.toList.map (·.2)

/-- A property that is put in its place is added, or takes another one's. -/
theorem putProperty_perm (properties : Array (String × Value)) (replaced : List Value)
    (property : String × Value) :
    (valuesOf (putProperty (properties, replaced) property).1 ++
        (putProperty (properties, replaced) property).2).Perm
      (property.2 :: (valuesOf properties ++ replaced)) := by
  simp only [putProperty]
  split
  · simp only [valuesOf, Array.toList_push, List.map_append, List.append_assoc]
    exact List.perm_middle
  · rename_i index found
    obtain ⟨inside, -⟩ := Array.findIdx?_eq_some_iff_getElem.mp found
    have there : properties.toList[index]? = some properties[index] := by
      rw [Array.getElem?_toList, Array.getElem?_eq_getElem inside]
    have swapped := (set_perm there property).map (·.2)
    simp only [valuesOf, Array.getElem?_eq_getElem inside, Option.map_some, Option.toList_some,
      Array.toList_setIfInBounds, List.singleton_append]
    exact List.perm_middle.trans (swapped.append_right replaced)

theorem putProperties_perm (properties : List (String × Value))
    (state : Array (String × Value) × List Value) :
    (valuesOf (properties.foldl putProperty state).1 ++
        (properties.foldl putProperty state).2).Perm
      (properties.map (·.2) ++ (valuesOf state.1 ++ state.2)) := by
  induction properties generalizing state with
  | nil => exact .refl _
  | cons property rest ih =>
      refine (ih (putProperty state property)).trans ?_
      refine ((putProperty_perm state.1 state.2 property).append_left _).trans ?_
      exact List.perm_middle

theorem Balanced.allocObject {properties : List (String × Value)}
    (balanced : heap.Balanced rules ((properties.map (·.2)).map .value ++ outside)) :
    Gives rules outside (fun value => [.value value]) (heap.allocObject properties) := by
  have same := putProperties_perm properties (#[], [])
  unfold Heap.allocObject
  generalize properties.foldl putProperty (#[], []) = state at same
  obtain ⟨unique, replaced⟩ := state
  simp only
  have left : (heap.releaseAll replaced.reverse).Balanced rules
      ((valuesOf unique).map .value ++ outside) := by
    apply Balanced.releaseAll
    apply balanced.perm
    apply perm_of_count
    intro reference
    have one := (same.map Reference.value).count_eq reference
    have two := ((List.reverse_perm replaced).map Reference.value).count_eq reference
    simp only [valuesOf, List.map_append, List.count_append, List.map_nil, List.append_nil] at *
    omega
  generalize heap.releaseAll replaced.reverse = after at left
  have stored := left.allocStorage (objectStorageSize unique.size) unique.size
  generalize after.allocStorage (objectStorageSize unique.size) unique.size = outcome at stored
  obtain ⟨fault | storage, last⟩ := outcome
  · exact ⟨stored.1, stored.2.releaseAll⟩
  · refine Balanced.allocValue (.object unique unique.size storage)
      (Balanced.perm stored ?_) trivial (fun _ => rfl) fun _ => trivial
    rw [← List.append_assoc]
    exact (object_references unique unique.size storage).symm.append_right outside

/-! ## Stores -/

theorem Balanced.refuse {fault : Fault} (ordinary : fault.isOrdinary = true)
    (balanced : heap.Balanced rules (.value value :: outside)) :
    Gives rules outside (fun _ : Unit => []) (heap.refuse value fault) :=
  ⟨ordinary, balanced.release⟩

/-- There is the room that was wanted, or that was needed, or none; the used blocks stay as they
are. -/
theorem Balanced.growStorage (balanced : heap.Balanced rules outside) (size : Nat → Nat)
    (wanted needed : Nat) (found : heap.get? block = some content) :
    (∃ fault after, heap.growStorage size wanted needed = (.error fault, after) ∧
      fault.isOrdinary = true ∧ after.Balanced rules outside) ∨
    ∃ capacity storage after,
      heap.growStorage size wanted needed = (.ok (capacity, storage), after) ∧
        (capacity = wanted ∨ capacity = needed) ∧
          after.Balanced rules (room storage ++ outside) ∧ after.get? block = some content := by
  have first := balanced.allocStorage (size wanted) wanted
  have kept := get?_allocStorage balanced.sound (size wanted) wanted found
  unfold Heap.growStorage
  generalize heap.allocStorage (size wanted) wanted = outcome at first kept
  obtain ⟨fault | storage, after⟩ := outcome
  · have second := first.2.allocStorage (size needed) needed
    have kept := get?_allocStorage first.2.sound (size needed) needed kept
    simp only
    generalize after.allocStorage (size needed) needed = outcome at second kept
    obtain ⟨fault' | storage, last⟩ := outcome
    · exact .inl ⟨fault', last, rfl, second.1, second.2⟩
    · exact .inr ⟨needed, storage, last, rfl, .inr rfl, second, kept⟩
  · exact .inr ⟨wanted, storage, after, rfl, .inl rfl, first, kept⟩

/-- The heap without the room that some elements had. -/
def withoutRoom (heap : Heap) : Option Handle → Heap
  | none => heap
  | some storage => ⟨(heap.blocks.release storage).2⟩

theorem Balanced.withoutRoom {storage : Option Handle}
    (balanced : heap.Balanced rules (room storage ++ outside)) :
    (heap.withoutRoom storage).Balanced rules outside := by
  have released := Balanced.releaseStorage (.array #[] 0 storage) balanced
  cases storage with
  | none => exact released
  | some storage => exact released

theorem Balanced.addUndefined (balanced : heap.Balanced rules outside) (count : Nat) :
    heap.Balanced rules ((List.replicate count .undefined).map .value ++ outside) := by
  induction count with
  | zero => exact balanced
  | succ count ih =>
      refine Balanced.add ih rfl ⟨?_, ?_⟩
      · rintro _ ⟨⟩
      · rintro _ ⟨⟩

theorem size_putItem_le {items : Array Value} {index capacity : Nat} (fits : items.size ≤ capacity)
    (inside : index < capacity) : (putItem items index value).size ≤ capacity := by
  unfold putItem
  split
  · simpa using fits
  · simp only [Array.size_push, Array.size_append, Array.size_replicate]
    omega

/-- An item that is put in its place is added behind a gap, or takes another one's. -/
theorem putItem_perm (items : Array Value) (index : Nat) (value : Value) :
    ((putItem items index value).toList ++ items[index]?.toList).Perm
      (value :: (List.replicate (index - items.size) .undefined ++ items.toList)) := by
  unfold putItem
  split
  · rename_i inside
    have there : items.toList[index]? = some items[index] := by
      rw [Array.getElem?_toList, Array.getElem?_eq_getElem inside]
    rw [Array.toList_setIfInBounds, Array.getElem?_eq_getElem inside,
      Nat.sub_eq_zero_of_le (Nat.le_of_lt inside)]
    exact (@List.perm_append_comm _ _ [items[index]]).trans (set_perm there value)
  · rename_i outside
    rw [Array.getElem?_eq_none (Nat.le_of_not_lt outside), Array.toList_push, Array.toList_append,
      Array.toList_replicate]
    apply List.perm_iff_count.mpr
    intro other
    simp only [Option.toList_none, List.append_nil, List.count_append, List.count_cons,
      List.count_nil]
    omega

/-- Putting an item in its place, and perhaps all items in other room. -/
theorem exchange_item (items : Array Value) (index : Nat) (value : Value) (capacity capacity' : Nat)
    (storage grown : Option Handle) :
    ((Content.array items capacity storage).references ++
        ((List.replicate (index - items.size) Value.undefined).map Reference.value ++
          (room grown ++ [Reference.value value]))).Perm
      ((Content.array (putItem items index value) capacity' grown).references ++
        (items[index]?.toList.map Reference.value ++ room storage)) := by
  apply perm_of_count
  intro reference
  have same := ((putItem_perm items index value).map Reference.value).count_eq reference
  have one := (array_references items capacity storage).count_eq reference
  have two := (array_references (putItem items index value) capacity' grown).count_eq reference
  simp only [List.map_append, List.map_cons, List.count_append, List.count_cons,
    List.count_nil] at *
  omega

/-- Putting a property in its place, and perhaps all properties in other room. -/
theorem exchange_property {properties changed : Array (String × Value)} {value : Value}
    (old : List Value)
    (same : (changed.toList.map (·.2) ++ old).Perm (value :: properties.toList.map (·.2)))
    (capacity capacity' : Nat) (storage grown : Option Handle) :
    ((Content.object properties capacity storage).references ++
        (room grown ++ [Reference.value value])).Perm
      ((Content.object changed capacity' grown).references ++
        (old.map Reference.value ++ room storage)) := by
  apply perm_of_count
  intro reference
  have same := (same.map Reference.value).count_eq reference
  have one := (object_references properties capacity storage).count_eq reference
  have two := (object_references changed capacity' grown).count_eq reference
  simp only [List.map_append, List.map_cons, List.count_append, List.count_cons,
    List.count_nil] at *
  omega

/-- References on both sides of an exchange need not be exchanged. -/
theorem exchange_same {one two given taken : List Reference} (common : List Reference)
    (same : (one ++ (common ++ given)).Perm (two ++ (taken ++ common))) :
    (one ++ given).Perm (two ++ taken) := by
  apply perm_of_count
  intro reference
  have same := same.count_eq reference
  simp only [List.count_append] at *
  omega

/-- The block of an array or an object is not the one of its elements, so the order does not matter
in which the elements give up their room and the content is replaced. -/
theorem Balanced.put_withoutRoom (balanced : heap.Balanced rules outside) (new : Content)
    (found : heap.get? block = some old) (other : old.kind ≠ .storage) :
    (heap.withoutRoom old.storage?).put block new = (heap.put block new).withoutRoom old.storage? := by
  cases own : old.storage? with
  | none => rfl
  | some storage =>
      have inside : Reference.storage storage ∈ old.references := by
        simp [Content.references, own]
      have live := (balanced.fits _ (List.mem_append_left _
        (List.mem_flatMap.mpr ⟨old, PoolSet.mem_contents found, inside⟩))).live storage rfl
      obtain ⟨kind, there, rfl⟩ := live
      obtain ⟨content, found', isStorage⟩ := get?_of_kind? there
      have apart : ¬ PoolSet.Coincide storage block := by
        refine PoolSet.not_coincide found' found fun equal => other ?_
        rw [equal, found] at found'
        injection found' with equal
        rw [equal, isStorage]
      exact congrArg Heap.mk (PoolSet.put_release_comm heap.blocks apart new)

/-- The elements of an array or an object move into other room. The old one is given up before the
new one is noted. -/
theorem Balanced.move (given : List Reference) (new : Content)
    (balanced : heap.Balanced rules (given ++ outside))
    (found : heap.get? block = some old) (kept : new.kind = old.kind)
    (proper : new.Proper rules)
    (same : (old.references ++ given).Perm (new.references ++ room old.storage?))
    (other : old.kind ≠ .storage) :
    ((heap.withoutRoom old.storage?).put block new).Balanced rules outside := by
  rw [balanced.put_withoutRoom new found other]
  exact (balanced.put given (room old.storage?) new found kept proper same).withoutRoom

/-! ### Arrays and objects

A store in an array and one in an object go the same ways: the elements are changed where they are, or
in a larger block, and where there is none the value is given up. What they change is a `Change`. -/

/-- What a store does to the elements of an array or an object, in whatever room they are. -/
structure Change where
  /-- The bytes that a number of elements takes. -/
  bytes : Nat → Nat
  old : Nat → Option Handle → Content
  new : Nat → Option Handle → Content
  /-- How many elements there are before. -/
  count : Nat
  /-- How many there are afterwards. -/
  newCount : Nat
  /-- The length of the gap in front of a new item. -/
  gap : Nat
  replaced : List Value

/-- A value becomes the item at an index. -/
def Change.item (items : Array Value) (index : Nat) (value : Value) : Change where
  bytes := arrayStorageSize
  old := .array items
  new := .array (putItem items index value)
  count := items.size
  newCount := (putItem items index value).size
  gap := index - items.size
  replaced := items[index]?.toList

/-- A value becomes one of the properties. -/
def Change.property (properties changed : Array (String × Value)) (replaced : List Value) : Change where
  bytes := objectStorageSize
  old := .object properties
  new := .object changed
  count := properties.size
  newCount := changed.size
  gap := 0
  replaced := replaced

/-- The change puts the value in the place of an item or of a property. -/
inductive Change.Stores (value : Value) : Change → Prop
  | item (items : Array Value) (index : Nat) : Stores value (.item items index value)
  | property {properties changed : Array (String × Value)} {replaced : List Value} (key : String) :
      putProperty (properties, []) (key, value) = (changed, replaced) →
        Stores value (.property properties changed replaced)

/-- How a store in a block may end. -/
inductive Ends (heap : Heap) (block : Handle) (value : Value) : Outcome Unit → Prop
  /-- The block is not of the kind that is wanted. -/
  | mismatch : Ends heap block value (heap.refuse value .typeMismatch)
  | inPlace {change : Change} {capacity : Nat} {storage : Option Handle} :
      change.Stores value → heap.get? block = some (change.old capacity storage) →
        change.newCount ≤ max change.count capacity →
          Ends heap block value
            (.ok (), (heap.put block (change.new capacity storage)).releaseAll change.replaced)
  /-- The elements have no room, and there is no larger block. -/
  | full {change : Change} {capacity : Nat} {storage : Option Handle} {wanted needed : Nat}
      {fault : Fault} {after : Heap} :
      change.Stores value → heap.get? block = some (change.old capacity storage) →
        heap.growStorage change.bytes wanted needed = (.error fault, after) →
          Ends heap block value (after.refuse value fault)
  /-- They move to a larger block, where they are with the new one, if they had room before. -/
  | moved {change : Change} {capacity : Nat} {storage room : Option Handle}
      {wanted needed larger : Nat} {after : Heap} :
      change.Stores value → heap.get? block = some (change.old capacity storage) →
        (∀ rules, (change.old capacity storage).Proper rules → change.replaced = []) →
          (change.count ≤ capacity → change.newCount ≤ needed ∧ needed ≤ wanted) →
            heap.growStorage change.bytes wanted needed = (.ok (larger, room), after) →
              Ends heap block value
                (.ok (), (after.withoutRoom storage).put block (change.new larger room))

/-- These are the ways in which a store in an array ends. -/
theorem ends_arraySet (heap : Heap) (block : Handle) (index : Nat) (value : Value) :
    Ends heap block value (heap.arraySet block index value) := by
  unfold Heap.arraySet
  split
  · rename_i items capacity storage found
    have stores : (Change.item items index value).Stores value := .item items index
    split
    · rename_i inside
      exact .inPlace stores found (size_putItem_le (Nat.le_max_left ..) (by omega))
    · rename_i behind
      simp only
      rcases grown : heap.growStorage arrayStorageSize (max (max (index + 1) (capacity * 2)) 4)
        (index + 1) with ⟨fault | ⟨larger, room⟩, after⟩
      · exact .full stores found grown
      · have moved := Ends.moved stores found
          (fun _ (proper : items.size ≤ capacity) => by
            rw [Change.item, Array.getElem?_eq_none (by omega)]
            rfl)
          (fun fits => ⟨size_putItem_le (Nat.le_trans fits (by omega)) (Nat.lt_succ_self _), by omega⟩)
          grown
        cases storage <;> exact moved
  · exact .mismatch

/-- And one in an object. -/
theorem ends_objectSet (heap : Heap) (block : Handle) (key : String) (value : Value) :
    Ends heap block value (heap.objectSet block key value) := by
  unfold Heap.objectSet
  split
  · rename_i properties capacity storage found
    split
    · rename_i index known
      refine .inPlace (.property key (by simp only [putProperty, known, List.append_nil]; rfl)) found ?_
      exact Nat.le_trans (Nat.le_of_eq Array.size_setIfInBounds) (Nat.le_max_left ..)
    · rename_i new
      have stores : (Change.property properties (properties.push (key, value)) []).Stores value :=
        .property key (by simp only [putProperty, new])
      have size : (properties.push (key, value)).size = properties.size + 1 := Array.size_push _
      simp only
      split
      · rename_i inside
        refine .inPlace stores found (Nat.le_trans ?_ (Nat.le_max_right ..))
        exact Nat.le_trans (Nat.le_of_eq size) inside
      · rename_i behind
        rcases grown : heap.growStorage objectStorageSize (max (capacity * 2) 4)
          (properties.size + 1) with ⟨fault | ⟨larger, room⟩, after⟩
        · exact .full stores found grown
        · have moved := Ends.moved stores found (fun _ _ => rfl)
            (fun (fits : properties.size ≤ capacity) =>
              ⟨Nat.le_of_eq size, by omega⟩) grown
          cases storage <;> exact moved
  · exact .mismatch

section Changes

variable {change : Change} {capacity capacity' : Nat} {storage room' : Option Handle}

theorem Change.Stores.storage? (stores : change.Stores value) :
    (change.old capacity storage).storage? = storage ∧
      (change.new capacity storage).storage? = storage := by
  cases stores <;> exact ⟨rfl, rfl⟩

/-- The container stays what it is. -/
theorem Change.Stores.kind (stores : change.Stores value) :
    (change.new capacity' room').kind = (change.old capacity storage).kind := by
  cases stores <;> rfl

theorem Change.Stores.kind_ne (stores : change.Stores value) :
    (change.old capacity storage).kind ≠ .storage := by
  cases stores <;> rintro ⟨⟩

theorem Change.Stores.proper (stores : change.Stores value)
    (proper : (change.old capacity storage).Proper rules)
    (fits : change.count ≤ capacity → change.newCount ≤ capacity') :
    (change.new capacity' room').Proper rules := by
  cases stores with
  | item => exact fits proper
  | property => trivial

theorem Change.Stores.exchange (stores : change.Stores value) (capacity capacity' : Nat)
    (storage room' : Option Handle) :
    ((change.old capacity storage).references ++
        ((List.replicate change.gap Value.undefined).map Reference.value ++
          (room room' ++ [Reference.value value]))).Perm
      ((change.new capacity' room').references ++
        (change.replaced.map Reference.value ++ room storage)) := by
  cases stores with
  | item items index => exact exchange_item items index value capacity capacity' storage room'
  | @property properties _ _ key put =>
      have same := putProperty_perm properties [] (key, value)
      rw [put, List.append_nil] at same
      exact exchange_property _ same capacity capacity' storage room'

end Changes

/-- A store takes the value over, and gives up the element in its place. -/
theorem Balanced.store {outcome : Outcome Unit} (balanced : heap.Balanced rules (.value value :: outside))
    (ends : heap.Ends block value outcome) : Gives rules outside (fun _ : Unit => []) outcome := by
  cases ends with
  | mismatch => exact balanced.refuse rfl
  | @inPlace change capacity storage stores found few =>
      have filled := balanced.addUndefined change.gap
      rw [← List.singleton_append, ← List.append_assoc] at filled
      refine (filled.put _ (change.replaced.map .value) (change.new capacity storage) found stores.kind
        (stores.proper (balanced.proper _ (PoolSet.mem_contents found)) (by omega)) ?_).releaseAll
      apply exchange_same (room storage)
      refine List.Perm.trans ?_ (stores.exchange capacity capacity storage storage)
      apply perm_of_count
      intro reference
      simp only [List.count_append]
      omega
  | @full change capacity storage wanted needed fault after stores found failed =>
      rcases balanced.growStorage change.bytes wanted needed found with
        ⟨_, _, failed', ordinary, left⟩ | ⟨_, _, _, grown, -⟩
      · cases failed.symm.trans failed'
        exact left.refuse ordinary
      · cases failed.symm.trans grown
  | @moved change capacity storage moved wanted needed larger after stores found none few grown =>
      rcases balanced.growStorage change.bytes wanted needed found with
        ⟨_, _, failed, -⟩ | ⟨_, _, _, grown', enough, left, kept⟩
      · cases grown.symm.trans failed
      cases grown.symm.trans grown'
      have proper := balanced.proper _ (PoolSet.mem_contents found)
      have filled := left.addUndefined change.gap
      have same := stores.exchange capacity larger storage moved
      rw [none rules proper, List.map_nil, List.nil_append] at same
      have result := Balanced.move ((List.replicate change.gap .undefined).map Reference.value ++
        (room moved ++ [.value value])) (change.new larger moved) (by simpa using filled) kept
        stores.kind (stores.proper proper (by omega)) (by rwa [stores.storage?.1]) stores.kind_ne
      rwa [stores.storage?.1] at result

/-- So does one in an array. -/
theorem Balanced.arraySet (balanced : heap.Balanced rules (.value value :: outside))
    (block : Handle) (index : Nat) :
    Gives rules outside (fun _ : Unit => []) (heap.arraySet block index value) :=
  balanced.store (ends_arraySet heap block index value)

/-- And one in an object. -/
theorem Balanced.objectSet (balanced : heap.Balanced rules (.value value :: outside))
    (block : Handle) (key : String) :
    Gives rules outside (fun _ : Unit => []) (heap.objectSet block key value) :=
  balanced.store (ends_objectSet heap block key value)

/-- A store in a cell takes the value over, and gives up the one from before. -/
theorem Balanced.cellSet (balanced : heap.Balanced rules (.value value :: outside))
    (block : Handle) :
    Gives rules outside (fun _ : Unit => []) (heap.cellSet block value) := by
  unfold Heap.cellSet
  split
  · rename_i old found
    refine Balanced.release (Balanced.put [.value value] [.value old] (.cell value) balanced found
      rfl trivial ?_)
    exact List.Perm.swap _ _ _
  · exact balanced.refuse rfl

/-! ## New heaps -/

/-- Nothing refers to anything in a new heap. -/
theorem balanced_new (sizes : List (Nat × Nat)) : (Heap.new sizes).Balanced rules [] := by
  have empty : (Heap.new sizes).blocks.contents = [] := PoolSet.contents_new sizes
  have none : (Heap.new sizes).references = [] := by
    unfold references
    rw [empty]
    rfl
  refine ⟨PoolSet.sound_new sizes, ?_, ?_, fun block content found _ => ?_⟩
  · rw [none]
    rintro _ ⟨⟩
  · rw [empty]
    rintro _ ⟨⟩
  · have inside := PoolSet.mem_contents found
    rw [empty] at inside
    cases inside

end Heap

end PocketScript
