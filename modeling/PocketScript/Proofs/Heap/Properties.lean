import Mathlib.Data.List.Basic
import Mathlib.Data.List.Induction
import PocketScript.Proofs.Heap.Fitting

/-!
# Properties as finite maps

The properties of an object are read by their keys, and the first one with a key counts
(`List.lookup`). Putting a property in its place sets the value of its key and of no other
(`Heap.lookup_putProperty`); the keys stay in their order, a new one behind the others, and so they
stay distinct (`Heap.Keyed`). Of many properties that are put in their places the last one of each key
is left (`Heap.toList_putProperties`).
-/

namespace PocketScript

namespace Heap

variable {heap after : Heap} {block : Handle}

/-- The keys of properties. -/
abbrev keysOf (properties : Array (String × Value)) : List String := properties.toList.map (·.1)

/-- The property found under a key is the first one with it. -/
theorem find?_eq_lookup (properties : List (String × Value)) (key : String) :
    (properties.find? (·.1 == key)).map (·.2) = properties.lookup key := by
  induction properties with
  | nil => rfl
  | cons property rest ih =>
      rw [List.find?_cons, List.lookup_cons, ← ih, BEq.comm]
      cases key == property.1 <;> rfl

theorem objectGet?_eq {properties : Array (String × Value)} {capacity : Nat}
    {storage : Option Handle} (found : heap.get? block = some (.object properties capacity storage))
    (key : String) : heap.objectGet? block key = properties.toList.lookup key := by
  rw [← find?_eq_lookup, Array.find?_toList, objectGet?, objectProperties?, found]
  change (properties.find? (·.1 == key)).bind (fun property => some property.2) = _
  rw [Option.map_eq_bind]
  rfl

/-- There is nothing under a key that no property has. -/
theorem lookup_eq_none {properties : List (String × Value)} {key : String}
    (new : key ∉ properties.map (·.1)) : properties.lookup key = none :=
  List.lookup_eq_none_iff.mpr fun property member =>
    bne_iff_ne.mpr fun same => new (List.mem_map.mpr ⟨property, member, same.symm⟩)

/-- A property is put behind the others when its key is new, or else in the place of the first one
with its key. -/
theorem putProperty_cases (properties : Array (String × Value)) (replaced : List Value)
    (key : String) (value : Value) :
    key ∉ keysOf properties ∧
        putProperty (properties, replaced) (key, value) =
          ((properties.toList ++ [(key, value)]).toArray, replaced) ∨
      ∃ before old behind, properties.toList = before ++ (key, old) :: behind ∧
        key ∉ before.map (·.1) ∧ putProperty (properties, replaced) (key, value) =
          ((before ++ (key, value) :: behind).toArray, old :: replaced) := by
  unfold putProperty
  dsimp only
  split
  · rename_i new
    refine .inl ⟨fun known => ?_, congrArg (·, replaced) (Array.toList_inj.mp (by simp))⟩
    obtain ⟨property, member, rfl⟩ := List.mem_map.mp known
    simpa using Array.findIdx?_eq_none_iff.mp new property (Array.mem_toList_iff.mp member)
  · rename_i index known
    obtain ⟨inside, here, first⟩ := Array.findIdx?_eq_some_iff_getElem.mp known
    have split : properties.toList = properties.toList.take index ++
        (key, properties[index].2) :: properties.toList.drop (index + 1) := by
      have same : properties[index] = (key, properties[index].2) := by rw [← eq_of_beq here]
      rw [← same, ← Array.getElem_toList, List.getElem_cons_drop, List.take_append_drop]
    have changed : properties.setIfInBounds index (key, value) =
        (properties.toList.take index ++
          (key, value) :: properties.toList.drop (index + 1)).toArray := by
      refine Array.toList_inj.mp ?_
      rw [Array.toList_setIfInBounds, List.set_eq_take_append_cons_drop, if_pos (by simpa)]
    refine .inr ⟨_, _, _, split, fun earlier => ?_, ?_⟩
    · obtain ⟨property, member, same⟩ := List.mem_map.mp earlier
      obtain ⟨place, before, rfl⟩ := List.mem_take_iff_getElem.mp member
      exact first place (by omega) (by simpa using same)
    · rw [Array.getElem?_eq_getElem inside, changed]
      rfl

theorem keysOf_putProperty (properties : Array (String × Value)) (replaced : List Value)
    (key : String) (value : Value) :
    keysOf (putProperty (properties, replaced) (key, value)).1 =
      if key ∈ keysOf properties then keysOf properties else keysOf properties ++ [key] := by
  obtain ⟨new, put⟩ | ⟨before, old, behind, split, -, put⟩ :=
    putProperty_cases properties replaced key value
  · rw [put, if_neg new]
    exact List.map_append
  · have known : key ∈ keysOf properties := by simp [keysOf, split]
    rw [put, if_pos known, keysOf, keysOf, split]
    simp

/-- Keys that are distinct stay so. -/
theorem nodup_putProperty {properties : Array (String × Value)}
    (distinct : (keysOf properties).Nodup) (replaced : List Value) (key : String) (value : Value) :
    (keysOf (putProperty (properties, replaced) (key, value)).1).Nodup := by
  rw [keysOf_putProperty]
  split
  · exact distinct
  · rename_i new
    exact List.nodup_append.mpr ⟨distinct, List.pairwise_singleton _ _, by grind⟩

theorem lookup_putProperty (properties : Array (String × Value)) (replaced : List Value)
    (key : String) (value : Value) (other : String) :
    (putProperty (properties, replaced) (key, value)).1.toList.lookup other =
      if other = key then some value else properties.toList.lookup other := by
  obtain ⟨new, put⟩ | ⟨before, old, behind, split, first, put⟩ :=
    putProperty_cases properties replaced key value
  · rw [put, List.lookup_append]
    by_cases same : other = key
    · rw [if_pos same, same, lookup_eq_none new, List.lookup_cons_self]
      rfl
    · rw [if_neg same, List.lookup_cons, beq_false_of_ne same]
      exact Option.or_none
  · rw [put, split, List.lookup_append, List.lookup_append]
    by_cases same : other = key
    · rw [if_pos same, same, lookup_eq_none first, List.lookup_cons_self]
      rfl
    · rw [if_neg same, List.lookup_cons, List.lookup_cons, beq_false_of_ne same]

theorem replaced_putProperty (properties : Array (String × Value)) (replaced : List Value)
    (key : String) (value : Value) :
    (putProperty (properties, replaced) (key, value)).2 =
      (properties.toList.lookup key).toList ++ replaced := by
  obtain ⟨new, put⟩ | ⟨before, old, behind, split, first, put⟩ :=
    putProperty_cases properties replaced key value
  · rw [put, lookup_eq_none new]
    rfl
  · rw [put, split, List.lookup_append, lookup_eq_none first, Option.none_or, List.lookup_cons_self]
    rfl

/-! ## Many properties -/

/-- The last value of each key, in the order in which the keys come first. -/
def lastValues (given : List (String × Value)) : List (String × Value) :=
  (given.map (·.1)).eraseDups.filterMap fun key => (given.reverse.lookup key).map (key, ·)

theorem keysOf_putProperties (given : List (String × Value)) :
    keysOf (given.foldl putProperty (#[], [])).1 = (given.map (·.1)).eraseDups := by
  induction given using List.reverseRecOn with
  | nil => rfl
  | append_singleton given property ih =>
      obtain ⟨key, value⟩ := property
      rw [List.foldl_append, List.map_append, List.eraseDups_append, ← ih]
      change keysOf (putProperty (_, _) (key, value)).1 = _
      rw [keysOf_putProperty, ih]
      by_cases known : key ∈ given.map (·.1)
      · rw [if_pos (List.mem_eraseDups.mpr known)]
        simp [known, List.removeAll]
      · rw [if_neg fun known' => known (List.mem_eraseDups.mp known')]
        simp [known, List.removeAll, List.eraseDups_cons]

theorem nodup_putProperties (given : List (String × Value)) :
    (keysOf (given.foldl putProperty (#[], [])).1).Nodup := by
  induction given using List.reverseRecOn with
  | nil => exact List.nodup_nil
  | append_singleton given property ih =>
      rw [List.foldl_append]
      exact nodup_putProperty ih _ property.1 property.2

theorem lookup_putProperties (given : List (String × Value)) (key : String) :
    (given.foldl putProperty (#[], [])).1.toList.lookup key = given.reverse.lookup key := by
  induction given using List.reverseRecOn with
  | nil => rfl
  | append_singleton given property ih =>
      obtain ⟨other, value⟩ := property
      rw [List.foldl_append, List.reverse_append]
      change (putProperty (_, _) (other, value)).1.toList.lookup key =
        ((other, value) :: given.reverse).lookup key
      rw [lookup_putProperty, ih, List.lookup_cons]
      by_cases same : key = other
      · rw [if_pos same, same, beq_self_eq_true]
      · rw [if_neg same, beq_false_of_ne same]

/-- Properties with distinct keys are known from their keys and the values of these. -/
theorem eq_filterMap_lookup {properties : List (String × Value)}
    (distinct : (properties.map (·.1)).Nodup) :
    properties = (properties.map (·.1)).filterMap fun key =>
      (properties.lookup key).map (key, ·) := by
  induction properties with
  | nil => rfl
  | cons property rest ih =>
      obtain ⟨first, value⟩ := property
      obtain ⟨new, distinct⟩ := List.nodup_cons.mp distinct
      have others : (rest.map (·.1)).filterMap (fun key =>
          (((first, value) :: rest).lookup key).map (key, ·)) = rest := by
        conv_rhs => rw [ih distinct]
        refine List.filterMap_congr fun key member => ?_
        have different : key ≠ first := fun same => new (same ▸ member)
        rw [List.lookup_cons, beq_false_of_ne different]
      rw [List.map_cons, List.filterMap_cons, List.lookup_cons_self, others]
      rfl

/-- Of properties that are put in their places one after the other the last ones stay. -/
theorem toList_putProperties (given : List (String × Value)) :
    (given.foldl putProperty (#[], [])).1.toList = lastValues given := by
  have distinct := nodup_putProperties given
  rw [eq_filterMap_lookup distinct, lastValues, ← keysOf_putProperties]
  simp only [lookup_putProperties]

end Heap

/-! ## Distinct keys -/

/-- No two properties have the same key. -/
def Content.Keyed : Content → Prop
  | object properties _ _ => (Heap.keysOf properties).Nodup
  | _ => True

namespace Heap

variable {heap after : Heap} {block : Handle} {content old new : Content}

/-- No object has two properties of the same key. -/
def Keyed (heap : Heap) : Prop := ∀ block content, heap.get? block = some content → content.Keyed

theorem Keyed.shrunk (keyed : heap.Keyed) (sound : heap.blocks.Sound)
    (shrinks : PoolSet.Shrinks heap.blocks after.blocks) : after.Keyed :=
  fun block content found => keyed block content (shrinks.kept sound block content found)

theorem Keyed.taken (keyed : heap.Keyed) (distinct : content.Keyed)
    (taken : PoolSet.Taken block content heap.blocks after.blocks) : after.Keyed := by
  intro other held found
  by_cases here : other = block
  · subst here
    rwa [← Option.some.inj (taken.get?.symm.trans found)]
  · exact keyed other held ((taken.others.get? other here).symm.trans found)

theorem Keyed.replaced (keyed : heap.Keyed) (distinct : new.Keyed)
    (replaced : PoolSet.Replaced block old new heap.blocks after.blocks) : after.Keyed := by
  intro other held found
  by_cases here : other = block
  · subst here
    rwa [← Option.some.inj (replaced.get?.symm.trans found)]
  · exact keyed other held ((replaced.others other here).symm.trans found)

end Heap

end PocketScript
