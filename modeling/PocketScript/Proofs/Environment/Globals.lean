import PocketScript.Proofs.Environment.Running

/-!
# Globals and the notes on them

A global keeps its slot whatever is assigned afterwards, so a unit may note the slot of a global once
and for all (`Environment.Noted`). Looking a global up by its noted slot comes to the same as looking
it up by its name (`Environment.namedSlot_running`).
-/

namespace PocketScript

namespace Environment

variable {env after : Environment} {units : Array LoadedUnit} {pc : Nat}
  {operands : List Value} {activation : Activation}

/-- Every global keeps its slot. -/
def KeepsGlobals (env after : Environment) : Prop :=
  ∀ name slot, env.globalSlot? name = some slot → after.globalSlot? name = some slot

theorem KeepsGlobals.of_eq (same : after.globals = env.globals) :
    KeepsGlobals env after := by
  intro name slot known
  rw [globalSlot?, same]
  exact known

theorem KeepsGlobals.trans {last : Environment} (one : KeepsGlobals env after)
    (two : KeepsGlobals after last) : KeepsGlobals env last :=
  fun name slot known => two name slot (one name slot known)

/-- A known global has a value in its slot. -/
theorem globals_of_globalSlot? {name : String} {slot : Nat}
    (known : env.globalSlot? name = some slot) :
    ∃ value, env.globals[slot]? = some (name, value) := by
  obtain ⟨inside, same, -⟩ := Array.findIdx?_eq_some_iff_getElem.mp known
  refine ⟨env.globals[slot].2, ?_⟩
  rw [Array.getElem?_eq_getElem inside, ← eq_of_beq same]

/-- A value that is put in the place of another one leaves the names alone. -/
theorem names_setGlobal (env : Environment) (slot : Nat) (value : Value) :
    (setGlobal slot value env).2.globals.map (·.1) = env.globals.map (·.1) := by
  change (env.globals.modify slot fun binding => (binding.1, value)).map (·.1) = _
  apply Array.ext
  · simp only [Array.size_map, Array.size_modify]
  · intro index _ _
    simp only [Array.getElem_map, Array.getElem_modify]
    split <;> rfl

/-- The slot of a global is told by the names. -/
theorem globalSlot?_of_names (same : after.globals.map (·.1) = env.globals.map (·.1))
    (name : String) : after.globalSlot? name = env.globalSlot? name := by
  have told := fun globals : Array (String × Value) =>
    @Array.findIdx?_map _ _ (·.1) globals (· == name)
  exact (told _).symm.trans (same ▸ told _)

theorem keepsGlobals_setGlobal (env : Environment) (slot : Nat) (value : Value) :
    KeepsGlobals env (setGlobal slot value env).2 := by
  intro name other known
  rw [globalSlot?_of_names (names_setGlobal env slot value), known]

theorem defineGlobal_known {name : String} {slot : Nat} (value : Value)
    (known : env.globalSlot? name = some slot) :
    defineGlobal name value env = setGlobal slot value env := by
  unfold defineGlobal
  rw [update_bind, update_view, known]

theorem defineGlobal_new {name : String} (value : Value)
    (new : env.globalSlot? name = none) :
    defineGlobal name value env =
      ((), { env with globals := env.globals.push (name, value) }) := by
  unfold defineGlobal
  rw [update_bind, update_view, new]
  rfl

theorem keepsGlobals_defineGlobal (env : Environment) (name : String) (value : Value) :
    KeepsGlobals env (defineGlobal name value env).2 := by
  cases found : env.globalSlot? name with
  | some slot =>
      rw [defineGlobal_known value found]
      exact keepsGlobals_setGlobal env _ value
  | none =>
    rw [defineGlobal_new value found]
    intro other slot known
    change (env.globals.push (name, value)).findIdx? _ = _
    rw [Array.findIdx?_push]
    change (env.globalSlot? other).or _ = _
    rw [known]
    rfl

/-! ## Notes -/

/-- Units with the programs of an environment, whose notes tell the slots of its globals. -/
structure Noted (env : Environment) (units : Array LoadedUnit) : Prop where
  programs : env.HasPrograms units
  slots : ∀ (unit : Nat) loaded (index : Nat) slot, units[unit]? = some loaded →
    loaded.slots[index]? = some (some slot) →
      ∃ text, loaded.program.strings[index]? = some text ∧ env.globalSlot? text = some slot

theorem HasPrograms.of_units (same : env.HasPrograms units)
    (kept : after.units = env.units) : after.HasPrograms units := by
  rw [HasPrograms, programs, kept]
  exact same

/-- Notes stay good as long as globals keep their slots. -/
theorem Noted.mono (noted : env.Noted units) (kept : after.units = env.units)
    (globals : KeepsGlobals env after) : after.Noted units := by
  refine ⟨noted.programs.of_units kept, fun unit loaded index slot there known => ?_⟩
  obtain ⟨text, named, found⟩ := noted.slots unit loaded index slot there known
  exact ⟨text, named, globals text slot found⟩

/-- A slot may be noted in the unit whose string constant names the global. -/
theorem Noted.note (noted : env.Noted units) {unit : Nat} {program : Program}
    (found : env.programs[unit]? = some program) {name : UInt16} {text : String}
    (named : program.string? name = some text) {slot : Nat}
    (known : env.globalSlot? text = some slot) :
    env.Noted (units.modify unit fun loaded =>
      { loaded with slots := loaded.slots.setIfInBounds name.toNat (some slot) }) := by
  obtain ⟨loaded, there, rfl⟩ := noted.programs.unit found
  refine ⟨?_, fun other loaded' index slot' found' noted' => ?_⟩
  · rw [HasPrograms, ← noted.programs]
    apply Array.ext
    · simp only [Array.size_map, Array.size_modify]
    · intro index _ _
      simp only [Array.getElem_map, Array.getElem_modify]
      split <;> rfl
  · rw [Array.getElem?_modify] at found'
    split at found'
    · rename_i here
      subst here
      rw [there] at found'
      injection found' with same
      subst same
      simp only at noted' ⊢
      rw [Array.getElem?_setIfInBounds] at noted'
      split at noted'
      · rename_i here
        subst here
        split at noted'
        · injection noted' with same
          injection same with same
          subst same
          exact ⟨text, named, known⟩
        · cases noted'
      · exact noted.slots _ loaded index slot' there noted'
    · exact noted.slots other loaded' index slot' found' noted'

/-- Looking up a global by a string constant gives its slot, and at most notes it. -/
theorem namedSlot_noted (noted : env.Noted env.units)
    (program : env.programs[activation.unit]? = some activation.program) {name : UInt16}
    {text : String} (named : activation.program.string? name = some text) :
    ∃ units', env.Noted units' ∧ namedSlot activation name env =
      (.ok (env.globalSlot? text), { env with units := units' }) := by
  obtain ⟨loaded, there, same⟩ := noted.programs.unit program
  have told : notedSlot? env activation.unit name = loaded.slots[name.toNat]?.join := by
    change (env.units[activation.unit]?.bind fun loaded =>
      loaded.slots[name.toNat]?.bind id) = _
    rw [there]
    rfl
  unfold namedSlot
  rw [action_bind_ok (action_view _ _), told]
  cases inside : loaded.slots[name.toNat]?.join with
  | some slot =>
      obtain ⟨text', named', known⟩ :=
        noted.slots _ _ _ _ there (Option.join_eq_some_iff.mp inside)
      have agree : some text' = some text := by
        rw [← named', same]
        exact named
      injection agree with agree
      subst agree
      exact ⟨env.units, noted, by rw [known]; rfl⟩
  | none =>
      rw [named]
      simp only
      rw [action_bind_ok (found_some _ _), action_bind_ok (action_view _ _)]
      cases known : env.globalSlot? text with
      | none => exact ⟨env.units, noted, rfl⟩
      | some slot => exact ⟨_, noted.note program named known, rfl⟩

/-- Likewise while a function is running. -/
theorem namedSlot_running (noted : env.Noted units)
    (program : env.programs[activation.unit]? = some activation.program) {name : UInt16}
    {text : String} (named : activation.program.string? name = some text) :
    ∃ units', env.Noted units' ∧
      namedSlot activation name (env.running units pc operands) =
        (.ok (env.globalSlot? text), env.running units' pc operands) := by
  have same : (env.running units pc operands).programs = env.programs :=
    noted.programs
  have running : (env.running units pc operands).Noted units := ⟨rfl, noted.slots⟩
  obtain ⟨units', noted', told⟩ := namedSlot_noted running (same ▸ program) named
  exact ⟨units', ⟨noted'.programs.trans same, noted'.slots⟩, told⟩

end Environment

end PocketScript
