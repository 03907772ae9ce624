import PocketScript.Proofs.Environment.Continuing

/-!
# Globals as one map

All units share one map from names to values. The names in it are distinct, each of them has its slot,
and what a unit has noted are the slots of the names that its string constants spell
(`Environment.Coherent`). So an instruction that goes by the notes does what looking its name up in the
map does, but for further notes (`Environment.execute_access`): it reads or replaces the binding of its
name and of no other one (`Environment.global?_access`).
-/

namespace PocketScript

/-- The instructions that access globals. -/
inductive GlobalAccess where
  | load | store | define | declare
  deriving DecidableEq, Repr

namespace Environment

/-! ## Accesses by name

What they come to when the name is looked up in the map. -/

def loadByName (text : String) : Action Unit := do
  match ← view (·.global? text) with
  | none => throw (.undefinedVariable text)
  | some value => pushShared value

def storeByName (floor : Nat) (text : String) : Action Unit := do
  let value ← peek floor 0
  retain value
  defineGlobal text value

def defineByName (floor : Nat) (text : String) : Action Unit := do
  let value ← pop floor
  defineGlobal text value

def declareByName (text : String) : Action Unit := do
  match ← view (·.global? text) with
  | none => defineGlobal text .undefined
  | some _ => pure ()

end Environment

namespace GlobalAccess

def op : GlobalAccess → Opcode
  | load => .loadGlobal
  | store => .storeGlobal
  | define => .defineGlobal
  | declare => .declareGlobal

def byName (floor : Nat) (text : String) : GlobalAccess → Environment.Action Unit
  | load => Environment.loadByName text
  | store => Environment.storeByName floor text
  | define => Environment.defineByName floor text
  | declare => Environment.declareByName text

/-- The binding of the name afterwards: that of the topmost operand, when there is one, for those that
assign it, and for a declaration the one that there is. -/
def binding (floor : Nat) (text : String) (env : Environment) : GlobalAccess → Option Value
  | load => env.global? text
  | store | define =>
      if floor < env.stack.size then env.stack.back? else env.global? text
  | declare => some ((env.global? text).getD .undefined)

end GlobalAccess

namespace Environment

variable {env before middle after : Environment} {activation : Activation} {name : UInt16}
  {text : String} {slot : Nat}

/-! ## Coherence -/

/-- Notes are there for all string constants, and tell the slots of the names that they spell; the names
of globals are distinct. -/
structure Coherent (env : Environment) : Prop where
  noted : env.Noted env.units
  fits : ∀ (unit : Nat) loaded, env.units[unit]? = some loaded →
    loaded.slots.size = loaded.program.strings.size
  distinct : (env.globals.map (·.1)).toList.Nodup

theorem coherent_new (config : Config) : (new config).Coherent where
  noted := ⟨rfl, fun _ _ _ _ none => by cases none⟩
  fits _ _ none := by cases none
  distinct := by
    rw [show (new config).globals = #[] from rfl, Array.map_empty]
    exact List.nodup_nil

/-- Two names do not have the same slot. -/
theorem globalSlot?_inj {one two : String} (first : env.globalSlot? one = some slot)
    (second : env.globalSlot? two = some slot) : one = two := by
  obtain ⟨value, there⟩ := globals_of_globalSlot? first
  obtain ⟨value', there'⟩ := globals_of_globalSlot? second
  rw [there] at there'
  injection there' with same
  injection same

/-- Every slot is that of the name that is in it. -/
theorem Coherent.globalSlot? (coherent : env.Coherent) {binding : String × Value}
    (there : env.globals[slot]? = some binding) :
    env.globalSlot? binding.1 = some slot := by
  have listed : (env.globals.map (·.1))[slot]? = some binding.1 := by
    rw [Array.getElem?_map, there]
    rfl
  obtain ⟨inside, here⟩ := Array.getElem?_eq_some_iff.mp there
  cases known : env.globalSlot? binding.1 with
  | none =>
      have other := Array.findIdx?_eq_none_iff.mp known binding (here ▸ Array.getElem_mem inside)
      rw [beq_self_eq_true] at other
      cases other
  | some first =>
      obtain ⟨value, there'⟩ := globals_of_globalSlot? known
      have listed' : (env.globals.map (·.1))[first]? = some binding.1 := by
        rw [Array.getElem?_map, there']
        rfl
      rw [← Array.getElem?_toList] at listed listed'
      obtain ⟨inside', -⟩ := List.getElem?_eq_some_iff.mp listed'
      rw [(List.getElem?_inj inside' coherent.distinct).mp (listed'.trans listed.symm)]

/-- Names keep their slots and programs their units, and what was coherent still is. -/
structure Faithful (before after : Environment) : Prop where
  globals : KeepsGlobals before after
  programs : ∀ (unit : Nat) program, before.programs[unit]? = some program →
    after.programs[unit]? = some program
  coherent : before.Coherent → after.Coherent

theorem Faithful.of_same (units : after.units = before.units)
    (globals : after.globals = before.globals) : Faithful before after where
  globals := .of_eq globals
  programs _ _ loaded := by
    rw [Environment.programs, units]
    exact loaded
  coherent coherent :=
    ⟨units ▸ coherent.noted.mono units (.of_eq globals), units ▸ coherent.fits,
      globals ▸ coherent.distinct⟩

theorem Faithful.trans (one : Faithful before middle) (two : Faithful middle after) :
    Faithful before after where
  globals := one.globals.trans two.globals
  programs unit program loaded := two.programs unit program (one.programs unit program loaded)
  coherent := two.coherent ∘ one.coherent

/-- The slot of a global may be noted where its name is a string constant. -/
theorem faithful_noteSlot (env : Environment)
    (program : env.programs[activation.unit]? = some activation.program)
    (named : activation.program.string? name = some text)
    (known : env.globalSlot? text = some slot) :
    Faithful env (noteSlot activation.unit name slot env).2 where
  globals := .of_eq rfl
  programs _ _ loaded := by
    rw [programs_noteSlot]
    exact loaded
  coherent coherent := by
    refine ⟨⟨rfl, (coherent.noted.note program named known).slots⟩, ?_, coherent.distinct⟩
    intro unit loaded there
    obtain same | ⟨old, found, rfl⟩ : env.units[unit]? = some loaded ∨
        ∃ old, env.units[unit]? = some old ∧
          { old with slots := old.slots.setIfInBounds name.toNat (some slot) } = loaded := by
      change (env.units.modify activation.unit _)[unit]? = _ at there
      rw [Array.getElem?_modify] at there
      split at there
      · exact .inr (Option.map_eq_some_iff.mp there)
      · exact .inl there
    · exact coherent.fits unit loaded same
    · exact Array.size_setIfInBounds.trans (coherent.fits unit old found)

/-- A slot that is noted is the one that was found by name. -/
theorem faithful_namedSlot (env : Environment)
    (program : env.programs[activation.unit]? = some activation.program) :
    Faithful env (namedSlot activation name env).2 := by
  have same : Faithful env env := .of_same rfl rfl
  unfold namedSlot
  rw [action_bind_ok (action_view _ _)]
  cases env.notedSlot? activation.unit name with
  | some slot => exact same
  | none =>
      cases named : activation.program.string? name with
      | none => exact same
      | some text =>
          simp only
          rw [action_bind_ok (found_some _ _), action_bind_ok (action_view _ _)]
          cases known : env.globalSlot? text with
          | none => exact same
          | some slot => exact faithful_noteSlot env program named known

/-- A global that is set keeps its slot. -/
theorem faithful_setGlobal (slot : Nat) (value : Value) (env : Environment) :
    Faithful env (setGlobal slot value env).2 where
  globals := keepsGlobals_setGlobal env slot value
  programs _ _ loaded := loaded
  coherent coherent :=
    ⟨coherent.noted.mono rfl (keepsGlobals_setGlobal env slot value), coherent.fits,
      (congrArg Array.toList (names_setGlobal env slot value)) ▸ coherent.distinct⟩

/-- And so do all others when one is defined. -/
theorem faithful_defineGlobal (name : String) (value : Value) (env : Environment) :
    Faithful env (defineGlobal name value env).2 := by
  cases known : env.globalSlot? name with
  | some slot =>
      rw [defineGlobal_known value known]
      exact faithful_setGlobal slot value env
  | none =>
      have kept := keepsGlobals_defineGlobal env name value
      rw [defineGlobal_new value known] at kept ⊢
      refine ⟨kept, fun _ _ loaded => loaded, fun coherent =>
        ⟨coherent.noted.mono rfl kept, coherent.fits, ?_⟩⟩
      have names : ((env.globals.push (name, value)).map (·.1)).toList =
          (env.globals.map (·.1)).toList ++ [name] := by
        rw [Array.map_push, Array.toList_push]
      rw [names, List.nodup_append]
      refine ⟨coherent.distinct, List.pairwise_singleton _ name, ?_⟩
      intro other listed last here same
      obtain rfl := List.mem_singleton.mp here
      subst same
      obtain ⟨binding, member, same⟩ := Array.mem_map.mp (Array.mem_toList_iff.mp listed)
      have differs := Array.findIdx?_eq_none_iff.mp known binding member
      rw [same, beq_self_eq_true] at differs
      cases differs

/-! ## Instructions -/

/-- A global with a slot has a value. -/
theorem global?_known (known : env.globalSlot? text = some slot) :
    ∃ value, env.globals[slot]? = some (text, value) ∧
      env.global? text = some value := by
  obtain ⟨value, there⟩ := globals_of_globalSlot? known
  refine ⟨value, there, ?_⟩
  unfold global?
  rw [known]
  change (env.globals[slot]?.bind fun binding => some binding.2) = _
  rw [there]
  rfl

/-- And one without has none. -/
theorem global?_unknown (unknown : env.globalSlot? text = none) :
    env.global? text = none := by
  unfold global?
  rw [unknown]
  rfl

/-- Both come to the same, but for what the units have noted. -/
def SameButNotes {α : Type} (one two : Except Fault α × Environment) : Prop :=
  one.1 = two.1 ∧ ∃ units, two.2.HasPrograms units ∧ one.2 = { two.2 with units }

theorem SameButNotes.trans {α : Type} {one two three : Except Fault α × Environment}
    (first : SameButNotes one two) (second : SameButNotes two three) : SameButNotes one three := by
  obtain ⟨outcome, units, programs, after⟩ := first
  obtain ⟨outcome', units', programs', after'⟩ := second
  rw [after'] at programs after
  exact ⟨outcome.trans outcome', units, Eq.trans programs programs', after⟩

theorem pushShared_notes (value : Value) {units : Array LoadedUnit}
    (same : env.HasPrograms units) :
    SameButNotes (pushShared value { env with units }) (pushShared value env) := by
  unfold pushShared
  rw [action_bind_ok (action_lift _ _), action_bind_ok (action_lift _ _), push_eq, push_eq]
  change SameButNotes (if env.stack.size < env.config.stackSize then _ else _)
    (if env.stack.size < env.config.stackSize then _ else _)
  split <;> exact ⟨rfl, units, same, rfl⟩

theorem defineGlobal_notes (text : String) (value : Value) {units : Array LoadedUnit}
    (same : env.HasPrograms units) :
    SameButNotes ((defineGlobal text value : Action Unit) { env with units })
      ((defineGlobal text value : Action Unit) env) := by
  rw [action_lift, action_lift]
  cases known : env.globalSlot? text with
  | some slot =>
      have known' : { env with units }.globalSlot? text = some slot := known
      rw [defineGlobal_known value known, defineGlobal_known value known']
      exact ⟨rfl, units, same, rfl⟩
  | none =>
      have unknown : { env with units }.globalSlot? text = none := known
      rw [defineGlobal_new value known, defineGlobal_new value unknown]
      exact ⟨rfl, units, same, rfl⟩

theorem nameText_eq (named : activation.program.string? name = some text) :
    nameText activation name = text := by
  unfold nameText
  rw [named]
  rfl

section Access

variable (noted : env.Noted env.units)
  (program : env.programs[activation.unit]? = some activation.program)
  (named : activation.program.string? name = some text)

include noted program named

/-- Assigning by the notes is assigning in the map. -/
theorem assignGlobal_sameButNotes (value : Value) :
    SameButNotes (assignGlobal activation name value env)
      ((defineGlobal text value : Action Unit) env) := by
  obtain ⟨units, noted, found⟩ := namedSlot_noted noted program named
  have defined := defineGlobal_notes text value noted.programs
  unfold assignGlobal
  rw [action_bind, action_tryCatch, found]
  simp only
  cases known : env.globalSlot? text with
  | some slot =>
      rw [action_lift, action_lift, defineGlobal_known value
        (show { env with units }.globalSlot? text = some slot from known)] at defined
      exact defined
  | none =>
      rw [nameText_eq named]
      exact defined

/-- The value of a global is that in its slot. -/
theorem loadGlobal_sameButNotes :
    SameButNotes (loadGlobal activation name env) (loadByName text env) := by
  obtain ⟨units, noted, found⟩ := namedSlot_noted noted program named
  unfold loadGlobal loadByName
  rw [action_bind_ok found, action_bind_ok (action_view _ _)]
  cases known : env.globalSlot? text with
  | none =>
      rw [nameText_eq named, global?_unknown known]
      exact ⟨rfl, units, noted.programs, rfl⟩
  | some slot =>
      obtain ⟨value, there, bound⟩ := global?_known known
      have looked : Environment.found (env.globals[slot]?) { env with units } =
          (.ok (text, value), { env with units }) := by
        rw [there]
        rfl
      rw [bound]
      simp only
      rw [action_bind_ok (action_view _ _), action_bind_ok looked]
      exact pushShared_notes value noted.programs

theorem storeGlobal_sameButNotes :
    SameButNotes (storeGlobal activation name env)
      (storeByName activation.floor text env) := by
  unfold storeGlobal storeByName
  obtain ⟨-, failed⟩ | ⟨value, -, -, done⟩ := peek_cases activation.floor 0 env
  · rw [action_bind_error failed, action_bind_error failed]
    exact ⟨rfl, env.units, rfl, rfl⟩
  · rw [action_bind_ok done, action_bind_ok done, action_bind_ok (action_lift _ _),
      action_bind_ok (action_lift _ _)]
    exact @assignGlobal_sameButNotes (retain value env).2 activation name text
      ⟨rfl, noted.slots⟩ program named value

theorem defineNamed_sameButNotes :
    SameButNotes (defineNamed activation name env)
      (defineByName activation.floor text env) := by
  unfold defineNamed defineByName
  obtain ⟨-, failed⟩ | ⟨value, -, -, done⟩ := pop_cases activation.floor env
  · rw [action_bind_error failed, action_bind_error failed]
    exact ⟨rfl, env.units, rfl, rfl⟩
  · rw [action_bind_ok done, action_bind_ok done]
    exact @assignGlobal_sameButNotes { env with stack := env.stack.pop } activation
      name text ⟨rfl, noted.slots⟩ program named value

/-- A name is looked up again when it is not bound, behind which nothing has changed. -/
theorem declareGlobal_sameButNotes :
    SameButNotes (declareGlobal activation name env) (declareByName text env) := by
  obtain ⟨units, noted, found⟩ := namedSlot_noted noted program named
  unfold declareGlobal declareByName
  rw [action_bind_ok found, action_bind_ok (action_view _ _)]
  cases known : env.globalSlot? text with
  | none =>
      rw [global?_unknown known]
      have loaded : { env with units }.programs[activation.unit]? =
          some activation.program := by
        rw [← program]
        exact congrArg (·[activation.unit]?) noted.programs
      have assigned : SameButNotes (assignGlobal activation name .undefined _) _ :=
        assignGlobal_sameButNotes ⟨rfl, noted.slots⟩ loaded named .undefined
      exact assigned.trans (defineGlobal_notes text .undefined noted.programs)
  | some slot =>
      obtain ⟨value, -, bound⟩ := global?_known known
      rw [bound]
      exact ⟨rfl, units, noted.programs, rfl⟩

/-- An instruction that goes by the notes of its unit does what the access does by name. -/
theorem execute_access (access : GlobalAccess) (b : UInt16) :
    SameButNotes (execute activation ⟨access.op, name, b⟩ env)
      (access.byName activation.floor text env) := by
  cases access with
  | load => exact loadGlobal_sameButNotes noted program named
  | store => exact storeGlobal_sameButNotes noted program named
  | define => exact defineNamed_sameButNotes noted program named
  | declare => exact declareGlobal_sameButNotes noted program named

end Access

/-! ## Bindings -/

theorem global?_of_globals (same : after.globals = env.globals) :
    after.global? = env.global? := by
  funext name
  unfold global? globalSlot?
  rw [same]

/-- A global that is set has the new value, and the others have theirs. -/
theorem global?_setGlobal (known : env.globalSlot? text = some slot) (value : Value)
    (other : String) :
    (setGlobal slot value env).2.global? other =
      if other = text then some value else env.global? other := by
  have names := globalSlot?_of_names (names_setGlobal env slot value)
  have stored : ∀ index, (setGlobal slot value env).2.globals[index]? =
      if slot = index then env.globals[index]?.map fun binding => (binding.1, value)
      else env.globals[index]? := fun index => Array.getElem?_modify
  cases found : env.globalSlot? other with
  | none =>
      have differs : other ≠ text := by
        intro same
        rw [same, known] at found
        cases found
      rw [if_neg differs, global?_unknown found, global?_unknown ((names other).trans found)]
  | some index =>
      obtain ⟨old, there, bound⟩ := global?_known found
      obtain ⟨new, there', bound'⟩ := global?_known ((names other).trans found)
      rw [stored, there] at there'
      rw [bound, bound']
      by_cases same : other = text
      · subst same
        obtain rfl : slot = index := Option.some.inj (known.symm.trans found)
        rw [if_pos rfl] at there' ⊢
        injection there' with there'
        injection there' with _ there'
        rw [there']
      · have apart : slot ≠ index := fun here => same (globalSlot?_inj found (here ▸ known))
        rw [if_neg apart] at there'
        rw [if_neg same]
        injection there' with there'
        injection there' with _ there'
        rw [there']

/-- Binding a name replaces the binding of this name, and of no other one. -/
theorem global?_defineGlobal (text : String) (value : Value) (env : Environment)
    (other : String) :
    (defineGlobal text value env).2.global? other =
      if other = text then some value else env.global? other := by
  cases known : env.globalSlot? text with
  | some slot =>
      rw [defineGlobal_known value known]
      exact global?_setGlobal known value other
  | none =>
      rw [defineGlobal_new value known]
      have slots : ({ env with globals := env.globals.push (text, value) } :
          Environment).globalSlot? other = (env.globalSlot? other).or
            (if text == other then some env.globals.size else none) :=
        Array.findIdx?_push
      by_cases same : other = text
      · subst same
        rw [known, beq_self_eq_true] at slots
        obtain ⟨new, there, bound⟩ := global?_known slots
        rw [bound, if_pos rfl]
        rw [Array.getElem?_push_size] at there
        injection there with there
        injection there with _ there
        rw [there]
      · have differs : (text == other) = false := beq_eq_false_iff_ne.mpr (Ne.symm same)
        rw [differs] at slots
        rw [if_neg same]
        cases found : env.globalSlot? other with
        | none =>
            rw [found] at slots
            rw [global?_unknown found, global?_unknown slots]
        | some index =>
            rw [found] at slots
            obtain ⟨old, there, bound⟩ := global?_known found
            obtain ⟨new, there', bound'⟩ := global?_known slots
            rw [Array.getElem?_push_lt (globalSlot?_lt found), ← Array.getElem?_eq_getElem,
              there] at there'
            injection there' with there'
            injection there' with _ there'
            rw [bound, bound', there']

/-- An access by name leads to its binding of this name, and leaves the others alone. -/
theorem global?_byName (access : GlobalAccess) (floor : Nat) (text : String)
    (env : Environment) (other : String) :
    (access.byName floor text env).2.global? other =
      if other = text then access.binding floor text env else env.global? other := by
  have unchanged : ∀ after : Environment, after.globals = env.globals →
      after.global? other =
        if other = text then env.global? text else env.global? other := by
    intro after same
    rw [global?_of_globals same]
    split
    · rename_i here
      rw [here]
    · rfl
  cases access with
  | load =>
      change (loadByName text env).2.global? other = _
      unfold loadByName
      rw [action_bind_ok (action_view _ _)]
      cases env.global? text with
      | none => exact unchanged env rfl
      | some value =>
          apply unchanged
          change (pushShared value env).2.globals = _
          unfold pushShared
          rw [action_bind_ok (action_lift _ _), push_eq]
          split <;> rfl
  | store =>
      change (storeByName floor text env).2.global? other =
        if other = text then (if floor < env.stack.size then _ else _) else _
      unfold storeByName
      obtain ⟨low, failed⟩ | ⟨value, enough, there, done⟩ := peek_cases floor 0 env
      · rw [action_bind_error failed, if_neg (show ¬ floor < _ from Nat.not_lt.mpr low)]
        exact unchanged env rfl
      · have last : env.stack.back? = some value := by
          rw [Array.back?_eq_getElem?]
          exact there
        rw [action_bind_ok done, action_bind_ok (action_lift _ _),
          if_pos (show floor < _ from enough), last]
        exact global?_defineGlobal text value (retain value env).2 other
  | define =>
      change (defineByName floor text env).2.global? other =
        if other = text then (if floor < env.stack.size then _ else _) else _
      unfold defineByName
      obtain ⟨low, failed⟩ | ⟨value, enough, last, done⟩ := pop_cases floor env
      · rw [action_bind_error failed, if_neg (Nat.not_lt.mpr low)]
        exact unchanged env rfl
      · rw [action_bind_ok done, if_pos enough, last]
        exact global?_defineGlobal text value { env with stack := env.stack.pop } other
  | declare =>
      change (declareByName text env).2.global? other =
        if other = text then some ((env.global? text).getD .undefined) else _
      unfold declareByName
      rw [action_bind_ok (action_view _ _)]
      cases bound : env.global? text with
      | none => exact global?_defineGlobal text .undefined env other
      | some value =>
          have same := unchanged env rfl
          rw [bound] at same
          exact same

/-- And so does the instruction. -/
theorem global?_access (noted : env.Noted env.units)
    (program : env.programs[activation.unit]? = some activation.program)
    (named : activation.program.string? name = some text) (access : GlobalAccess) (b : UInt16)
    (other : String) :
    (execute activation ⟨access.op, name, b⟩ env).2.global? other =
      if other = text then access.binding activation.floor text env
      else env.global? other := by
  obtain ⟨-, units, -, same⟩ := execute_access noted program named access b
  rw [same, ← global?_byName]
  rfl

end Environment

end PocketScript
