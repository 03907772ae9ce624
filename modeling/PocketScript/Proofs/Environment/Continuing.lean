import PocketScript.Proofs.Environment.Aloof

/-!
# What an instruction leaves

An instruction that does not leave its function keeps the frames, but for the position of the topmost
one, the variables below the operands, the loaded programs, and the notes on globals
(`Environment.Continues`). The instruction that leaves the function takes the topmost frame away.
-/

namespace PocketScript

namespace Environment

variable {α β : Type} {env before middle after : Environment} {floor : Nat}

/-- Every noted slot is that of a global. -/
def NotesInBounds (env : Environment) : Prop :=
  ∀ (unit : Nat) loaded (index : Nat) slot, env.units[unit]? = some loaded →
    loaded.slots[index]? = some (some slot) → slot < env.globals.size

/-- The topmost frame is at another position, and that is all about the frames. -/
def SameFrames (before after : Environment) : Prop :=
  after.frames = before.frames ∨
    ∃ pc, after.frames = before.frames.modify (before.frames.size - 1) ({ · with pc })

/-- What a function finds again behind an instruction that it goes on from. -/
structure Continues (floor : Nat) (before after : Environment) : Prop where
  height : floor ≤ after.stack.size
  frames : SameFrames before after
  programs : after.programs = before.programs
  config : after.config = before.config
  globals : before.globals.size ≤ after.globals.size
  notes : before.NotesInBounds → after.NotesInBounds

/-- The action leaves a function where it can go on from. -/
def Settled (floor : Nat) (action : Action α) : Prop :=
  ∀ env, floor ≤ env.stack.size → Continues floor env (action env).2

/-- There are as many frames as before. -/
theorem SameFrames.size (same : SameFrames before after) :
    after.frames.size = before.frames.size := by
  obtain same | ⟨pc, same⟩ := same
  · rw [same]
  · rw [same, Array.size_modify]

/-- And they may stay the same step by step. -/
theorem SameFrames.trans (one : SameFrames before middle) (two : SameFrames middle after) :
    SameFrames before after := by
  obtain two | ⟨pc, two⟩ := two
  · unfold SameFrames
    rw [two]
    exact one
  · refine .inr ⟨pc, ?_⟩
    rw [two, one.size]
    obtain one | ⟨pc', one⟩ := one
    · rw [one]
    · rw [one]
      apply Array.ext_getElem?
      intro index
      rw [Array.getElem?_modify, Array.getElem?_modify, Array.getElem?_modify]
      split
      · cases before.frames[index]? <;> rfl
      · rfl

/-- The frames below the topmost one are as they were. -/
theorem SameFrames.getElem? (same : SameFrames before after) {index : Nat}
    (below : index + 1 < before.frames.size) : after.frames[index]? = before.frames[index]? := by
  obtain same | ⟨pc, same⟩ := same
  · rw [same]
  · rw [same, Array.getElem?_modify, if_neg (by omega)]

/-- What does nothing continues. -/
theorem Continues.refl (above : floor ≤ env.stack.size) :
    Continues floor env env :=
  ⟨above, .inl rfl, rfl, rfl, Nat.le_refl _, id⟩

/-- One may continue step by step. -/
theorem Continues.trans (one : Continues floor before middle) (two : Continues floor middle after) :
    Continues floor before after :=
  ⟨two.height, one.frames.trans two.frames, two.programs.trans one.programs,
    two.config.trans one.config, Nat.le_trans one.globals two.globals, two.notes ∘ one.notes⟩

/-- An environment with nothing new but the heap, and a stack that is high enough. -/
theorem Continues.of_stack {heap : Heap} {stack : Array Value} (height : floor ≤ stack.size) :
    Continues floor env { env with heap, stack } :=
  ⟨height, .inl rfl, rfl, rfl, Nat.le_refl _, id⟩

/-! ## How settled actions are built -/

theorem settled_bind {first : Action α} {next : α → Action β} (one : Settled floor first)
    (two : ∀ value, Settled floor (next value)) : Settled floor (first >>= next) := by
  intro env above
  have here := one env above
  rw [action_bind]
  generalize first env = outcome at here
  obtain ⟨fault | value, middle⟩ := outcome
  · exact here
  · exact here.trans (two value middle here.height)

theorem settled_tryCatch {first : Action α} {handle : Fault → Action α} (one : Settled floor first)
    (two : ∀ fault, Settled floor (handle fault)) :
    Settled floor (tryCatch first handle : Action α) := by
  intro env above
  have here := one env above
  rw [action_tryCatch]
  generalize first env = outcome at here
  obtain ⟨fault | value, middle⟩ := outcome
  · exact here.trans (two fault middle here.height)
  · exact here

theorem settled_blind {action : Action α} (blind : Blind action.run) : Settled floor action := by
  intro env above
  have after : (action env).2 =
      { env with heap := (action env).2.heap } := blind.after env
  rw [after]
  exact .of_stack above

theorem settled_view {tell : Environment → α} : Settled floor (view tell : Action α) :=
  fun _ above => .refl above

/-- A push leaves the variables below. -/
theorem settled_push (value : Value) : Settled floor (push value) := by
  intro env above
  rw [push_eq]
  split
  · exact .of_stack (Nat.le_trans above (Array.size_push value ▸ Nat.le_succ _))
  · exact .of_stack above

theorem settled_pure (value : α) : Settled floor (pure value : Action α) :=
  settled_blind (blindAction_pure value)

theorem settled_throw (fault : Fault) : Settled floor (throw fault : Action α) :=
  settled_blind (blindAction_throw fault)

/-- Operands are only counted. -/
theorem settled_requireOperands (count : Nat) : Settled floor (requireOperands floor count) := by
  refine settled_bind settled_view fun depth => ?_
  split
  · exact settled_throw _
  · exact settled_pure ()

/-- Or looked at in their slots. -/
theorem settled_slot (place : Nat) : Settled floor (slot place) := by
  refine settled_bind settled_view fun found => ?_
  split
  · exact settled_pure _
  · exact settled_throw _

/-- And so they are on top of the stack. -/
theorem settled_peek (below : Nat) : Settled floor (peek floor below) :=
  settled_bind (settled_requireOperands _) fun _ => settled_bind settled_view fun _ =>
    settled_slot _

theorem settled_pop : Settled floor (pop floor) := by
  intro env above
  obtain ⟨-, failed⟩ | ⟨value, enough, -, done⟩ := pop_cases floor env
  · rw [failed]
    exact .refl above
  · rw [done]
    exact .of_stack (by rw [Array.size_pop]; omega)

theorem settled_popMany (count : Nat) : Settled floor (popMany floor count) := by
  intro env above
  obtain ⟨-, failed⟩ | ⟨enough, done⟩ := popMany_cases floor count env
  · rw [failed]
    exact .refl above
  · rw [done]
    exact .of_stack (by rw [Array.size_shrink]; omega)

theorem settled_replaceSlot (place : Nat) (value : Value) :
    Settled floor (replaceSlot place value) := by
  intro env above
  obtain ⟨-, failed⟩ | ⟨old, -, done⟩ := replaceSlot_cases place value env
  · rw [failed]
    exact .refl above
  · rw [done]
    exact .of_stack (by rw [Array.size_setIfInBounds]; exact above)

/-- The slot of a known global lies among the globals. -/
theorem globalSlot?_lt {name : String} {slot : Nat}
    (known : env.globalSlot? name = some slot) : slot < env.globals.size := by
  obtain ⟨value, there⟩ := globals_of_globalSlot? known
  obtain ⟨inside, -⟩ := Array.getElem?_eq_some_iff.mp there
  exact inside

/-- A slot that is noted is one of a global. -/
theorem NotesInBounds.note (notes : env.NotesInBounds) {unit slot : Nat} {name : UInt16}
    (inside : slot < env.globals.size) :
    (noteSlot unit name slot env).2.NotesInBounds := by
  intro other loaded index slot' there noted
  change (env.units.modify unit fun loaded =>
    { loaded with slots := loaded.slots.setIfInBounds name.toNat (some slot) })[other]? = _ at there
  rw [Array.getElem?_modify] at there
  split at there
  · obtain ⟨old, found, rfl⟩ := Option.map_eq_some_iff.mp there
    simp only at noted
    rw [Array.getElem?_setIfInBounds] at noted
    split at noted
    · split at noted
      · injection noted with same
        injection same with same
        exact same ▸ inside
      · cases noted
    · exact notes other old index slot' found noted
  · exact notes other loaded index slot' there noted

/-- So it is when the slot is looked up by name. -/
theorem settled_namedSlot {activation : Activation} {name : UInt16} :
    Settled floor (namedSlot activation name) := by
  intro env above
  unfold namedSlot
  rw [action_bind_ok (action_view _ _)]
  cases env.notedSlot? activation.unit name with
  | some slot => exact .refl above
  | none =>
      cases activation.program.string? name with
      | none => exact .refl above
      | some text =>
          simp only
          rw [action_bind_ok (found_some _ _), action_bind_ok (action_view _ _)]
          cases known : env.globalSlot? text with
          | none => exact .refl above
          | some slot =>
              exact ⟨above, .inl rfl, programs_noteSlot _ _ _ _, rfl, Nat.le_refl _,
                fun notes => notes.note (globalSlot?_lt known)⟩

/-- The slot of a name is that of a global, as long as the noted ones are. -/
theorem namedSlot_inBounds {activation : Activation} {name : UInt16} {slot : Nat}
    (notes : env.NotesInBounds)
    (named : (namedSlot activation name env).1 = .ok (some slot)) :
    slot < env.globals.size := by
  unfold namedSlot at named
  rw [action_bind_ok (action_view _ _)] at named
  cases noted : env.notedSlot? activation.unit name with
  | some noted' =>
      rw [noted] at named
      cases named
      obtain ⟨loaded, unit, there⟩ := Option.bind_eq_some_iff.mp noted
      obtain ⟨entry, there, rfl⟩ := Option.bind_eq_some_iff.mp there
      exact notes _ loaded _ slot unit there
  | none =>
      rw [noted] at named
      cases found : activation.program.string? name with
      | none =>
          rw [found] at named
          cases named
      | some text =>
          simp only [found] at named
          rw [action_bind_ok (found_some _ _), action_bind_ok (action_view _ _)] at named
          cases known : env.globalSlot? text with
          | none =>
              rw [known] at named
              cases named
          | some slot' =>
              rw [known] at named
              cases named
              exact globalSlot?_lt known

/-- Looking up a global at most notes its slot. -/
theorem namedSlot_changes (activation : Activation) (name : UInt16) (env : Environment) :
    ∃ units, (namedSlot activation name env).2 = { env with units } := by
  unfold namedSlot
  rw [action_bind_ok (action_view _ _)]
  cases env.notedSlot? activation.unit name with
  | some slot => exact ⟨_, rfl⟩
  | none =>
      cases activation.program.string? name with
      | none => exact ⟨_, rfl⟩
      | some text =>
          simp only
          rw [action_bind_ok (found_some _ _), action_bind_ok (action_view _ _)]
          cases env.globalSlot? text with
          | none => exact ⟨_, rfl⟩
          | some slot => exact ⟨_, rfl⟩

theorem size_setGlobal (slot : Nat) (value : Value) (env : Environment) :
    (setGlobal slot value env).2.globals.size = env.globals.size :=
  Array.size_modify

/-- Notes stay right when globals are added. -/
theorem NotesInBounds.mono (notes : before.NotesInBounds) (units : after.units = before.units)
    (globals : before.globals.size ≤ after.globals.size) : after.NotesInBounds :=
  fun unit loaded index slot there noted =>
    Nat.lt_of_lt_of_le (notes unit loaded index slot (units ▸ there) noted) globals

/-- So it is settled to set a global. -/
theorem settled_setGlobal (slot : Nat) (value : Value) :
    Settled floor (setGlobal slot value : Action Unit) := fun env above =>
  have size := Nat.le_of_eq (size_setGlobal slot value env).symm
  ⟨above, .inl rfl, rfl, rfl, size, fun notes => notes.mono rfl size⟩

/-- And to define one. -/
theorem settled_defineGlobal (name : String) (value : Value) :
    Settled floor (defineGlobal name value : Action Unit) := by
  intro env above
  rw [action_lift]
  cases known : env.globalSlot? name with
  | some slot =>
      rw [defineGlobal_known value known]
      exact settled_setGlobal slot value env above
  | none =>
      rw [defineGlobal_new value known]
      have size : env.globals.size ≤ (env.globals.push (name, value)).size :=
        Array.size_push (name, value) ▸ Nat.le_succ _
      exact ⟨above, .inl rfl, rfl, rfl, size, fun notes => notes.mono rfl size⟩

theorem settled_setPosition (pc : Nat) : Settled floor (setPosition pc : Action Unit) :=
  fun _ above => ⟨above, .inr ⟨pc, rfl⟩, rfl, rfl, Nat.le_refl _, id⟩

theorem stepwise_settled (activation : Activation) :
    Stepwise activation (Settled activation.floor) where
  bind := settled_bind
  tryCatch := settled_tryCatch
  blind := settled_blind
  view _ := settled_view
  push := settled_push
  requireOperands := settled_requireOperands
  peek := settled_peek
  pop := settled_pop
  popMany := settled_popMany
  slot place _ _ := settled_slot place
  replaceSlot place value _ _ := settled_replaceSlot place value
  namedSlot _ := settled_namedSlot
  setGlobal := settled_setGlobal
  defineGlobal := settled_defineGlobal
  setPosition := settled_setPosition

end Environment

end PocketScript
