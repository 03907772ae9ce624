import PocketScript.Proofs.Environment.Actions

/-!
# What happens in the heap only

Operators, element accesses and reference counting read nothing but the heap, the loaded programs
and the native functions, and change nothing but the heap (`Environment.Blind`). So they do the same
with whatever operands on the stack and wherever the running function is.
-/

namespace PocketScript

namespace Environment

variable {α β : Type}

/-- The programs of the loaded units. -/
def programs (env : Environment) : Array Program := env.units.map (·.program)

/-- The loaded programs and the native functions are the same. -/
structure Alike (env other : Environment) : Prop where
  programs : other.programs = env.programs
  natives : other.natives = env.natives

/-- What can be told of an environment by its heap, its programs and its native functions. -/
def Sees (tell : Environment → α) : Prop :=
  ∀ env other, Alike env other →
    tell { other with heap := env.heap } = tell env

/-- The update does the same in environments that are alike and have the same heap, and changes
nothing but the heap. -/
def Blind (update : Update α) : Prop :=
  ∀ env other, Alike env other →
    update { other with heap := env.heap } =
      ((update env).1, { other with heap := (update env).2.heap })

variable {env other : Environment}

theorem Alike.refl (env : Environment) : Alike env env := ⟨rfl, rfl⟩

theorem Alike.unit (alike : Alike env other) (unit : Nat) :
    other.units[unit]?.map (·.program) = env.units[unit]?.map (·.program) := by
  have same := congrArg (·[unit]?) alike.programs
  simpa only [Environment.programs, Array.getElem?_map] using same

/-- A blind update changes nothing but the heap. -/
theorem Blind.after {update : Update α} (blind : Blind update) (env : Environment) :
    (update env).2 = { env with heap := (update env).2.heap } :=
  congrArg (·.2) (blind env env (.refl env))

/-! ## How blind updates are built -/

theorem blind_bind {first : Update α} {next : α → Update β} (one : Blind first)
    (two : ∀ value, Blind (next value)) : Blind (first >>= next) := by
  intro env other alike
  rw [update_bind, update_bind, one _ _ alike, one.after env]
  exact two _ _ _ ⟨alike.programs, alike.natives⟩

theorem blind_updateHeap (change : Heap → Heap) : Blind (updateHeap change) :=
  fun _ _ _ => rfl

theorem blind_retain (value : Value) : Blind (retain value) := blind_updateHeap _

theorem blind_release (value : Value) : Blind (release value) := blind_updateHeap _

theorem blind_releaseAll (values : List Value) : Blind (releaseAll values) := blind_updateHeap _

/-! ## How blind actions are built -/

theorem blindAction_pure (value : α) : Blind (pure value : Action α).run :=
  fun _ _ _ => rfl

theorem blindAction_throw (fault : Fault) : Blind (throw fault : Action α).run :=
  fun _ _ _ => rfl

/-- A blind update is a blind action. -/
theorem blindAction_lift {update : Update α} (blind : Blind update) :
    Blind (liftM update : Action α).run := by
  intro env other alike
  change (Except.ok (update _).1, (update _).2) = _
  rw [blind _ _ alike]
  rfl

theorem blindAction_view {tell : Environment → α} (sees : Sees tell) :
    Blind (view tell : Action α).run := by
  intro env other alike
  change (Except.ok (tell _), _) = _
  rw [sees _ _ alike]
  rfl

theorem blindAction_onHeap (operation : Heap → Heap.Outcome α) : Blind (onHeap operation).run :=
  fun _ _ _ => rfl

/-- Actions in a row are blind when each of them is. -/
theorem blindAction_bind {first : Action α} {next : α → Action β} (one : Blind first.run)
    (two : ∀ value, Blind (next value).run) : Blind (first >>= next).run := by
  intro env other alike
  have same : first { other with heap := env.heap } =
      ((first env).1, { other with heap := (first env).2.heap }) :=
    one env other alike
  have after : (first env).2 = { env with heap := (first env).2.heap } :=
    one.after env
  change (first >>= next) _ = (((first >>= next) _).1, { other with heap := ((first >>= next) _).2.heap })
  rw [action_bind, action_bind, same]
  generalize first env = outcome at after
  obtain ⟨fault | value, middle⟩ := outcome
  · rfl
  · simp only at after ⊢
    rw [after]
    exact two value _ other ⟨alike.programs, alike.natives⟩

/-- And so what is done about a fault has to be. -/
theorem blindAction_tryCatch {first : Action α} {handle : Fault → Action α}
    (one : Blind first.run) (two : ∀ fault, Blind (handle fault).run) :
    Blind (tryCatch first handle : Action α).run := by
  intro env other alike
  have same : first { other with heap := env.heap } =
      ((first env).1, { other with heap := (first env).2.heap }) :=
    one env other alike
  have after : (first env).2 = { env with heap := (first env).2.heap } :=
    one.after env
  change (tryCatch first handle : Action α) _ =
    (((tryCatch first handle : Action α) _).1,
      { other with heap := ((tryCatch first handle : Action α) _).2.heap })
  rw [action_tryCatch, action_tryCatch, same]
  generalize first env = outcome at after
  obtain ⟨fault | value, middle⟩ := outcome
  · simp only at after ⊢
    rw [after]
    exact two fault _ other ⟨alike.programs, alike.natives⟩
  · rfl

theorem blind_releasingAfter {action : Action α} (values : List Value) (blind : Blind action.run) :
    Blind (releasingAfter values action).run := by
  refine blindAction_bind (blindAction_tryCatch blind fun fault => ?_) fun result => ?_
  · exact blindAction_bind (blindAction_lift (blind_releaseAll values)) fun _ =>
      blindAction_throw fault
  · exact blindAction_bind (blindAction_lift (blind_releaseAll values)) fun _ =>
      blindAction_pure result

/-! ## What can be seen -/

/-- The heap may be seen. -/
theorem sees_heap (tell : Heap → α) : Sees fun env => tell env.heap :=
  fun _ _ _ => rfl

theorem sees_string? (value : Value) : Sees (·.string? value) := by
  intro env other alike
  change string? _ value = string? _ value
  unfold string?
  split
  · rename_i text
    have told : ∀ unit : Option LoadedUnit,
        (unit.bind fun unit => unit.program.string? text.index) =
          (unit.map (·.program)).bind (·.string? text.index) := by
      intro unit
      cases unit <;> rfl
    exact (told _).trans (alike.unit text.unit ▸ (told _).symm)
  · rfl

theorem sees_isTruthy (value : Value) : Sees (·.isTruthy value) := by
  intro env other alike
  have same : ∀ value, string? { other with heap := env.heap } value = _ :=
    fun value => sees_string? value env other alike
  change isTruthy _ value = isTruthy _ value
  unfold isTruthy
  simp only [same]

/-- Equality depends on texts at most. -/
theorem sees_equals (left right : Value) : Sees (·.equals left right) := by
  intro env other alike
  have same : ∀ value, string? { other with heap := env.heap } value = _ :=
    fun value => sees_string? value env other alike
  change equals _ left right = equals _ left right
  unfold equals
  simp only [same]

/-- And so does the order. -/
theorem sees_order? (left right : Value) : Sees (·.order? left right) := by
  intro env other alike
  have same : ∀ value, string? { other with heap := env.heap } value = _ :=
    fun value => sees_string? value env other alike
  change order? _ left right = order? _ left right
  unfold order?
  split
  · rfl
  · rw [same, same]

theorem sees_text (value : Value) : Sees (·.text value) := by
  intro env other alike
  have same : ∀ value, string? { other with heap := env.heap } value = _ :=
    fun value => sees_string? value env other alike
  change text _ value = text _ value
  unfold text nativeName?
  simp only [same]
  simp only [alike.natives]

/-- A key is a string. -/
theorem sees_propertyKey? (key : Value) : Sees (·.propertyKey? key) := by
  intro env other alike
  have same : ∀ value, string? { other with heap := env.heap } value = _ :=
    fun value => sees_string? value env other alike
  change propertyKey? _ key = propertyKey? _ key
  unfold propertyKey?
  simp only [same]

theorem sees_applyUnary (op : UnaryOp) (value : Value) : Sees (·.applyUnary op value) := by
  intro env other alike
  have same : ∀ value, isTruthy { other with heap := env.heap } value = _ :=
    fun value => sees_isTruthy value env other alike
  change applyUnary _ op value = applyUnary _ op value
  unfold applyUnary
  simp only [same]

/-! ## Operators and elements -/

/-- A binary operation makes a string at most. -/
theorem blind_applyBinary (op : BinaryOp) (left right : Value) :
    Blind (applyBinary op left right).run := by
  have joined : Sees fun env => env.text left ++ env.text right := by
    intro env other alike
    exact congr (congrArg HAppend.hAppend (sees_text left _ _ alike)) (sees_text right _ _ alike)
  unfold applyBinary
  split
  · exact blindAction_bind (blindAction_view (sees_equals _ _)) fun _ => blindAction_pure _
  · exact blindAction_bind (blindAction_view (sees_equals _ _)) fun _ => blindAction_pure _
  · exact blindAction_bind (blindAction_view (sees_order? _ _)) fun _ => blindAction_pure _
  · exact blindAction_bind (blindAction_view (sees_order? _ _)) fun _ => blindAction_pure _
  · exact blindAction_bind (blindAction_view (sees_order? _ _)) fun _ => blindAction_pure _
  · exact blindAction_bind (blindAction_view (sees_order? _ _)) fun _ => blindAction_pure _
  · split
    · exact blindAction_bind (blindAction_view joined) fun _ => blindAction_onHeap _
    · exact blindAction_pure _
  · exact blindAction_pure _

/-- An index is seen in the key. -/
theorem blind_elementIndex (key : Value) : Blind (elementIndex key).run := by
  unfold elementIndex
  split
  · exact blindAction_pure _
  · exact blindAction_throw _

theorem blind_propertyKey (key : Value) : Blind (propertyKey key).run := by
  refine blindAction_bind (blindAction_view (sees_propertyKey? key)) fun found => ?_
  cases found with
  | none => exact blindAction_throw _
  | some name => exact blindAction_pure _

theorem blind_lengthOr (key : Value) {length : Environment → Nat} (sees : Sees length) :
    Blind (lengthOr key length).run := by
  refine blindAction_bind (blindAction_view (sees_string? key)) fun found => ?_
  split
  · exact blindAction_bind (blindAction_view sees) fun _ => blindAction_pure _
  · exact blindAction_pure _

theorem blind_readElement (found : Option Value) : Blind (readElement found).run :=
  blindAction_bind (blindAction_lift (blind_retain _)) fun _ => blindAction_pure _

/-- A character of a text, or the text's length. -/
theorem blind_character (container key : Value) : Blind (character container key).run := by
  have length : Sees fun env => ((env.string? container).map (·.length)).getD 0 :=
    fun env other alike =>
      congrArg (fun text => (text.map (·.length)).getD 0) (sees_string? container _ _ alike)
  unfold character
  split
  · exact blind_lengthOr key length
  · refine blindAction_bind (blind_elementIndex key) fun index => ?_
    refine blindAction_bind (blindAction_view (sees_string? container)) fun text => ?_
    split
    · exact blindAction_onHeap _
    · exact blindAction_pure _

/-- So it is blind to read an element. -/
theorem blind_getElement (container key : Value) : Blind (getElement container key).run := by
  cases container with
  | array block =>
      unfold getElement
      dsimp only
      split
      · exact blind_lengthOr key (sees_heap fun heap => (heap.arrayLength? block).getD 0)
      · exact blindAction_bind (blind_elementIndex key) fun index =>
          blindAction_bind (blindAction_view (sees_heap (·.arrayGet? block index))) fun found =>
            blind_readElement found
  | object block =>
      exact blindAction_bind (blind_propertyKey key) fun name =>
        blindAction_bind (blindAction_view (sees_heap (·.objectGet? block name))) fun found =>
          blind_readElement found
  | constant | string | foreign =>
      rw [getElement_of_isString rfl]
      exact blind_character _ key
  | _ => exact blindAction_throw _

/-- And to set one. -/
theorem blind_setElement (container key value : Value) :
    Blind (setElement container key value).run := by
  unfold setElement
  split
  · exact blindAction_bind (blind_elementIndex key) fun index =>
      blindAction_bind (blindAction_lift (blind_retain value)) fun _ => blindAction_onHeap _
  · exact blindAction_bind (blind_propertyKey key) fun name =>
      blindAction_bind (blindAction_lift (blind_retain value)) fun _ => blindAction_onHeap _
  · exact blindAction_throw _

end Environment

end PocketScript
