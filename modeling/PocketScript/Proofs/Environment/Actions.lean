import PocketScript.Machine

/-!
# How actions run

What an update or an action built from others does with an environment, one equation for each way of
building them.
-/

namespace PocketScript

namespace Environment

variable {α β : Type} {env : Environment}

/-! ## Updates -/

theorem update_bind (first : Update α) (next : α → Update β) (env : Environment) :
    (first >>= next) env = next (first env).1 (first env).2 := rfl

theorem update_pure (value : α) (env : Environment) :
    (pure value : Update α) env = (value, env) := rfl

theorem update_view (tell : Environment → α) (env : Environment) :
    (view tell : Update α) env = (tell env, env) := rfl

/-- A change has no result. -/
theorem update_modify (change : Environment → Environment) (env : Environment) :
    (modify change : Update Unit) env = ((), change env) := rfl

/-! ## Actions -/

theorem action_bind (first : Action α) (next : α → Action β) (env : Environment) :
    (first >>= next) env =
      match first env with
      | (.ok value, after) => next value after
      | (.error fault, after) => (.error fault, after) := by
  change (StateT.bind first (ExceptT.bindCont next) : StateM Environment _) env = _
  unfold StateT.bind
  generalize first env = outcome
  obtain ⟨fault | value, after⟩ := outcome <;> rfl

theorem action_pure (value : α) (env : Environment) :
    (pure value : Action α) env = (.ok value, env) := rfl

theorem action_throw (fault : Fault) (env : Environment) :
    (throw fault : Action α) env = (.error fault, env) := rfl

theorem action_lift (update : Update α) (env : Environment) :
    (liftM update : Action α) env =
      (.ok (update env).1, (update env).2) := rfl

/-- However it is called. -/
theorem action_monadLift (update : Update α) (env : Environment) :
    (monadLift update : Action α) env =
      (.ok (update env).1, (update env).2) := rfl

theorem action_lift_bind (first : Update α) (next : α → Update β) :
    (liftM (first >>= next) : Action β) = liftM first >>= fun value => liftM (next value) := rfl

/-- A look always succeeds. -/
theorem action_view (tell : Environment → α) (env : Environment) :
    (view tell : Action α) env = (.ok (tell env), env) := rfl

/-- And so does a change. -/
theorem action_modify (change : Environment → Environment) (env : Environment) :
    (modify change : Action Unit) env = (.ok (), change env) := rfl

theorem action_map (change : α → β) (first : Action α) (env : Environment) :
    (change <$> first) env =
      ((first env).1.map change, (first env).2) := by
  simp only [Functor.map, ExceptT.map, ExceptT.mk, bind, StateT.bind]
  generalize first env = outcome
  obtain ⟨fault | value, after⟩ := outcome <;> rfl

theorem action_discard (first : Action α) (env : Environment) :
    (discard first : Action Unit) env =
      ((first env).1.map fun _ => (), (first env).2) :=
  action_map _ first env

theorem action_tryCatch (first : Action α) (handle : Fault → Action α)
    (env : Environment) :
    (tryCatch first handle : Action α) env =
      match first env with
      | (.ok value, after) => (.ok value, after)
      | (.error fault, after) => handle fault after := by
  simp only [tryCatch, tryCatchThe, MonadExceptOf.tryCatch, ExceptT.tryCatch, ExceptT.mk, bind,
    StateT.bind]
  generalize first env = outcome
  obtain ⟨fault | value, after⟩ := outcome <;> rfl

/-- What an action does that starts with a successful one. -/
theorem action_bind_ok {first : Action α} {next : α → Action β} {value : α} {after : Environment}
    (done : first env = (.ok value, after)) :
    (first >>= next) env = next value after := by
  rw [action_bind, done]

/-- An action that starts with a failing one fails. -/
theorem action_bind_error {first : Action α} {next : α → Action β} {fault : Fault}
    {after : Environment} (failed : first env = (.error fault, after)) :
    (first >>= next) env = (.error fault, after) := by
  rw [action_bind, failed]

/-- An action that succeeds does so in each of its parts. -/
theorem action_bind_eq_ok {first : Action α} {next : α → Action β} {value : β}
    {after : Environment} :
    (first >>= next) env = (.ok value, after) ↔
      ∃ result middle, first env = (.ok result, middle) ∧
        next result middle = (.ok value, after) := by
  rw [action_bind]
  generalize first env = outcome
  obtain ⟨fault | result, middle⟩ := outcome
  · constructor
    · intro impossible
      cases impossible
    · rintro ⟨_, _, impossible, -⟩
      cases impossible
  · constructor
    · exact fun done => ⟨result, middle, rfl, done⟩
    · rintro ⟨_, _, same, done⟩
      cases same
      exact done

/-! ## Elements of strings -/

/-- What a string has at a key: its length, or one of its characters. -/
def character (container key : Value) : Action Value := do
  if key.isString then
    lengthOr key fun env => ((env.string? container).map (·.length)).getD 0
  else
    let index ← elementIndex key
    let text ← view (·.string? container)
    match text.bind (·.toList[index]?) with
    | some character => onHeap (·.allocString character.toString)
    | none => return .undefined

theorem getElement_of_isString {container : Value} (text : container.isString) (key : Value) :
    getElement container key = character container key := by
  cases container with
  | constant | string | foreign => rfl
  | _ => cases text

end Environment

end PocketScript
