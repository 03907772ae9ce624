import PocketScript.Proofs.Environment.Globals

/-!
# What an instruction does with the stacks

Apart from jumps, calls and returns, an instruction neither sees nor changes the frames. It reaches
nothing below the operands of its function, and when it succeeds, the stack is higher by as much as
the compiler counts for it (`Environment.confined_execute`).
-/

namespace PocketScript

/-- The operation always goes on with the next instruction, in the same function. -/
def Opcode.isPlain (op : Opcode) : Bool :=
  !(op.isJump || op == .call || op == .ret || op == .retUndefined)

namespace Environment

variable {α β : Type} {floor : Nat} {net one two : Int}

/-- An action neither sees nor changes the frames. It leaves what there is of the stack below a
floor, and changes the height by a certain number when it succeeds. The programs and the
configuration stay. -/
structure Confined (floor : Nat) (net : Int) (action : Action α) : Prop where
  frames : ∀ env frames, action { env with frames } =
    ((action env).1, { (action env).2 with frames })
  floor : ∀ env, floor ≤ env.stack.size →
    floor ≤ (action env).2.stack.size
  height : ∀ env result after, action env = (.ok result, after) →
    (after.stack.size : Int) = env.stack.size + net
  programs : ∀ env, (action env).2.programs = env.programs
  config : ∀ env, (action env).2.config = env.config

/-! ## How confined actions are built -/

theorem Confined.of_eq {other : Int} {action : Action α} (confined : Confined floor net action)
    (same : net = other) : Confined floor other action :=
  same ▸ confined

/-- An action that keeps the stack and the programs, and neither sees nor changes the frames. -/
theorem confined_of_keeps {action : Action α}
    (frames : ∀ env frames, action { env with frames } =
      ((action env).1, { (action env).2 with frames }))
    (stack : ∀ env, (action env).2.stack = env.stack)
    (programs : ∀ env, (action env).2.programs = env.programs)
    (config : ∀ env, (action env).2.config = env.config) :
    Confined floor 0 action where
  frames := frames
  floor env above := by rw [stack]; exact above
  height env result after done := by
    have same := stack env
    rw [done] at same
    rw [same, Int.add_zero]
  programs := programs
  config := config

theorem confined_pure (value : α) : Confined floor 0 (pure value : Action α) :=
  confined_of_keeps (fun _ _ => rfl) (fun _ => rfl) (fun _ => rfl) fun _ => rfl

/-- A fault fits everywhere. -/
theorem confined_throw (fault : Fault) : Confined floor net (throw fault : Action α) where
  frames _ _ := rfl
  floor _ := id
  height _ _ _ done := by cases done
  programs _ := rfl
  config _ := rfl

theorem confined_view {tell : Environment → α}
    (sees : ∀ env frames, tell { env with frames } = tell env) :
    Confined floor 0 (view tell : Action α) := by
  refine confined_of_keeps (fun env frames => ?_) (fun _ => rfl) (fun _ => rfl) fun _ => rfl
  rw [action_view, action_view, sees]

theorem confined_blind {action : Action α} (blind : Blind action.run) :
    Confined floor 0 action := by
  have after : ∀ env, (action env).2 =
      { env with heap := (action env).2.heap } := blind.after
  refine confined_of_keeps (fun env frames => ?_) (fun env => ?_)
    (fun env => ?_) fun env => ?_
  · rw [after env]
    exact blind env { env with frames } ⟨rfl, rfl⟩
  · rw [after env]
  · rw [after env]
    rfl
  · rw [after env]

theorem confined_lift {update : Update α} (blind : Blind update) :
    Confined floor 0 (liftM update : Action α) :=
  confined_blind (blindAction_lift blind)

/-- In a row actions change the height by what they do together. -/
theorem confined_bind {first : Action α} {next : α → Action β} (before : Confined floor one first)
    (behind : ∀ value, Confined floor two (next value)) :
    Confined floor (one + two) (first >>= next) where
  frames env frames := by
    rw [action_bind, action_bind, before.frames]
    generalize first env = outcome
    obtain ⟨fault | value, middle⟩ := outcome
    · rfl
    · exact (behind value).frames middle frames
  floor env above := by
    have kept := before.floor env above
    rw [action_bind]
    generalize first env = outcome at kept
    obtain ⟨fault | value, middle⟩ := outcome
    · exact kept
    · exact (behind value).floor middle kept
  height env result after done := by
    obtain ⟨value, middle, ran, ended⟩ := action_bind_eq_ok.mp done
    rw [(behind value).height _ _ _ ended, before.height _ _ _ ran]
    omega
  programs env := by
    have kept := before.programs env
    rw [action_bind]
    generalize first env = outcome at kept
    obtain ⟨fault | value, middle⟩ := outcome
    · exact kept
    · exact ((behind value).programs middle).trans kept
  config env := by
    have kept := before.config env
    rw [action_bind]
    generalize first env = outcome at kept
    obtain ⟨fault | value, middle⟩ := outcome
    · exact kept
    · exact ((behind value).config middle).trans kept

/-- Behind an action that leaves the height of the stack. -/
theorem confined_after {first : Action α} {next : α → Action β} (before : Confined floor 0 first)
    (behind : ∀ value, Confined floor net (next value)) : Confined floor net (first >>= next) :=
  (confined_bind before behind).of_eq (Int.zero_add net)

theorem confined_tryCatch {first : Action α} {handle : Fault → Action α}
    (before : Confined floor 0 first) (behind : ∀ fault, Confined floor 0 (handle fault))
    (kept : ∀ env, (first env).2.stack.size = env.stack.size) :
    Confined floor 0 (tryCatch first handle : Action α) where
  frames env frames := by
    rw [action_tryCatch, action_tryCatch, before.frames]
    generalize first env = outcome
    obtain ⟨fault | value, middle⟩ := outcome
    · exact (behind fault).frames middle frames
    · rfl
  floor env above := by
    have kept := before.floor env above
    rw [action_tryCatch]
    generalize first env = outcome at kept
    obtain ⟨fault | value, middle⟩ := outcome
    · exact (behind fault).floor middle kept
    · exact kept
  height env result after done := by
    have same := kept env
    rw [action_tryCatch] at done
    generalize first env = outcome at done same
    obtain ⟨fault | value, middle⟩ := outcome
    · rw [(behind fault).height _ _ _ done, same]
    · cases done
      rw [same, Int.add_zero]
  programs env := by
    have kept := before.programs env
    rw [action_tryCatch]
    generalize first env = outcome at kept
    obtain ⟨fault | value, middle⟩ := outcome
    · exact ((behind fault).programs middle).trans kept
    · exact kept
  config env := by
    have kept := before.config env
    rw [action_tryCatch]
    generalize first env = outcome at kept
    obtain ⟨fault | value, middle⟩ := outcome
    · exact ((behind fault).config middle).trans kept
    · exact kept

/-! ## The stack -/

/-- A push makes the stack higher by one. -/
theorem confined_push (value : Value) : Confined floor 1 (push value) := by
  have outcome : ∀ env, push value env =
      if env.stack.size < env.config.stackSize then
        (.ok (), { env with stack := env.stack.push value })
      else (.error .stackOverflow, (release value env).2) := by
    intro env
    unfold push
    rw [action_bind_ok (action_view _ _), action_bind_ok (action_view _ _)]
    split <;> rfl
  have released : ∀ env, (release value env).2 =
      { env with heap := (release value env).2.heap } := (blind_release value).after
  constructor
  · intro env frames
    rw [outcome, outcome]
    simp only
    split <;> rfl
  · intro env above
    rw [outcome]
    split
    · exact Nat.le_trans above (Array.size_push value ▸ Nat.le_succ _)
    · rw [released]
      exact above
  · intro env result after done
    rw [outcome] at done
    split at done
    · cases done
      exact congrArg Nat.cast (Array.size_push value)
    · cases done
  · intro env
    rw [outcome]
    split <;> rfl
  · intro env
    rw [outcome]
    split <;> rfl

/-- Also when the value is shared. -/
theorem confined_pushShared (value : Value) : Confined floor 1 (pushShared value) :=
  confined_after (confined_lift (blind_retain value)) fun _ => confined_push value

theorem confined_requireOperands (base count : Nat) :
    Confined floor 0 (requireOperands base count) := by
  refine confined_after (confined_view fun _ _ => rfl) fun depth => ?_
  split
  · exact confined_throw _
  · exact confined_pure _

theorem confined_slot (place : Nat) : Confined floor 0 (slot place) := by
  refine confined_after (confined_view fun _ _ => rfl) fun found => ?_
  split
  · exact confined_pure _
  · exact confined_throw _

theorem confined_peek (base below : Nat) : Confined floor 0 (peek base below) :=
  confined_after (confined_requireOperands _ _) fun _ =>
    confined_after (confined_view fun _ _ => rfl) fun _ => confined_slot _

/-- Operands that are demanded are there, or the stack is too low. -/
theorem requireOperands_cases (base count : Nat) (env : Environment) :
    (env.stack.size < base + count ∧
      requireOperands base count env = (.error .stackUnderflow, env)) ∨
        (base + count ≤ env.stack.size ∧
          requireOperands base count env = (.ok (), env)) := by
  unfold requireOperands
  rw [action_bind_ok (action_view _ _)]
  by_cases few : env.stack.size < base + count
  · rw [if_pos few]
    exact .inl ⟨few, rfl⟩
  · rw [if_neg few]
    exact .inr ⟨Nat.not_lt.mp few, rfl⟩

/-- An operand is found above the floor, or the stack is too low. -/
theorem peek_cases (base below : Nat) (env : Environment) :
    (env.stack.size ≤ base + below ∧
      peek base below env = (.error .stackUnderflow, env)) ∨
        ∃ value, base + below < env.stack.size ∧
          env.stack[env.stack.size - 1 - below]? = some value ∧
            peek base below env = (.ok value, env) := by
  unfold peek
  obtain ⟨few, failed⟩ | ⟨enough, done⟩ := requireOperands_cases base (below + 1) env
  · exact .inl ⟨by omega, action_bind_error failed⟩
  · have inside : env.stack.size - 1 - below < env.stack.size := by omega
    refine .inr ⟨_, by omega, Array.getElem?_eq_getElem inside, ?_⟩
    rw [action_bind_ok done, action_bind_ok (action_view _ _),
      slot_eq_ok (Array.getElem?_eq_getElem inside)]

/-- The topmost operand is taken, or the stack is too low. -/
theorem pop_cases (base : Nat) (env : Environment) :
    (env.stack.size ≤ base ∧
      pop base env = (.error .stackUnderflow, env)) ∨
        ∃ value, base < env.stack.size ∧ env.stack.back? = some value ∧
          pop base env =
            (.ok value, { env with stack := env.stack.pop }) := by
  unfold pop
  obtain ⟨few, failed⟩ | ⟨value, enough, there, done⟩ := peek_cases base 0 env
  · exact .inl ⟨few, action_bind_error failed⟩
  · exact .inr ⟨value, enough, by rw [Array.back?_eq_getElem?]; exact there, action_bind_ok done⟩

/-- But only what lies above the floor may be taken. -/
theorem confined_pop {base : Nat} (below : floor ≤ base) : Confined floor (-1) (pop base) := by
  constructor
  · intro env frames
    unfold pop
    rw [action_bind, action_bind, (@confined_peek floor base 0).frames]
    generalize peek base 0 env = outcome
    obtain ⟨fault | value, middle⟩ := outcome <;> rfl
  · intro env above
    obtain ⟨-, failed⟩ | ⟨value, enough, -, done⟩ := pop_cases base env
    · rw [failed]
      exact above
    · rw [done, Array.size_pop]
      omega
  · intro env result after done
    obtain ⟨-, failed⟩ | ⟨value, enough, -, popped⟩ := pop_cases base env
    · rw [failed] at done
      cases done
    · rw [popped] at done
      cases done
      rw [Array.size_pop]
      omega
  · intro env
    obtain ⟨-, failed⟩ | ⟨value, -, -, done⟩ := pop_cases base env
    · rw [failed]
    · rw [done]
      rfl
  · intro env
    obtain ⟨-, failed⟩ | ⟨value, -, -, done⟩ := pop_cases base env
    · rw [failed]
    · rw [done]

/-- The topmost operands are taken, or the stack is too low. -/
theorem popMany_cases (base count : Nat) (env : Environment) :
    (env.stack.size < base + count ∧
      popMany base count env = (.error .stackUnderflow, env)) ∨
        (base + count ≤ env.stack.size ∧ popMany base count env =
          (.ok (env.stack.extract (env.stack.size - count)).toList,
            { env with
              stack := env.stack.shrink (env.stack.size - count) })) := by
  unfold popMany
  obtain ⟨few, failed⟩ | ⟨enough, done⟩ := requireOperands_cases base count env
  · exact .inl ⟨few, action_bind_error failed⟩
  · refine .inr ⟨enough, ?_⟩
    rw [action_bind_ok done, action_bind_ok (action_view _ _)]
    rfl

/-- Also when several are taken at once. -/
theorem confined_popMany {base : Nat} (below : floor ≤ base) (count : Nat) :
    Confined floor (-count) (popMany base count) := by
  constructor
  · intro env frames
    unfold popMany
    rw [action_bind, action_bind, (@confined_requireOperands floor base count).frames]
    generalize requireOperands base count env = outcome
    obtain ⟨fault | value, middle⟩ := outcome <;> rfl
  · intro env above
    obtain ⟨-, failed⟩ | ⟨enough, done⟩ := popMany_cases base count env
    · rw [failed]
      exact above
    · rw [done, Array.size_shrink]
      omega
  · intro env result after done
    obtain ⟨-, failed⟩ | ⟨enough, popped⟩ := popMany_cases base count env
    · rw [failed] at done
      cases done
    · rw [popped] at done
      cases done
      rw [Array.size_shrink]
      omega
  · intro env
    obtain ⟨-, failed⟩ | ⟨-, done⟩ := popMany_cases base count env
    · rw [failed]
    · rw [done]
      rfl
  · intro env
    obtain ⟨-, failed⟩ | ⟨-, done⟩ := popMany_cases base count env
    · rw [failed]
    · rw [done]

/-- A value of the stack is replaced, or there is none at the place. -/
theorem replaceSlot_cases (place : Nat) (value : Value) (env : Environment) :
    (env.stack[place]? = none ∧
      replaceSlot place value env = (.error .invalidOperand, env)) ∨
        ∃ old, env.stack[place]? = some old ∧ replaceSlot place value env =
          (.ok old, { env with stack := env.stack.setIfInBounds place value }) := by
  unfold replaceSlot
  cases there : env.stack[place]? with
  | none => exact .inl ⟨rfl, action_bind_error (slot_eq_error there)⟩
  | some old => exact .inr ⟨old, rfl, action_bind_ok (slot_eq_ok there)⟩

/-- A slot that is filled anew stays where it is. -/
theorem confined_replaceSlot (place : Nat) (value : Value) :
    Confined floor 0 (replaceSlot place value) := by
  constructor
  · intro env frames
    unfold replaceSlot
    rw [action_bind, action_bind, (@confined_slot floor place).frames]
    generalize slot place env = outcome
    obtain ⟨fault | value, middle⟩ := outcome <;> rfl
  · intro env above
    obtain ⟨-, failed⟩ | ⟨old, -, done⟩ := replaceSlot_cases place value env
    · rw [failed]
      exact above
    · rw [done, Array.size_setIfInBounds]
      exact above
  · intro env result after done
    obtain ⟨-, failed⟩ | ⟨old, -, replaced⟩ := replaceSlot_cases place value env
    · rw [failed] at done
      cases done
    · rw [replaced] at done
      cases done
      rw [Array.size_setIfInBounds, Int.add_zero]
  · intro env
    obtain ⟨-, failed⟩ | ⟨old, -, done⟩ := replaceSlot_cases place value env
    · rw [failed]
    · rw [done]
      rfl
  · intro env
    obtain ⟨-, failed⟩ | ⟨old, -, done⟩ := replaceSlot_cases place value env
    · rw [failed]
    · rw [done]

/-! ## Variables and globals -/

variable {activation : Activation} {index : UInt16}

theorem confined_found (value : Option α) : Confined floor 0 (found value) := by
  cases value with
  | none => exact confined_throw _
  | some value => exact confined_pure value

theorem confined_localPlace : Confined floor 0 (activation.localPlace index) := by
  unfold Activation.localPlace
  split
  · exact confined_pure _
  · exact confined_throw _

/-- The heap lies beside the stacks. -/
theorem confined_onHeap (operation : Heap → Heap.Outcome α) :
    Confined floor 0 (onHeap operation) :=
  confined_blind (blindAction_onHeap operation)

theorem confined_retain (value : Value) : Confined floor 0 (retain value : Action Unit) :=
  confined_lift (blind_retain value)

theorem confined_release (value : Value) : Confined floor 0 (release value : Action Unit) :=
  confined_lift (blind_release value)

theorem confined_releaseAll (values : List Value) :
    Confined floor 0 (releaseAll values : Action Unit) :=
  confined_lift (blind_releaseAll values)

theorem confined_localCell : Confined floor 0 (localCell activation index) := by
  refine confined_after confined_localPlace fun place => ?_
  refine confined_after (confined_slot place) fun value => ?_
  split
  · exact confined_pure _
  · exact confined_throw _

theorem confined_upvalueCell : Confined floor 0 (upvalueCell activation index) := by
  refine confined_after (confined_found _) fun closure => ?_
  refine confined_after (confined_view fun _ _ => rfl) fun cell => ?_
  split
  · exact confined_pure _
  · exact confined_throw _

/-- The value of a cell is pushed. -/
theorem confined_pushCellValue (cell : Handle) : Confined floor 1 (pushCellValue cell) :=
  confined_after (confined_view fun _ _ => rfl) fun _ =>
    confined_after (confined_found _) fun value => confined_pushShared value

theorem confined_storeInCell (cell : Handle) : Confined floor 0 (storeInCell activation cell) :=
  confined_after (confined_peek _ _) fun value =>
    confined_after (confined_retain value) fun _ => confined_onHeap _

theorem confined_storeLocal : Confined floor 0 (storeLocal activation index) :=
  confined_after confined_localPlace fun place =>
    confined_after (confined_peek _ _) fun value =>
      confined_after (confined_retain value) fun _ =>
        confined_after (confined_replaceSlot place value) fun old => confined_release old

theorem confined_discard {action : Action α} (confined : Confined floor net action) :
    Confined floor net (discard action) := by
  constructor
  · intro env frames
    rw [action_discard, action_discard, confined.frames]
  · intro env above
    rw [action_discard]
    exact confined.floor env above
  · intro env result after done
    rw [action_discard] at done
    have height := confined.height env
    generalize action env = outcome at done height
    obtain ⟨fault | value, middle⟩ := outcome
    · cases done
    · cases done
      exact height value middle rfl
  · intro env
    rw [action_discard]
    exact confined.programs env
  · intro env
    rw [action_discard]
    exact confined.config env

theorem confined_makeCell : Confined floor 0 (makeCell activation index) :=
  confined_after confined_localPlace fun place =>
    confined_after (confined_replaceSlot place _) fun _ =>
      confined_after (confined_onHeap _) fun cell =>
        confined_discard (confined_replaceSlot place cell)

theorem programs_noteSlot (unit : Nat) (name : UInt16) (slot : Nat) (env : Environment) :
    (noteSlot unit name slot env).2.programs = env.programs := by
  change (env.units.modify unit fun loaded =>
    { loaded with slots := loaded.slots.setIfInBounds name.toNat (some slot) }).map (·.program) =
      env.units.map (·.program)
  apply Array.ext
  · simp only [Array.size_map, Array.size_modify]
  · intro place _ _
    simp only [Array.getElem_map, Array.getElem_modify]
    split <;> rfl

/-- The slot of a global is found beside the stacks. -/
theorem confined_namedSlot : Confined floor 0 (namedSlot activation index) := by
  refine confined_after (confined_view fun _ _ => rfl) fun noted => ?_
  split
  · exact confined_pure _
  · refine confined_after (confined_found _) fun text => ?_
    refine confined_after (confined_view fun _ _ => rfl) fun known => ?_
    split
    · exact confined_pure _
    · refine confined_after ?_ fun _ => confined_pure _
      exact confined_of_keeps (fun _ _ => rfl) (fun _ => rfl) (programs_noteSlot _ _ _) fun _ => rfl

theorem stack_namedSlot (env : Environment) :
    (namedSlot activation index env).2.stack = env.stack := by
  unfold namedSlot
  rw [action_bind_ok (action_view _ _)]
  cases env.notedSlot? activation.unit index with
  | some slot => rfl
  | none =>
      cases named : activation.program.string? index with
      | none => rfl
      | some text =>
          simp only
          rw [action_bind_ok (found_some _ _), action_bind_ok (action_view _ _)]
          cases env.globalSlot? text <;> rfl

theorem setGlobal_eq (slot : Nat) (value : Value) (env : Environment) :
    setGlobal slot value env =
      releaseAll (env.globals[slot]?.map (·.2)).toList
        { env with
          globals := env.globals.modify slot fun (name, _) => (name, value) } := rfl

/-- Globals lie beside the stacks. -/
theorem confined_setGlobal (slot : Nat) (value : Value) :
    Confined floor 0 (setGlobal slot value : Action Unit) :=
  confined_of_keeps (fun _ _ => rfl) (fun _ => rfl) (fun _ => rfl) fun _ => rfl

/-- So does a new global. -/
theorem confined_defineGlobal (name : String) (value : Value) :
    Confined floor 0 (defineGlobal name value : Action Unit) := by
  have outcome : ∀ env, (liftM (defineGlobal name value) : Action Unit) env =
      (env.globalSlot? name).elim
        (.ok (), { env with globals := env.globals.push (name, value) })
        fun slot => (.ok (), (setGlobal slot value env).2) := by
    intro env
    rw [action_lift]
    cases known : env.globalSlot? name with
    | none =>
        rw [defineGlobal_new value known]
        rfl
    | some slot =>
        rw [defineGlobal_known value known]
        rfl
  refine confined_of_keeps (fun env frames => ?_) (fun env => ?_)
    (fun env => ?_) fun env => ?_
  · have same : ({ env with frames } : Environment).globalSlot? name =
        env.globalSlot? name := rfl
    rw [outcome, outcome, same]
    cases env.globalSlot? name <;> rfl
  · rw [outcome]
    cases env.globalSlot? name <;> rfl
  · rw [outcome]
    cases env.globalSlot? name <;> rfl
  · rw [outcome]
    cases env.globalSlot? name <;> rfl

theorem confined_assignGlobal (value : Value) :
    Confined floor 0 (assignGlobal activation index value) := by
  refine confined_after (confined_tryCatch confined_namedSlot (fun fault => ?_)
    fun env => congrArg Array.size (stack_namedSlot env)) fun slot => ?_
  · exact confined_after (confined_release value) fun _ => confined_throw fault
  · split
    · exact confined_setGlobal _ value
    · exact confined_defineGlobal _ value

/-- The value of a global is pushed. -/
theorem confined_loadGlobal : Confined floor 1 (loadGlobal activation index) := by
  refine confined_after confined_namedSlot fun slot => ?_
  split
  · exact confined_throw _
  · exact confined_after (confined_view fun _ _ => rfl) fun binding =>
      confined_after (confined_found binding) fun _ => confined_pushShared _

theorem confined_storeGlobal : Confined floor 0 (storeGlobal activation index) :=
  confined_after (confined_peek _ _) fun value =>
    confined_after (confined_retain value) fun _ => confined_assignGlobal value

theorem confined_defineNamed (below : floor ≤ activation.floor) :
    Confined floor (-1) (defineNamed activation index) :=
  (confined_bind (confined_pop below) fun value => confined_assignGlobal value).of_eq rfl

theorem confined_declareGlobal : Confined floor 0 (declareGlobal activation index) := by
  refine confined_after confined_namedSlot fun slot => ?_
  split
  · exact confined_assignGlobal .undefined
  · exact confined_pure ()

/-! ## Constants and literals -/

/-- A number is pushed. -/
theorem confined_pushNumber : Confined floor 1 (pushNumber activation index) :=
  confined_after (confined_found _) fun _ => confined_push _

/-- A string constant is pushed. -/
theorem confined_pushString : Confined floor 1 (pushString activation index) :=
  confined_after (confined_discard (confined_found _)) fun _ => confined_push _

/-- A function is pushed. -/
theorem confined_pushFunction : Confined floor 1 (pushFunction activation index) :=
  confined_after (confined_discard (confined_found _)) fun _ => confined_push _

/-- The closure takes the place of its cells. -/
theorem confined_makeClosure (below : floor ≤ activation.floor) (count : UInt16) :
    Confined floor (1 - count.toNat) (makeClosure activation index count) := by
  refine confined_after (confined_discard (confined_found _)) fun _ => ?_
  refine (confined_bind (confined_popMany below count.toNat) fun cells =>
    (?_ : Confined floor 1 _)).of_eq (by omega)
  split
  · exact confined_after (confined_onHeap _) fun _ => confined_push _
  · exact confined_after (confined_releaseAll cells) fun _ =>
      confined_after (confined_throw _) fun _ =>
        confined_after (confined_onHeap _) fun _ => confined_push _

/-- An array takes the place of its elements. -/
theorem confined_makeArray (below : floor ≤ activation.floor) :
    Confined floor (1 - index.toNat) (makeArray activation index) :=
  (confined_bind (confined_popMany below index.toNat) fun _ =>
    confined_after (confined_onHeap _) fun _ => confined_push _).of_eq (by omega)

theorem blind_view {tell : Environment → α} (sees : Sees tell) :
    Blind (view tell : Update α) := by
  intro env other alike
  rw [update_view, update_view, sees _ _ alike]

theorem blind_pure (value : α) : Blind (pure value : Update α) := fun _ _ _ => rfl

theorem blind_releaseUnkeyed : ∀ values, Blind (takeProperties.releaseUnkeyed values)
  | key :: value :: rest => by
      unfold takeProperties.releaseUnkeyed
      exact blind_bind (blind_release value) fun _ => blind_bind (blind_release key) fun _ =>
        blind_releaseUnkeyed rest
  | [] => blind_pure ()
  | [_] => blind_pure ()

theorem blind_takeProperties : ∀ properties values, Blind (takeProperties properties values)
  | properties, key :: value :: rest => by
      unfold takeProperties
      refine blind_bind (blind_view (sees_string? key)) fun name => ?_
      cases name with
      | some name =>
          exact blind_bind (blind_release key) fun _ => blind_takeProperties _ rest
      | none =>
          exact blind_bind (blind_releaseUnkeyed _) fun _ =>
            blind_bind (blind_releaseAll _) fun _ => blind_pure none
  | properties, [] => blind_pure (some properties)
  | properties, [_] => blind_pure (some properties)

theorem confined_makeObject (below : floor ≤ activation.floor) :
    Confined floor (1 - 2 * index.toNat) (makeObject activation index) := by
  refine (confined_bind (confined_popMany below (2 * index.toNat)) fun values =>
    confined_after (confined_lift (blind_takeProperties #[] values)) fun properties =>
      (?_ : Confined floor 1 _)).of_eq (by omega)
  split
  · exact confined_after (confined_onHeap _) fun _ => confined_push _
  · exact confined_throw _

/-! ## Operators and elements -/

theorem confined_unary (below : floor ≤ activation.floor) (op : UnaryOp) :
    Confined floor 0 (unary activation op) :=
  (confined_bind (confined_pop below) fun value =>
    confined_after (confined_view fun _ _ => rfl) fun result =>
      confined_after (confined_release value) fun _ => confined_push result).of_eq rfl

theorem confined_binary (below : floor ≤ activation.floor) (op : BinaryOp) :
    Confined floor (-1) (binary activation op) :=
  (confined_bind (confined_pop below) fun right => confined_bind (confined_pop below) fun left =>
    confined_after (confined_blind (blind_releasingAfter _ (blind_applyBinary op left right)))
      fun result => confined_push result).of_eq rfl

theorem confined_pushElement (below : floor ≤ activation.floor) :
    Confined floor (-1) (pushElement activation) :=
  (confined_bind (confined_pop below) fun key => confined_bind (confined_pop below) fun container =>
    confined_after (confined_blind (blind_releasingAfter _ (blind_getElement container key)))
      fun result => confined_push result).of_eq rfl

theorem confined_storeElement (below : floor ≤ activation.floor) :
    Confined floor (-2) (storeElement activation) := by
  refine (confined_bind (confined_pop below) fun value =>
    confined_bind (confined_pop below) fun key =>
      confined_bind (confined_pop below) fun container =>
        confined_after (confined_blind ?_) fun _ => confined_push value).of_eq rfl
  exact blindAction_tryCatch (blind_releasingAfter _ (blind_setElement container key value))
    fun fault => blindAction_bind (blindAction_lift (blind_release value)) fun _ =>
      blindAction_throw fault

/-! ## All instructions -/

/-- What an instruction does that goes on with the next one. -/
theorem confined_execute {instr : Instruction} (below : floor ≤ activation.floor)
    (plain : instr.op.isPlain = true) :
    Confined floor (instr.op.stackEffect instr.a instr.b)
      (execute activation instr) := by
  obtain ⟨op, a, b⟩ := instr
  cases op with
  | nop => exact confined_pure ()
  | pushUndefined => exact confined_push _
  | pushNaN => exact confined_push _
  | pushTrue => exact confined_push _
  | pushFalse => exact confined_push _
  | pushZero => exact confined_push _
  | pushInt => exact confined_push _
  | pushNumber => exact confined_pushNumber
  | pushString => exact confined_pushString
  | pushFunction => exact confined_pushFunction
  | makeClosure => exact confined_makeClosure below b
  | makeArray => exact confined_makeArray below
  | makeObject => exact confined_makeObject below
  | pop => exact (confined_bind (confined_pop below) fun value => confined_release value).of_eq rfl
  | dup => exact confined_after (confined_peek _ _) fun value => confined_pushShared value
  | dup2 =>
      exact confined_after (confined_peek _ _) fun first => confined_after (confined_peek _ _)
        fun second => (confined_bind (confined_pushShared first) fun _ =>
          confined_pushShared second).of_eq rfl
  | loadLocal =>
      exact confined_after confined_localPlace fun place => confined_after (confined_slot place)
        fun value => confined_pushShared value
  | storeLocal => exact confined_storeLocal
  | loadCell => exact confined_after confined_localCell fun cell => confined_pushCellValue cell
  | storeCell => exact confined_after confined_localCell fun cell => confined_storeInCell cell
  | makeCell => exact confined_makeCell
  | pushCell => exact confined_after confined_localCell fun cell => confined_pushShared _
  | loadUpvalue => exact confined_after confined_upvalueCell fun cell => confined_pushCellValue cell
  | storeUpvalue => exact confined_after confined_upvalueCell fun cell => confined_storeInCell cell
  | pushUpvalue => exact confined_after confined_upvalueCell fun cell => confined_pushShared _
  | loadGlobal => exact confined_loadGlobal
  | storeGlobal => exact confined_storeGlobal
  | defineGlobal => exact confined_defineNamed below
  | declareGlobal => exact confined_declareGlobal
  | getElem => exact confined_pushElement below
  | setElem => exact confined_storeElement below
  | neg => exact confined_unary below .neg
  | not => exact confined_unary below .not
  | bitNot => exact confined_unary below .bitNot
  | add => exact confined_binary below .add
  | sub => exact confined_binary below .sub
  | mul => exact confined_binary below .mul
  | div => exact confined_binary below .div
  | mod => exact confined_binary below .mod
  | bitAnd => exact confined_binary below .bitAnd
  | bitOr => exact confined_binary below .bitOr
  | bitXor => exact confined_binary below .bitXor
  | shl => exact confined_binary below .shl
  | shr => exact confined_binary below .shr
  | eq => exact confined_binary below .eq
  | ne => exact confined_binary below .ne
  | lt => exact confined_binary below .lt
  | le => exact confined_binary below .le
  | gt => exact confined_binary below .gt
  | ge => exact confined_binary below .ge
  | jump => cases plain
  | jumpIfFalse => cases plain
  | jumpIfTrue => cases plain
  | jumpIfFalseOrPop => cases plain
  | jumpIfTrueOrPop => cases plain
  | call => cases plain
  | ret => cases plain
  | retUndefined => cases plain

end Environment

end PocketScript
