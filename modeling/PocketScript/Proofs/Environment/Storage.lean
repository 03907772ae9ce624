import PocketScript.Proofs.Compile.Accesses
import PocketScript.Proofs.Environment.Bindings
import PocketScript.Proofs.Environment.Spared

/-!
# Where variables are stored

A variable of a function is stored in its slot on the stack, or in a cell that lies in the slot and in
the closures that share it; a global is stored under its name. The operand of an instruction that
accesses a variable leads to one such storage (`Environment.storage?`). What is read is what is stored
there, and what is written is stored there and nowhere else (`Environment.Accesses`).
-/

namespace PocketScript

/-- Where the value of a variable is kept. -/
inductive Storage where
  | slot (place : Nat)
  | cell (block : Handle)
  | global (name : String)
  deriving DecidableEq, Repr

/-- The place that is loaded or stored, with the constant that names a global. -/
def Role.place? : Role → Option (Place × UInt16)
  | load place constant | store place constant => some (place, constant)
  | _ => none

/-- The storage to which a value on the stack or in a closure leads. -/
def Value.storage? : Value → Option Storage
  | .cell block => some (.cell block)
  | _ => none

theorem Value.storage?_eq_some {value : Value} {storage : Storage} :
    value.storage? = some storage ↔ ∃ cell, value = .cell cell ∧ storage = .cell cell := by
  cases value <;> simp [storage?, eq_comm]

namespace Environment

/-- What is stored. -/
def stored? (env : Environment) : Storage → Option Value
  | .slot place => env.stack[place]?
  | .cell block => env.heap.cellGet? block
  | .global name => env.global? name

/-- The storage that an instruction of a running function reads or writes. -/
def storage? (env : Environment) (activation : Activation) (instr : Instruction) :
    Option Storage :=
  let index := instr.a.toNat
  match instr.op with
  | .loadLocal | .storeLocal => some (.slot (activation.base + index))
  | .loadCell | .storeCell => env.stack[activation.base + index]?.bind Value.storage?
  | .loadUpvalue | .storeUpvalue => do
      let closure ← activation.closure
      (← env.heap.closureCell? closure index).storage?
  | .loadGlobal | .storeGlobal | .defineGlobal | .declareGlobal =>
      (activation.program.string? instr.a).map .global
  | _ => none

/-- A storage is accessed as it is mentioned. What is read is pushed, what is written is the topmost
operand, and a declaration leaves a value that is there as it is. Globals of other names keep their
values. -/
inductive Accesses (storage : Storage) (before after : Environment) : Mention → Prop
  | read (name : String) (value : Value) (stored : before.stored? storage = some value)
      (pushed : after.stack = before.stack.push value) (globals : after.global? = before.global?) :
      Accesses storage before after (.read name)
  | write (name : String) (value : Value) (operand : before.stack.back? = some value)
      (stored : after.stored? storage = some value)
      (others : ∀ other, storage ≠ .global other → after.global? other = before.global? other) :
      Accesses storage before after (.write name)
  | declare (name : String)
      (stored : after.stored? storage = some ((before.stored? storage).getD .undefined))
      (others : ∀ other, storage ≠ .global other → after.global? other = before.global? other) :
      Accesses storage before after (.declare name)

variable {env : Environment} {activation : Activation} {instr : Instruction}
  {place : Place} {constant : UInt16} {storage : Storage} {value : Value}

/-- The instruction fails as it does only when the code is malformed or the stack is full. -/
def Refused (outcome : Except Fault Unit × Environment) : Prop :=
  ∃ fault, outcome.1 = .error fault ∧ fault.isOrdinary = false

/-- The outcome of an access. -/
def AccessesTo (storage : Storage) (before : Environment) (mention : Mention)
    (outcome : Except Fault Unit × Environment) : Prop :=
  ∃ after, outcome = (.ok (), after) ∧ Accesses storage before after mention

/-! ## Places and storages -/

/-- The place that is accessed tells where the storage is. -/
theorem storage?_cases
    (accesses : instr.role.place? = some (place, constant))
    (leads : env.storage? activation instr = some storage) :
    (place = .slot instr.a ∧ instr.op.refersToUpvalue = false ∧
        ((instr.op.refersToSlot = true ∧
            storage = .slot (activation.base + instr.a.toNat)) ∨
          ∃ cell, env.stack[activation.base + instr.a.toNat]? = some (.cell cell) ∧
            storage = .cell cell)) ∨
      (place = .capture instr.a ∧ ∃ closure cell, activation.closure = some closure ∧
        env.heap.closureCell? closure instr.a.toNat = some (.cell cell) ∧
          storage = .cell cell) ∨
      place = .global ∧ ∃ text, activation.program.string? constant = some text ∧
        storage = .global text := by
  obtain ⟨op, a, b⟩ := instr
  have boxed (leads : env.stack[activation.base + a.toNat]?.bind Value.storage? = some storage) :
      ∃ cell, env.stack[activation.base + a.toNat]? = some (.cell cell) ∧
        storage = .cell cell := by
    obtain ⟨value, there, leads⟩ := Option.bind_eq_some_iff.mp leads
    obtain ⟨cell, rfl, rfl⟩ := Value.storage?_eq_some.mp leads
    exact ⟨cell, there, rfl⟩
  have captured (leads : (do
        let closure ← activation.closure
        (← env.heap.closureCell? closure a.toNat).storage?) = some storage) :
      ∃ closure cell, activation.closure = some closure ∧
        env.heap.closureCell? closure a.toNat = some (.cell cell) ∧ storage = .cell cell := by
    obtain ⟨closure, runs, leads⟩ := Option.bind_eq_some_iff.mp leads
    obtain ⟨value, there, leads⟩ := Option.bind_eq_some_iff.mp leads
    obtain ⟨cell, rfl, rfl⟩ := Value.storage?_eq_some.mp leads
    exact ⟨closure, cell, runs, there, rfl⟩
  have named (leads : (activation.program.string? a).map Storage.global = some storage) :
      ∃ text, activation.program.string? a = some text ∧ storage = .global text := by
    obtain ⟨text, known, same⟩ := Option.map_eq_some_iff.mp leads
    exact ⟨text, known, same.symm⟩
  cases op with
  | loadLocal | storeLocal =>
      cases accesses
      exact .inl ⟨rfl, rfl, .inl ⟨rfl, (Option.some.inj leads).symm⟩⟩
  | loadCell | storeCell =>
      cases accesses
      exact .inl ⟨rfl, rfl, .inr (boxed leads)⟩
  | loadUpvalue | storeUpvalue =>
      cases accesses
      exact .inr (.inl ⟨rfl, captured leads⟩)
  | loadGlobal | storeGlobal | defineGlobal =>
      cases accesses
      exact .inr (.inr ⟨rfl, named leads⟩)
  | _ => cases accesses

/-! ## Variables of functions -/

/-- A value that is stored is pushed. -/
theorem accesses_pushShared (stored : env.stored? storage = some value) (name : String) :
    Refused (pushShared value env) ∨
      AccessesTo storage env (.read name) (pushShared value env) := by
  unfold pushShared
  rw [action_bind_ok (action_lift _ _), push_eq]
  split
  · exact .inr ⟨_, rfl, .read name value stored rfl rfl⟩
  · exact .inl ⟨_, rfl, rfl⟩

theorem accesses_pushCellValue (cell : Handle) (env : Environment) (name : String) :
    Refused (pushCellValue cell env) ∨
      AccessesTo (.cell cell) env (.read name) (pushCellValue cell env) := by
  unfold pushCellValue
  rw [action_bind_ok (action_view _ _)]
  cases held : env.heap.cellGet? cell with
  | none => exact .inl ⟨_, rfl, rfl⟩
  | some value =>
      rw [action_bind_ok (found_some _ _)]
      exact @accesses_pushShared env (.cell cell) value held name

/-- A variable of a function is read. -/
theorem execute_load (loads : instr.role = .load place constant) (own : place ≠ .global)
    (name : String) : Refused (execute activation instr env) ∨
      ∃ storage, env.storage? activation instr = some storage ∧
        AccessesTo storage env (.read name) (execute activation instr env) := by
  obtain ⟨op, a, b⟩ := instr
  cases op with
  | loadLocal =>
      have same : execute activation ⟨.loadLocal, a, b⟩ env =
          (activation.localPlace a >>= fun place => slot place >>= pushShared) env := rfl
      rw [same]
      unfold Activation.localPlace
      split
      · rw [pure_bind]
        cases there : env.stack[activation.base + a.toNat]? with
        | none =>
            rw [action_bind_error (slot_eq_error there)]
            exact .inl ⟨_, rfl, rfl⟩
        | some value =>
            rw [action_bind_ok (slot_eq_ok there)]
            exact (@accesses_pushShared env (.slot _) value there name).imp id fun accesses =>
              ⟨_, rfl, accesses⟩
      · exact .inl ⟨_, rfl, rfl⟩
  | loadCell =>
      have same : execute activation ⟨.loadCell, a, b⟩ env =
          (localCell activation a >>= pushCellValue) env := rfl
      obtain failed | ⟨cell, -, at_, got⟩ := localCell_cases activation a env
      · rw [same, action_bind_error failed]
        exact .inl ⟨_, rfl, rfl⟩
      · rw [same, action_bind_ok got]
        refine (accesses_pushCellValue cell env name).imp id fun accesses => ⟨_, ?_, accesses⟩
        simp only [storage?, at_, Option.bind_some, Value.storage?]
  | loadUpvalue =>
      have same : execute activation ⟨.loadUpvalue, a, b⟩ env =
          (upvalueCell activation a >>= pushCellValue) env := rfl
      obtain failed | ⟨closure, cell, runs, at_, got⟩ := upvalueCell_cases activation a env
      · rw [same, action_bind_error failed]
        exact .inl ⟨_, rfl, rfl⟩
      · rw [same, action_bind_ok got]
        refine (accesses_pushCellValue cell env name).imp id fun accesses => ⟨_, ?_, accesses⟩
        simp only [storage?, runs, Option.bind_eq_bind, Option.bind_some, at_, Value.storage?]
  | loadGlobal =>
      cases loads
      exact absurd rfl own
  | _ => cases loads

/-- The instructions that store into variables of functions. -/
theorem store_cases (stores : instr.role = .store place constant) (own : place ≠ .global) :
    instr.op = .storeLocal ∨ instr.op = .storeCell ∨ instr.op = .storeUpvalue := by
  obtain ⟨op, a, b⟩ := instr
  cases op with
  | storeLocal => exact .inl rfl
  | storeCell => exact .inr (.inl rfl)
  | storeUpvalue => exact .inr (.inr rfl)
  | storeGlobal | defineGlobal =>
      cases stores
      exact absurd rfl own
  | _ => cases stores

/-- The topmost operand goes into the slot of a variable. -/
theorem execute_storeLocal {index b : UInt16} (inside : index.toNat < activation.varCount)
    (enough : activation.floor < env.stack.size) (name : String) :
    AccessesTo (.slot (activation.base + index.toNat)) env (.write name)
      (execute activation ⟨.storeLocal, index, b⟩ env) := by
  have same : execute activation ⟨.storeLocal, index, b⟩ env =
      storeLocal activation index env := rfl
  rw [same]
  obtain ⟨fails | fails, -⟩ | ⟨value, heap, -, -, top, stored⟩ :=
    storeLocal_cases activation index env
  · omega
  · omega
  refine ⟨_, stored, .write name value top ?_ fun _ _ => rfl⟩
  have low : activation.base + index.toNat < env.stack.size := by
    unfold Activation.floor at enough
    omega
  exact Array.getElem?_setIfInBounds_self_of_lt low

/-- The topmost operand goes into a boxed or captured variable. -/
theorem execute_intoCell (stores : instr.op = .storeCell ∨ instr.op = .storeUpvalue) :
    Refused (execute activation instr env) ∨
      ∃ cell, env.storage? activation instr = some (.cell cell) ∧
        execute activation instr env = storeInCell activation cell env := by
  obtain ⟨op, a, b⟩ := instr
  obtain rfl | rfl : op = .storeCell ∨ op = .storeUpvalue := stores
  · have same : execute activation ⟨.storeCell, a, b⟩ env =
        (localCell activation a >>= storeInCell activation) env := rfl
    obtain failed | ⟨cell, -, at_, got⟩ := localCell_cases activation a env
    · rw [same, action_bind_error failed]
      exact .inl ⟨_, rfl, rfl⟩
    · refine .inr ⟨cell, ?_, by rw [same, action_bind_ok got]⟩
      simp only [storage?, at_, Option.bind_some, Value.storage?]
  · have same : execute activation ⟨.storeUpvalue, a, b⟩ env =
        (upvalueCell activation a >>= storeInCell activation) env := rfl
    obtain failed | ⟨closure, cell, runs, at_, got⟩ := upvalueCell_cases activation a env
    · rw [same, action_bind_error failed]
      exact .inl ⟨_, rfl, rfl⟩
    · refine .inr ⟨cell, ?_, by rw [same, action_bind_ok got]⟩
      simp only [storage?, runs, Option.bind_eq_bind, Option.bind_some, at_, Value.storage?]

end Environment

/-! ## Globals -/

/-- The mention for which an access to a global stands. -/
def GlobalAccess.mention (text : String) : GlobalAccess → Mention
  | load => .read text
  | store | define => .write text
  | declare => .declare text

def GlobalAccess.role (constant : UInt16) : GlobalAccess → Role
  | load => .load .global constant
  | store | define => .store .global constant
  | declare => .declare constant

/-- An instruction with the role of an access to a global is one. -/
theorem GlobalAccess.of_role {instr : Instruction} {constant : UInt16} {access : GlobalAccess}
    (same : instr.role = access.role constant) (text : String) :
    ∃ other : GlobalAccess, other.mention text = access.mention text ∧
      instr = ⟨other.op, constant, instr.b⟩ := by
  obtain ⟨op, a, b⟩ := instr
  cases access with
  | load =>
      cases op with
      | loadGlobal =>
          cases same
          exact ⟨.load, rfl, rfl⟩
      | _ => cases same
  | store | define =>
      cases op with
      | storeGlobal =>
          cases same
          exact ⟨.store, rfl, rfl⟩
      | defineGlobal =>
          cases same
          exact ⟨.define, rfl, rfl⟩
      | _ => cases same
  | declare =>
      cases op with
      | declareGlobal =>
          cases same
          exact ⟨.declare, rfl, rfl⟩
      | _ => cases same

namespace Environment

variable {env : Environment} {activation : Activation} {text : String} {name : UInt16}

/-- A global is accessed by its name, and only a read may find that there is none of the name. -/
theorem execute_global (noted : env.Noted env.units)
    (program : env.programs[activation.unit]? = some activation.program)
    (named : activation.program.string? name = some text) (access : GlobalAccess) (b : UInt16)
    (enough : (access = .store ∨ access = .define) → activation.floor < env.stack.size) :
    (access = .load ∧ env.global? text = none ∧
        (execute activation ⟨access.op, name, b⟩ env).1 = .error (.undefinedVariable text)) ∨
      Refused (execute activation ⟨access.op, name, b⟩ env) ∨
        AccessesTo (.global text) env (access.mention text)
          (execute activation ⟨access.op, name, b⟩ env) := by
  obtain ⟨outcome, units, -, after⟩ := execute_access noted program named access b
  have bindings := global?_access noted program named access b
  -- What is bound afterwards is known, so only the outcome of the access by name matters.
  have others : ∀ other, Storage.global text ≠ .global other →
      (execute activation ⟨access.op, name, b⟩ env).2.global? other =
        env.global? other := fun other differs => by
    rw [bindings, if_neg fun same => differs (congrArg Storage.global same.symm)]
  have here := bindings text
  rw [if_pos rfl] at here
  have written {value : Value}
      (done : (execute activation ⟨access.op, name, b⟩ env).1 = .ok ())
      (top : env.stack.back? = some value)
      (bound : access.binding activation.floor text env = some value) :
      AccessesTo (.global text) env (.write text)
        (execute activation ⟨access.op, name, b⟩ env) :=
    ⟨_, Prod.ext done rfl, .write text value top (here.trans bound) others⟩
  cases access with
  | load =>
      have byName : GlobalAccess.byName activation.floor text .load env =
          loadByName text env := rfl
      rw [byName] at outcome after
      unfold loadByName at outcome after
      rw [action_bind_ok (action_view _ _)] at outcome after
      cases bound : env.global? text with
      | none =>
          rw [bound] at outcome
          exact .inl ⟨rfl, rfl, outcome⟩
      | some value =>
          rw [bound] at outcome after
          obtain ⟨fault, failed, proper⟩ | ⟨last, pushed, accesses⟩ :=
            @accesses_pushShared env (.global text) value bound text
          · exact .inr (.inl ⟨fault, outcome.trans failed, proper⟩)
          · simp only [pushed] at outcome after
            cases accesses with
            | read _ _ stored stack globals =>
                exact .inr (.inr ⟨_, Prod.ext outcome after, .read text _ stored stack globals⟩)
  | store =>
      have floor := enough (.inl rfl)
      obtain ⟨low, -⟩ | ⟨value, -, there, done⟩ := peek_cases activation.floor 0 env
      · exact absurd floor (Nat.not_lt.mpr low)
      have byName : GlobalAccess.byName activation.floor text .store env =
          storeByName activation.floor text env := rfl
      have top : env.stack.back? = some value := by
        rw [Array.back?_eq_getElem?]
        exact there
      rw [byName] at outcome
      unfold storeByName at outcome
      rw [action_bind_ok done] at outcome
      exact .inr (.inr (written outcome top ((if_pos floor).trans top)))
  | define =>
      have floor := enough (.inr rfl)
      obtain ⟨low, -⟩ | ⟨value, -, top, done⟩ := pop_cases activation.floor env
      · exact absurd floor (Nat.not_lt.mpr low)
      have byName : GlobalAccess.byName activation.floor text .define env =
          defineByName activation.floor text env := rfl
      rw [byName] at outcome
      unfold defineByName at outcome
      rw [action_bind_ok done] at outcome
      exact .inr (.inr (written outcome top ((if_pos floor).trans top)))
  | declare =>
      have done : (GlobalAccess.byName activation.floor text .declare env).1 = .ok () := by
        change (declareByName text env).1 = _
        unfold declareByName
        rw [action_bind_ok (action_view _ _)]
        cases env.global? text <;> rfl
      exact .inr (.inr ⟨_, Prod.ext (outcome.trans done) rfl, .declare text here others⟩)

end Environment

end PocketScript
