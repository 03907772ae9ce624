import PocketScript.Proofs.Code.Layout
import PocketScript.Proofs.Compile.Shape
import PocketScript.Proofs.Environment.Globals
import PocketScript.Proofs.Expression.Evaluator

/-!
# Code that performs an action

`Scene.Performs` tells that a stretch of code takes some operands from the stack, does what an action
of the evaluator does, and leaves its results as operands, or fails where the action fails. The rules
follow the ways of building actions; there is one for each kind of instruction that expressions
compile to.
-/

namespace PocketScript

namespace Environment

/-- Instructions lead from one environment to another one, all of them in the same frame. -/
inductive Advances : Environment → Environment → Prop
  | refl {env} : Advances env env
  | step {env middle after} :
      executeNext env = (.ok none, middle) →
        middle.frames.size = env.frames.size → Advances middle after →
          Advances env after

theorem Advances.trans {env middle after : Environment}
    (one : Advances env middle) (two : Advances middle after) :
    Advances env after := by
  induction one with
  | refl => exact two
  | step next same _ ih => exact .step next same (ih two)

/-- What stays while a function evaluates an expression: all but its variables, the values of
globals, and the heap. -/
structure Stays (activation : Activation) (before after : Environment) : Prop where
  config : after.config = before.config
  frames : after.frames = before.frames
  units : after.units = before.units
  natives : after.natives = before.natives
  size : after.stack.size = before.stack.size
  outside : ∀ place, place < activation.base ∨ activation.floor ≤ place →
    after.stack[place]? = before.stack[place]?
  globals : before.KeepsGlobals after

variable {activation : Activation} {before middle after env : Environment}
  {function : FunctionDef} {units : Array LoadedUnit} {α : Type}

theorem Stays.refl (activation : Activation) (env : Environment) :
    Stays activation env env :=
  ⟨rfl, rfl, rfl, rfl, rfl, fun _ _ => rfl, fun _ _ => id⟩

theorem Stays.trans (one : Stays activation before middle) (two : Stays activation middle after) :
    Stays activation before after where
  config := two.config.trans one.config
  frames := two.frames.trans one.frames
  units := two.units.trans one.units
  natives := two.natives.trans one.natives
  size := two.size.trans one.size
  outside place other := (two.outside place other).trans (one.outside place other)
  globals := one.globals.trans two.globals

theorem Blind.stays {update : Update α} (blind : Blind update) (activation : Activation)
    (env : Environment) : Stays activation env (update env).2 := by
  rw [blind.after env]
  exact ⟨rfl, rfl, rfl, rfl, rfl, fun _ _ => rfl, fun _ _ => id⟩

theorem Stays.hosts (stays : Stays activation before after)
    (hosts : before.Hosts activation function) : after.Hosts activation function where
  frame := stays.frames ▸ hosts.frame
  program := by
    rw [programs, stays.units]
    exact hosts.program
  varCount := hosts.varCount
  inStack := stays.size ▸ hosts.inStack

theorem Stays.noted (stays : Stays activation before after) (noted : before.Noted units) :
    after.Noted units :=
  noted.mono stays.units stays.globals

end Environment

open Environment

namespace Scene

variable {α β : Type} {scene : Scene} {code : CompleteCode} {function : FunctionDef}

/-- The running function was completed from some code. What the operands of this code refer to is
what the scene and its program have. -/
structure Runs (scene : Scene) (code : CompleteCode) (function : FunctionDef) : Prop where
  finished : ∃ varCount argCount isClosure,
    code.assembler.finish varCount argCount scene.captured isClosure = .ok function
  numbers : ∀ index value, code.isNumber index value → scene.program.number? index = some value
  strings : ∀ index text, code.isString index text → scene.program.string? index = some text
  /-- No string constant is in the table twice. -/
  distinct : ∀ index other text, scene.program.string? index = some text →
    scene.program.string? other = some text → index = other
  names : ∀ ident place, code.resolves ident place → scene.place ident = place

/-- Where an instruction starts. -/
def position (scene : Scene) (code : CompleteCode) (index : Nat) : Nat :=
  code.assembler.offset scene.captured index

/-- The function runs in an environment, and the stack has room for all it needs when the operands
on it are so many as the code expects. -/
structure Ready (scene : Scene) (function : FunctionDef) (depth : Nat) (env : Environment)
    (units : Array LoadedUnit) (operands : List Value) : Prop where
  hosts : env.Hosts scene.toActivation function
  noted : env.Noted units
  room : env.stack.size + operands.length + function.stackHigh.toNat ≤
    env.config.stackSize + depth

/-- From an environment on, instructions reach the outcome of an action: its results are on the stack
behind the other operands, or there is the same fault. -/
def Ends (scene : Scene) (code : CompleteCode) (operands : List Value) (start : Environment)
    (results : α → List Value) (stop : α → Nat) : Except Fault α × Environment → Prop
  | (.ok result, after) => ∃ units, after.Noted units ∧
      Advances start (after.running units (scene.position code (stop result))
        (operands ++ results result))
  | (.error fault, after) => ∃ units pc left last, after.Noted units ∧ Advances start last ∧
      executeNext last = (.error fault, after.running units pc (operands ++ left))

/-- The code from an index on performs an action: it takes the given operands, leaves the results,
and comes to an index that depends on these. -/
def Performs (scene : Scene) (code : CompleteCode) (function : FunctionDef) (depth : Nat)
    (taken : List Value) (start : Nat) (action : Action α) (results : α → List Value)
    (stop : α → Nat) : Prop :=
  ∀ env units operands, scene.Ready function depth env units operands →
    Stays scene.toActivation env (action env).2 ∧
      scene.Ends code operands
        (env.running units (scene.position code start) (operands ++ taken)) results stop
        (action env)

variable {depth start next index : Nat} {taken between : List Value} {first action : Action α}
  {results : α → List Value} {stop middle : α → Nat} {env : Environment}
  {units : Array LoadedUnit} {operands : List Value}

theorem Ready.stays {after : Environment} {units' : Array LoadedUnit}
    (ready : scene.Ready function depth env units operands)
    (stays : Stays scene.toActivation env after) (noted : after.Noted units') :
    scene.Ready function depth after units' operands :=
  ⟨stays.hosts ready.hosts, noted, by rw [stays.size, stays.config]; exact ready.room⟩

theorem Ends.prepend {earlier later : Environment} {outcome : Except Fault α × Environment}
    (advances : Advances earlier later) (ends : scene.Ends code operands later results stop outcome) :
    scene.Ends code operands earlier results stop outcome := by
  obtain ⟨fault | result, after⟩ := outcome
  · obtain ⟨units, pc, left, last, noted, reaches, fails⟩ := ends
    exact ⟨units, pc, left, last, noted, advances.trans reaches, fails⟩
  · obtain ⟨units, noted, reaches⟩ := ends
    exact ⟨units, noted, advances.trans reaches⟩

/-! ## Composing code -/

/-- Code behind other code, which needs to do for the results there can be. -/
theorem Performs.bindGiven {held : α → List Value} {then_ : α → Action β} {results : β → List Value}
    {stop : β → Nat} (one : scene.Performs code function depth taken start first held middle)
    (two : ∀ result, (∃ env after, first env = (.ok result, after)) →
      scene.Performs code function depth (held result) (middle result) (then_ result) results
        stop) :
    scene.Performs code function depth taken start (first >>= then_) results stop := by
  intro env units operands ready
  obtain ⟨stays, ends⟩ := one env units operands ready
  rw [action_bind]
  have given : ∀ result after, first env = (.ok result, after) → ∃ env after,
      first env = (.ok result, after) := fun result after same => ⟨_, _, same⟩
  generalize first env = outcome at stays ends given
  obtain ⟨fault | result, after⟩ := outcome
  · exact ⟨stays, ends⟩
  · obtain ⟨units', noted, reaches⟩ := ends
    obtain ⟨stays', ends⟩ := two result (given result after rfl) after units' operands
      (ready.stays stays noted)
    exact ⟨stays.trans stays', ends.prepend reaches⟩

/-- Code behind other code. -/
theorem Performs.bind {held : α → List Value} {then_ : α → Action β} {results : β → List Value}
    {stop : β → Nat} (one : scene.Performs code function depth taken start first held middle)
    (two : ∀ result, scene.Performs code function depth (held result) (middle result) (then_ result)
      results stop) :
    scene.Performs code function depth taken start (first >>= then_) results stop :=
  one.bindGiven fun result _ => two result

/-- No code does nothing. -/
theorem performs_pure (value : α) (same : results value = taken) (here : stop value = start) :
    scene.Performs code function depth taken start (pure value) results stop := by
  intro env units operands ready
  refine ⟨.refl _ _, units, ready.noted, ?_⟩
  rw [same, here]
  exact .refl

/-- Code does the same with further operands below those it takes. -/
theorem Performs.below (below : List Value)
    (performs : scene.Performs code function (depth + below.length) taken start action results
      stop) :
    scene.Performs code function depth (below ++ taken) start action
      (fun result => below ++ results result) stop := by
  intro env units operands ready
  have room := ready.room
  obtain ⟨stays, ends⟩ := performs env units (operands ++ below)
    ⟨ready.hosts, ready.noted, by rw [List.length_append]; omega⟩
  rw [List.append_assoc] at ends
  refine ⟨stays, ?_⟩
  generalize action env = outcome at ends
  obtain ⟨fault | result, after⟩ := outcome
  · obtain ⟨units', pc, left, last, noted, reaches, fails⟩ := ends
    exact ⟨units', pc, below ++ left, last, noted, reaches, by rw [← List.append_assoc]; exact fails⟩
  · obtain ⟨units', noted, reaches⟩ := ends
    rw [List.append_assoc] at reaches
    exact ⟨units', noted, reaches⟩

/-! ## Instructions -/

/-- An instruction without a label, as it stands in the complete code. -/
theorem Runs.decode (runs : scene.Runs code function) {op : Opcode} {a b : UInt16}
    (holds : code.Holds index op a b) (canonical : (⟨op, a, b⟩ : Instruction).IsCanonical)
    (other : op ≠ .loadLocal ∧ op ≠ .storeLocal) :
    function.code.decode (scene.position code index) = .ok ⟨op, a, b⟩ ∧
      scene.position code (index + 1) = scene.position code index + op.size := by
  obtain ⟨varCount, argCount, isClosure, finished⟩ := runs.finished
  have settled : Assembler.settle scene.captured (code.assembler.target scene.captured)
      ⟨op, a, b, none⟩ = ⟨op, a, b⟩ := by
    unfold Assembler.settle
    simp only
    split
    · exact absurd rfl other.1
    · exact absurd rfl other.2
    · rfl
  have decoded := Assembler.decode_finish finished holds (settled ▸ canonical)
  rw [settled] at decoded
  exact ⟨decoded, Assembler.offset_succ scene.captured holds⟩

/-- An access to a variable, as it stands in the complete code: shared variables are in cells. -/
theorem Runs.decodeLocal (runs : scene.Runs code function) {op : Opcode} {slot : UInt16}
    (holds : code.Holds index op slot) (access : op = .loadLocal ∨ op = .storeLocal) :
    function.code.decode (scene.position code index) =
        .ok ⟨if scene.isCaptured slot then (if op = .loadLocal then .loadCell else .storeCell)
          else op, slot, 0⟩ ∧
      scene.position code (index + 1) = scene.position code index + 3 := by
  obtain ⟨varCount, argCount, isClosure, finished⟩ := runs.finished
  have settled : Assembler.settle scene.captured (code.assembler.target scene.captured)
      ⟨op, slot, 0, none⟩ =
        ⟨if scene.isCaptured slot then (if op = .loadLocal then .loadCell else .storeCell)
          else op, slot, 0⟩ := by
    rcases access with rfl | rfl <;> rfl
  have canonical : (⟨if scene.isCaptured slot then
      (if op = .loadLocal then .loadCell else .storeCell) else op, slot, 0⟩ :
        Instruction).IsCanonical := by
    constructor
    · rcases access with rfl | rfl <;> simp only <;> split <;> intro none <;> cases none
    · exact fun _ => rfl
  have decoded := Assembler.decode_finish finished holds (settled ▸ canonical)
  rw [settled] at decoded
  refine ⟨decoded, (Assembler.offset_succ scene.captured holds).trans ?_⟩
  rcases access with rfl | rfl <;> rfl

/-- A jump, as it stands in the complete code. -/
theorem Runs.decodeJump (runs : scene.Runs code function) {op : Opcode} {target : Nat}
    (jumps : code.Jumps index op target) (jump : op.isJump = true)
    (inside : target ≤ code.assembler.pending.size) :
    ∃ place : UInt16, place.toNat = scene.position code target ∧
      function.code.decode (scene.position code index) = .ok ⟨op, place, 0⟩ ∧
        scene.position code (index + 1) = scene.position code index + op.size := by
  obtain ⟨varCount, argCount, isClosure, finished⟩ := runs.finished
  obtain ⟨label, holds, places⟩ := jumps
  obtain ⟨-, small, -⟩ := Assembler.finish_eq_ok finished
  have bound := Assembler.offset_mono scene.captured code.assembler inside
  have settled : Assembler.settle scene.captured (code.assembler.target scene.captured)
      ⟨op, 0, 0, some label⟩ = ⟨op, UInt16.ofNat (scene.position code target), 0⟩ := by
    unfold Assembler.settle
    simp only [Assembler.target_eq scene.captured places]
    split
    · cases jump
    · cases jump
    · rfl
  have takesOperand : op.arity ≠ 0 := by
    cases op <;> first | exact Nat.one_ne_zero | cases jump
  have decoded := Assembler.decode_finish finished holds (by
    rw [settled]
    exact ⟨fun none => absurd none takesOperand, fun _ => rfl⟩)
  rw [settled] at decoded
  refine ⟨_, ?_, decoded, Assembler.offset_succ scene.captured holds⟩
  rw [UInt16.toNat_ofNat', Nat.mod_eq_of_lt]
  unfold position
  omega

end Scene

end PocketScript
