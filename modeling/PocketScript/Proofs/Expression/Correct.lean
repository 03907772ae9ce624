import Mathlib
import PocketScript.Proofs.Compile.Shaped
import PocketScript.Proofs.Expression.Simulation
import PocketScript.Proofs.Expression.Spelling

/-!
# Compiled expressions compute their terms

The parser reads the tokens that spell a term back to a tree of the term, compiled trees have their
shape, and code of this shape performs the evaluation of the term. Put together, the instructions that
an expression compiles to leave the value of its term as one more operand, or they fail as the
evaluation of the term does (`Machine.forward_spelled`).
-/

namespace PocketScript

open Environment

namespace Machine

variable {α : Type} {callers : Callers α}

/-- A script in the middle of a function runs from instruction to instruction. -/
theorem forward_advances {env after : Environment} (advances : Advances env after)
    (inside : callers.frames < env.frames.size) :
    callers.frames < after.frames.size ∧ ∃ steps, ∀ more,
      forward (steps + more) ⟨env, .script callers⟩ =
        forward more ⟨after, .script callers⟩ := by
  induction advances with
  | refl => exact ⟨inside, 0, fun more => by rw [Nat.zero_add]⟩
  | @step env middle after next same _ ih =>
      obtain ⟨inside', steps, goesOn⟩ := ih (by omega)
      refine ⟨inside', steps + 1, fun more => ?_⟩
      rw [Nat.add_right_comm, ← goesOn more]
      change forward (steps + more) (stepScript env callers) = _
      unfold stepScript
      rw [if_pos inside, next]

/-- A script whose next instruction fails gives way to its caller. -/
theorem forward_fails {env after : Environment} {fault : Fault}
    (inside : callers.frames < env.frames.size)
    (fails : executeNext env = (.error fault, after)) :
    forward 1 ⟨env, .script callers⟩ = fail after callers fault := by
  change stepScript env callers = _
  unfold stepScript
  rw [if_pos inside, fails]

end Machine

/-- What a name denotes in the innermost function. -/
def Scopes.place (scopes : Scopes) (name : String) : Place :=
  match scopes.resolve 65535 name with
  | .ok (place, _) => place
  | .error _ => .global

theorem Scopes.Knows.place {scopes : Scopes} {name : String} {place : Place}
    (known : scopes.Knows name place) : scopes.place name = place := by
  obtain ⟨rest, resolved⟩ := known scopes (.refl scopes) 65535
  unfold Scopes.place
  rw [resolved]

/-- A function of a program was completed after a state of its compilation: `closing` is the state in
which its code was complete, and `done` the state at the end of the program. -/
structure Compilation.Completion (state : Compilation) (program : Program) (captured : Array Bool)
    (function : FunctionDef) where
  closing : Compilation
  done : Compilation
  pending : ∀ (index : Nat) instr, state.assembler.pending[index]? = some instr →
    closing.assembler.pending[index]? = some instr
  labels : ∀ (index : Nat) place, state.assembler.labels[index]? = some (some place) →
    closing.assembler.labels[index]? = some (some place)
  maxDepth : state.assembler.maxDepth ≤ closing.assembler.maxDepth
  finished : ∃ varCount argCount isClosure,
    closing.assembler.finish varCount argCount captured isClosure = .ok function
  numbers : ∀ (value : Number) index, state.numbers.places[value]? = some index →
    done.numbers.places[value]? = some index
  strings : ∀ (value : String) index, state.strings.places[value]? = some index →
    done.strings.places[value]? = some index
  tables : program.numbers = done.numbers.items ∧ program.strings = done.strings.items

namespace Compilation.Completion

variable {state : Compilation} {program : Program} {captured : Array Bool} {function : FunctionDef}

/-- The complete code of the function. -/
def code (completion : state.Completion program captured function) : CompleteCode where
  assembler := completion.closing.assembler
  isNumber index value := program.number? index = some value
  isString index text := program.string? index = some text
  resolves name place := state.scopes.place name = place

theorem fits (completion : state.Completion program captured function) :
    Fits state completion.code := by
  obtain ⟨varCount, argCount, isClosure, finished⟩ := completion.finished
  obtain ⟨numbers, strings⟩ := completion.tables
  refine ⟨⟨completion.pending, completion.labels, completion.maxDepth, fun value index found => ?_,
    fun value index found => ?_⟩, fun name place known => known.place,
    Assembler.pending_size_le finished⟩
  · change program.numbers[index.toNat]? = _
    rw [numbers]
    exact (completion.done.numbers.places_iff value index).mp (completion.numbers value index found)
  · change program.strings[index.toNat]? = _
    rw [strings]
    exact (completion.done.strings.places_iff value index).mp (completion.strings value index found)

theorem runs {scene : Scene} (completion : state.Completion scene.program scene.captured function)
    (places : scene.place = state.scopes.place) : scene.Runs completion.code function where
  finished := completion.finished
  numbers _ _ := id
  strings _ _ := id
  distinct index other text one two := by
    unfold Program.string? at one two
    rw [completion.tables.2] at one two
    have here := (completion.done.strings.places_iff text index).mpr one
    have there := (completion.done.strings.places_iff text other).mpr two
    rw [here] at there
    injection there
  names name place resolves := by
    rw [places]
    exact resolves

end Compilation.Completion

/-- A running function without operands of its own. -/
theorem Environment.running_self {env : Environment} {pc : Nat}
    (here : env.frames.back?.map (·.pc) = some pc) :
    env.running env.units pc [] = env := by
  have frames : env.frames.modify (env.frames.size - 1) ({ · with pc }) =
      env.frames := by
    apply Array.ext
    · exact Array.size_modify
    · intro index inside _
      rw [Array.getElem_modify]
      split
      · rename_i last
        rw [Array.size_modify] at inside
        rw [Array.back?_eq_getElem?, last, Array.getElem?_eq_getElem inside] at here
        injection here with here
        subst here
        rfl
      · rfl
  have stack : env.stack ++ ([] : List Value).toArray = env.stack :=
    Array.append_empty
  unfold running
  rw [frames, stack]

/-- The machine runs the code of a spelled term as the term is evaluated. The function that contains
the code is running, with any operands on the stack, and the notes of its unit are right. Then the
code leaves the value of the term as one more operand behind those that there are, and all else is as
the evaluation leaves it, up to further notes; or an instruction fails, with the fault and the
environment of the evaluation but for operands that are left. -/
theorem Machine.forward_spelled {α : Type} {term : Term} {tokens : List Token} {rest : TokenStream}
    {limit fuel nesting depth : Nat} {context : CompileContext} {before after : Compilation}
    {scene : Scene} {function : FunctionDef} {env : Environment} {callers : Callers α}
    (spells : term.Spells tokens) (stops : Parser.Stops 0 rest)
    (compiles : Compiling.Leads context
      (Compiling.expr (Parser.assign limit fuel nesting (rest.behind tokens)).1) before () after)
    (completion : after.Completion scene.program scene.captured function)
    (places : scene.place = after.scopes.place) (operands : before.assembler.depth = depth)
    (hosts : env.Hosts scene.toActivation function)
    (noted : env.Noted env.units)
    (room : env.stack.size + function.stackHigh.toNat ≤
      env.config.stackSize + depth)
    (here : env.frames.back?.map (·.pc) =
      some (scene.position completion.code before.size))
    (inside : callers.frames < env.frames.size) :
    (Parser.assign limit fuel nesting (rest.behind tokens)).2 = rest ∧
      Stays scene.toActivation env (term.eval scene env).2 ∧
        match term.eval scene env with
        | (.ok value, final) => ∃ steps units, final.Noted units ∧
            forward steps ⟨env, .script callers⟩ =
              ⟨final.running units (scene.position completion.code after.size) [value],
                .script callers⟩
        | (.error fault, final) => ∃ steps units pc left, final.Noted units ∧
            forward steps ⟨env, .script callers⟩ =
              fail (final.running units pc left) callers fault := by
  obtain ⟨denotes, behind⟩ | failing :=
    (Parser.reads_spells spells).assign limit fuel nesting rest stops
  · refine ⟨behind, ?_⟩
    have shape := Compiling.shape_expr _ compiles
    have layout := (shape.layout completion.code completion.fits depth operands).2
    obtain ⟨stays, ends⟩ := Scene.performs_eval (completion.runs places) denotes layout env
      env.units [] ⟨hosts, noted, by rw [List.length_nil, Nat.add_zero]; exact room⟩
    refine ⟨stays, ?_⟩
    rw [List.append_nil, running_self here] at ends
    generalize term.eval scene env = outcome at ends
    obtain ⟨fault | value, final⟩ := outcome
    · obtain ⟨units, pc, left, last, noted, reaches, fails⟩ := ends
      obtain ⟨inside, steps, goesOn⟩ := forward_advances reaches inside
      exact ⟨steps + 1, units, pc, left, noted,
        (goesOn 1).trans (forward_fails inside fails)⟩
    · obtain ⟨units, noted, reaches⟩ := ends
      obtain ⟨-, steps, goesOn⟩ := forward_advances reaches inside
      exact ⟨steps, units, noted, goesOn 0⟩
  · exact absurd compiles (failing context before () after)

/-! ## A sample -/

namespace Sample

/-- The term of `true && !false`. -/
def term : Term := .logical .and (.literal .true_) (.unary .not (.literal .false_))

def tokens : List Token :=
  [⟨.kwTrue, [], default⟩, ⟨.andAnd, [], default⟩, ⟨.exclamation, [], default⟩,
    ⟨.kwFalse, [], default⟩]

def context : CompileContext := { limits := {}, isKnownGlobal := fun _ => false }

/-- What the compilation of the tokens comes to. -/
def compiled : Compilation :=
  match Compiling.expr (Parser.assign 10 40 0 ((TokenStream.ended default).behind tokens)).1 context
    .start with
  | .ok ((), state) => state
  | .error _ => .start

/-- A function that returns the value of the term. -/
def function : FunctionDef :=
  match (compiled.emit .ret).assembler.finish 0 0 #[] false with
  | .ok function => function
  | .error _ => default

def scene : Scene where
  unit := 0
  program := { numbers := #[], strings := #[], functions := #[function] }
  base := 0
  varCount := 0
  closure := none
  place := compiled.scopes.place
  captured := #[]

/-- The function is running. -/
def environment : Environment :=
  { Environment.new {} with
    frames := #[{ unit := 0, index := 0, pc := 0, base := 0, closure := none }]
    units := #[{ program := scene.program, slots := #[] }] }

def callers : Callers Unit := .host { frames := 0, depth := 0, resume := fun _ => .done () }

theorem spells_literal (value : Literal) (wanted : Nat) (below : wanted ≤ 14) :
    (Term.literal value).SpellsAt wanted [⟨value.kind, [], default⟩] :=
  .plain below .literal

theorem spells : term.Spells tokens :=
  .logical (spells_literal .true_ _ (by decide))
    (.plain (by decide) (.unary (spells_literal .false_ _ (by decide))))

theorem compiles : Compiling.Leads context
    (Compiling.expr (Parser.assign 10 40 0 ((TokenStream.ended default).behind tokens)).1) .start ()
      compiled := by
  cbv

def completion : compiled.Completion scene.program scene.captured function where
  closing := compiled.emit .ret
  done := compiled
  pending index instr found := by
    obtain ⟨inside, same⟩ := Array.getElem?_eq_some_iff.mp found
    exact (Array.getElem?_push_lt inside).trans (congrArg some same)
  labels _ _ := id
  maxDepth := by cbv
  finished := ⟨0, 0, false, by cbv⟩
  numbers _ _ := id
  strings _ _ := id
  tables := ⟨by cbv, by cbv⟩

theorem noted : environment.Noted environment.units where
  programs := rfl
  slots unit loaded index slot there known := by
    cases unit with
    | zero =>
        cases there
        cases known
    | succ => cases there

theorem hosts : environment.Hosts scene.toActivation function where
  frame := ⟨_, rfl, rfl, rfl, rfl, rfl⟩
  program := by cbv
  varCount := by cbv
  inStack := Nat.le_refl 0

end Sample

/-- The term of the sample is evaluated to its value. -/
theorem Machine.forward_spelled_sample : ∃ steps units,
    forward steps ⟨Sample.environment, .script Sample.callers⟩ =
      ⟨Sample.environment.running units
        (Sample.scene.position Sample.completion.code Sample.compiled.size) [.boolean true],
          .script Sample.callers⟩ := by
  obtain ⟨-, -, reaches⟩ := @forward_spelled Unit _ _ _ _ _ 0 0 _ _ _ _ _ _ Sample.callers
    Sample.spells (fun _ _ next continues => by cases next; cases continues) Sample.compiles
      Sample.completion rfl rfl Sample.hosts Sample.noted (by cbv) (by cbv) (by decide)
  obtain ⟨steps, units, -, reaches⟩ := reaches
  exact ⟨steps, units, reaches⟩

end PocketScript
