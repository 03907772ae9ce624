import PocketScript.Proofs.Compile.Leads

/-!
# What the code of functions and statements consists of

For every form of function value and statement, the states that its compilation leads between. The
jumps of a loop lead to labels that are made, and later placed, by the loop itself; while its body
is compiled they are the innermost labels of the function.
-/

namespace PocketScript

/-- What becomes of the value of an expression that a statement evaluates. -/
inductive Sink where
  | drop
  /-- It is stored in a slot of the function. -/
  | slot (index : UInt16)
  /-- It becomes the value of the global that a string constant names. -/
  | global (name : UInt16)
  deriving DecidableEq, Repr

namespace Compilation

/-- The state behind the instructions that put a value somewhere. -/
def sinking (state : Compilation) : Sink → Compilation
  | .drop => state.emit .pop
  | .slot slot => (state.emit .storeLocal slot).emit .pop
  | .global name => state.emit .defineGlobal name

/-- The state behind the declaration of a variable without a value. -/
def announcing (state : Compilation) : Sink → Compilation
  | .global name => state.emit .declareGlobal name
  | _ => state

/-- The state in which a function starts, whose code goes on when the function is complete. -/
def opened (state : Compilation) : Compilation :=
  { state with
    functions := state.functions.push default
    scopes := {} :: state.scopes
    assembler := {}
    loops := [] }

/-- The names of the innermost function; none at the top level. -/
def scope (state : Compilation) : FunctionScope := state.scopes.headD {}

/-- The state in which a function is complete, and the code around it goes on. -/
def closed (state outer : Compilation) (function : FunctionDef) : Compilation :=
  { state with
    functions := state.functions.setIfInBounds outer.functions.size function
    scopes := state.scopes.tail
    assembler := outer.assembler
    loops := outer.loops }

/-- The state behind the instructions that push what a closure captures. -/
def pushCaptures (state : Compilation) (sources : List CaptureSource) : Compilation :=
  sources.foldl
    (fun state source =>
      match source with
      | .outerSlot index => state.emit .pushCell index
      | .outerCapture index => state.emit .pushUpvalue index)
    state

/-- The state in which the body of a loop is compiled. -/
def entering (state : Compilation) (labels : LoopLabels) : Compilation :=
  { state with loops := labels :: state.loops }

/-- The state behind the body of a loop that started in another state. -/
def leaving (state outer : Compilation) : Compilation := { state with loops := outer.loops }

/-- The state with a global name that the unit declares. -/
def addGlobal (state : Compilation) (name : String) : Compilation :=
  { state with globals := state.globals.insert name }

end Compilation

namespace Compiling

variable {α : Type} {context : CompileContext} {before after : Compilation} {done : Unit}

/-! ## Functions -/

/-- Captures are pushed one by one. -/
theorem leads_pushCaptures {sources : List CaptureSource} :
    Leads context (pushCaptures sources) before done after ↔
      after = before.pushCaptures sources := by
  induction sources generalizing before with
  | nil =>
      simp only [pushCaptures, leads_pure, true_and]
      exact ⟨fun same => same.symm, fun same => same.symm⟩
  | cons source rest ih =>
      cases source with
      | outerSlot index =>
          rw [pushCaptures, leads_seq]
          simp only [leads_emit, exists_eq_left, ih]
          rfl
      | outerCapture index =>
          rw [pushCaptures, leads_seq]
          simp only [leads_emit, exists_eq_left, ih]
          rfl

theorem leads_openFunction {span : Span} {result : Nat × Assembler × List LoopLabels} :
    Leads context (openFunction span) before result after ↔
      before.functions.size ≤ 65535 ∧
        result = (before.functions.size, before.assembler, before.loops) ∧
          after = before.opened := by
  simp only [openFunction, leads_bind, leads_get]
  constructor
  · rintro ⟨_, _, ⟨rfl, rfl⟩, leads⟩
    split at leads
    · exact absurd leads not_leads_complain
    · have same := leads_modifyGet.mp leads
      injection same with first second
      exact ⟨by omega, first.symm, second.symm⟩
  · rintro ⟨few, rfl, rfl⟩
    refine ⟨_, _, ⟨rfl, rfl⟩, ?_⟩
    rw [if_neg (by omega), leads_modifyGet]
    rfl

/-- Completing a function settles its code, and creates its value in the code around it: a closure
when it captures anything. -/
theorem leads_closeFunction {span : Span} {outer : Compilation} :
    Leads context (closeFunction span outer.functions.size outer.assembler outer.loops) before done
        after ↔
      ∃ function,
        before.assembler.finish before.scope.slots.size before.scope.argCount before.scope.captured
            (!before.scope.captures.isEmpty) = .ok function ∧
          after =
            if before.scope.captures.isEmpty then
              (before.closed outer function).emit .pushFunction
                (UInt16.ofNat outer.functions.size)
            else
              ((before.closed outer function).pushCaptures before.scope.captures.toList).emit
                .makeClosure (UInt16.ofNat outer.functions.size)
                (UInt16.ofNat before.scope.captures.size) := by
  simp only [closeFunction, @leads_bind Compilation, @leads_bind FunctionDef,
    leads_seq, leads_get, leads_orComplain, leads_modify]
  constructor
  · rintro ⟨_, _, ⟨rfl, rfl⟩, _, _, ⟨rfl, rfl⟩, function, _, ⟨finished, rfl⟩, _, rfl, leads⟩
    refine ⟨function, finished, ?_⟩
    by_cases none : before.scope.captures.isEmpty = true
    · have none' : (before.scopes.headD {}).captures.isEmpty = true := none
      rw [if_pos none]
      simp only [none', Bool.not_true, Bool.false_eq_true, ↓reduceIte, leads_emit] at leads
      exact leads
    · have some : (before.scopes.headD {}).captures.isEmpty = false :=
        eq_false_of_ne_true none
      rw [if_neg none]
      simp only [some, Bool.not_false, ↓reduceIte, leads_seq, leads_pushCaptures, leads_emit,
        exists_eq_left] at leads
      exact leads
  · rintro ⟨function, finished, same⟩
    refine ⟨_, _, ⟨rfl, rfl⟩, _, _, ⟨rfl, rfl⟩, function, _, ⟨finished, rfl⟩, _, rfl, ?_⟩
    by_cases none : before.scope.captures.isEmpty = true
    · have none' : (before.scopes.headD {}).captures.isEmpty = true := none
      rw [if_pos none] at same
      simp only [none', Bool.not_true, Bool.false_eq_true, ↓reduceIte, leads_emit]
      exact same
    · have some : (before.scopes.headD {}).captures.isEmpty = false :=
        eq_false_of_ne_true none
      rw [if_neg none] at same
      simp only [some, Bool.not_false, ↓reduceIte, leads_seq, leads_pushCaptures, leads_emit,
        exists_eq_left]
      exact same

/-- A function is compiled with its parameters and its declared names in place; undefined is what
it returns at its end. -/
theorem leads_definition {span : Span} {params declared : List (String × Span)}
    {body : List Stmt} :
    Leads context (definition (.mk span params declared body)) before done after ↔
      before.functions.size ≤ 65535 ∧
        ∃ named, Leads context (declareParams params) before.opened () named ∧
          ∃ ready, Leads context (declareAhead declared) named () ready ∧
            ∃ ended, Leads context (stmts body) ready () ended ∧
              Leads context
                (closeFunction span before.functions.size before.assembler before.loops)
                (ended.emit .retUndefined) done after := by
  simp only [definition, @leads_bind (Nat × Assembler × List LoopLabels), leads_seq,
    leads_openFunction, leads_emit, exists_eq_left]
  constructor
  · rintro ⟨_, _, ⟨few, rfl, rfl⟩, rest⟩
    exact ⟨few, rest⟩
  · rintro ⟨few, rest⟩
    exact ⟨_, _, ⟨few, rfl, rfl⟩, rest⟩

theorem leads_function {body : Definition} :
    Leads context (expr (.function body)) before done after ↔
      Leads context (definition body) before done after := by
  rw [expr]

theorem not_leads_broken {error : CompileError} :
    ¬ Leads context (expr (.broken error)) before done after := by
  rw [expr]
  exact not_leads_throw

/-! ## Declarations -/

/-- Outside functions a declared name gets no slot. -/
theorem leads_declareSlot {name : String} {span : Span} {index : UInt16} :
    Leads context (declareSlot name span) before index after ↔
      match before.scopes with
      | [] => index = 0 ∧ after = before
      | scope :: outer =>
          ∃ scope', scope.declare (max context.limits.maxLocals 1) name = .ok (index, scope') ∧
            after = { before with scopes := scope' :: outer } := by
  simp only [declareSlot, slotLimit, @leads_bind Compilation, leads_get]
  cases scopes : before.scopes with
  | nil =>
      constructor
      · rintro ⟨_, _, ⟨rfl, rfl⟩, leads⟩
        rw [scopes] at leads
        obtain ⟨rfl, rfl⟩ := leads_pure.mp leads
        exact ⟨rfl, rfl⟩
      · rintro ⟨rfl, rfl⟩
        refine ⟨_, _, ⟨rfl, rfl⟩, ?_⟩
        rw [scopes]
        exact leads_pure.mpr ⟨rfl, rfl⟩
  | cons scope outer =>
      constructor
      · rintro ⟨_, _, ⟨rfl, rfl⟩, leads⟩
        rw [scopes] at leads
        simp only [leads_bind, leads_read, leads_pure, leads_orComplain, leads_modify] at leads
        obtain ⟨_, _, ⟨_, _, ⟨rfl, rfl⟩, rfl, rfl⟩, ⟨_, scope'⟩, _, ⟨declared, rfl⟩, _, _, rfl, rfl,
          rfl⟩ := leads
        exact ⟨scope', declared, rfl⟩
      · rintro ⟨scope', declared, rfl⟩
        refine ⟨_, _, ⟨rfl, rfl⟩, ?_⟩
        rw [scopes]
        simp only [leads_bind, leads_read, leads_pure, leads_orComplain, leads_modify]
        exact ⟨_, _, ⟨_, _, ⟨rfl, rfl⟩, rfl, rfl⟩, (index, scope'), _, ⟨declared, rfl⟩, ⟨⟩, _, rfl,
          rfl, rfl⟩

/-- No variables lead nowhere else. -/
theorem leads_declarators_nil :
    Leads context (declarators []) before done after ↔ before = after := by
  simp only [declarators, leads_pure, true_and]

theorem leads_declarators_cons {first : Declarator} {rest : List Declarator} :
    Leads context (declarators (first :: rest)) before done after ↔
      ∃ middle, Leads context (declarator first) before () middle ∧
        Leads context (declarators rest) middle done after := by
  rw [declarators, leads_seq]

theorem leads_whereDeclared {α : Type} {whenTop inside : Compiling α} {done : α}
    (leads : Leads context (do if ← isTopLevel then whenTop else inside) before done after) :
    before.scopes = [] ∧ Leads context whenTop before done after ∨
      before.scopes ≠ [] ∧ Leads context inside before done after := by
  obtain ⟨_, _, top, leads⟩ := leads_bind.mp leads
  obtain ⟨rfl, rfl⟩ := leads_isTopLevel.mp top
  split at leads
  · rename_i topLevel
    exact .inl ⟨List.isEmpty_iff.mp topLevel, leads⟩
  · rename_i inside
    exact .inr ⟨fun topLevel => inside (List.isEmpty_iff.mpr topLevel), leads⟩

/-- A declared name gets a place: it becomes a global of the unit, or has a slot of the function. -/
inductive Placed (context : CompileContext) (name : String) (span : Span) (before : Compilation) :
    Sink → Compilation → Prop
  | global {index middle} :
      before.scopes = [] → Leads context (addString name span) before index middle →
        Placed context name span before (.global index) (middle.addGlobal name)
  | slot {slot middle} :
      before.scopes ≠ [] → Leads context (declareSlot name span) before slot middle →
        Placed context name span before (.slot slot) middle

theorem leads_variable_none {name : String} {span : Span}
    (leads : Leads context (declarator (.variable name span none)) before done after) :
    ∃ sink placed, Placed context name span before sink placed ∧
      after = placed.announcing sink := by
  rw [declarator] at leads
  obtain ⟨topLevel, leads⟩ | ⟨inside, leads⟩ := leads_whereDeclared leads
  · obtain ⟨index, middle, added, leads⟩ := leads_bind.mp leads
    obtain ⟨_, noted, leads⟩ := leads_seq.mp leads
    obtain rfl := leads_modify.mp noted
    exact ⟨_, _, .global topLevel added, leads_emit.mp leads⟩
  · obtain ⟨slot, middle, declared, leads⟩ := leads_bind.mp leads
    obtain ⟨-, rfl⟩ := leads_pure.mp leads
    exact ⟨_, _, .slot inside declared, rfl⟩

theorem leads_bound {name : String} {span : Span} {action : Compiling Unit}
    (leads : Leads context (do
      if ← isTopLevel then
        let index ← addString name span
        addGlobal name
        action
        emit .defineGlobal index
      else
        let slot ← declareSlot name span
        action
        emit .storeLocal slot
        emit .pop) before done after) :
    ∃ sink placed valued, Placed context name span before sink placed ∧
      Leads context action placed () valued ∧ after = valued.sinking sink := by
  obtain ⟨topLevel, leads⟩ | ⟨inside, leads⟩ := leads_whereDeclared leads
  · obtain ⟨index, middle, added, leads⟩ := leads_bind.mp leads
    obtain ⟨_, noted, leads⟩ := leads_seq.mp leads
    obtain rfl := leads_modify.mp noted
    obtain ⟨valued, inner, leads⟩ := leads_seq.mp leads
    exact ⟨_, _, valued, .global topLevel added, inner, leads_emit.mp leads⟩
  · obtain ⟨slot, middle, declared, leads⟩ := leads_bind.mp leads
    obtain ⟨valued, inner, leads⟩ := leads_seq.mp leads
    simp only [leads_seq, leads_emit, exists_eq_left] at leads
    exact ⟨_, _, valued, .slot inside declared, inner, leads⟩

/-- The value of a variable is bound to its name. -/
theorem leads_variable {name : String} {span : Span} {value : Expr}
    (leads : Leads context (declarator (.variable name span (some value))) before done after) :
    ∃ sink placed valued, Placed context name span before sink placed ∧
      Leads context (expr value) placed () valued ∧ after = valued.sinking sink := by
  rw [declarator] at leads
  exact leads_bound leads

/-- And so is a named function. -/
theorem leads_define {name : String} {span : Span} {body : Definition}
    (leads : Leads context (stmt (.define name span body)) before done after) :
    ∃ sink placed valued, Placed context name span before sink placed ∧
      Leads context (definition body) placed () valued ∧ after = valued.sinking sink := by
  rw [stmt] at leads
  exact leads_bound leads

theorem leads_declare {names : List Declarator} :
    Leads context (stmt (.declare names)) before done after ↔
      Leads context (declarators names) before done after := by
  rw [stmt]

/-! ## Statements -/

/-- No statements lead nowhere else. -/
theorem leads_stmts_nil : Leads context (stmts []) before done after ↔ before = after := by
  simp only [stmts, leads_pure, true_and]

theorem leads_stmts_cons {first : Stmt} {rest : List Stmt} :
    Leads context (stmts (first :: rest)) before done after ↔
      ∃ middle, Leads context (stmt first) before () middle ∧
        Leads context (stmts rest) middle done after := by
  rw [stmts, leads_seq]

/-- A block is made of its statements. -/
theorem leads_block {body : List Stmt} :
    Leads context (stmt (.block body)) before done after ↔
      Leads context (stmts body) before done after := by
  rw [stmt]

/-- At the top level the value of an expression statement is kept as the unit's result. -/
theorem leads_expression {value : Expr}
    (leads : Leads context (stmt (.expression value)) before done after) :
    ∃ valued, Leads context (expr value) before () valued ∧
      after = valued.sinking (if valued.scopes.isEmpty then .slot 0 else .drop) := by
  rw [stmt] at leads
  obtain ⟨valued, inner, leads⟩ := leads_seq.mp leads
  obtain ⟨_, _, top, leads⟩ := leads_bind.mp leads
  obtain ⟨rfl, rfl⟩ := leads_isTopLevel.mp top
  refine ⟨valued, inner, ?_⟩
  split at leads
  · rename_i topLevel
    rw [if_pos topLevel]
    simp only [leads_seq, leads_emit, exists_eq_left] at leads
    exact leads
  · rename_i inside
    rw [if_neg inside]
    exact leads_emit.mp leads

/-- The state behind a test that a label is jumped to from when it fails. -/
def guarded (tested : Compilation) : Compilation :=
  tested.addLabel.emitJump .jumpIfFalse tested.nextLabel

/-- A branch is guarded by a jump behind it. -/
theorem leads_branch {condition : Expr} {whenTrue : Stmt} :
    Leads context (stmt (.branch condition whenTrue none)) before done after ↔
      ∃ tested, Leads context (expr condition) before () tested ∧
        ∃ first, Leads context (stmt whenTrue) (guarded tested) () first ∧
          after = first.placeLabel tested.nextLabel := by
  simp only [stmt, leads_seq, @leads_bind Label, leads_newLabel, leads_emitJump, leads_placeLabel]
  constructor
  · rintro ⟨tested, condition, _, _, ⟨rfl, rfl⟩, _, rfl, rest⟩
    exact ⟨tested, condition, rest⟩
  · rintro ⟨tested, condition, rest⟩
    exact ⟨tested, condition, _, _, ⟨rfl, rfl⟩, _, rfl, rest⟩

/-- The state between the two branches of a statement. -/
def otherwise (tested first : Compilation) : Compilation :=
  (first.addLabel.emitJump .jump first.nextLabel).placeLabel tested.nextLabel

/-- With an `else` the jump goes there. -/
theorem leads_branch_else {condition : Expr} {whenTrue whenFalse : Stmt} :
    Leads context (stmt (.branch condition whenTrue (some whenFalse))) before done after ↔
      ∃ tested, Leads context (expr condition) before () tested ∧
        ∃ first, Leads context (stmt whenTrue) (guarded tested) () first ∧
          ∃ second, Leads context (stmt whenFalse) (otherwise tested first) () second ∧
            after = second.placeLabel first.nextLabel := by
  simp only [stmt, leads_seq, @leads_bind Label, leads_newLabel, leads_emitJump, leads_placeLabel]
  constructor
  · rintro ⟨tested, condition, _, _, ⟨rfl, rfl⟩, _, rfl, first, true_, _, _, ⟨rfl, rfl⟩, _, rfl, _,
      rfl, rest⟩
    exact ⟨tested, condition, first, true_, rest⟩
  · rintro ⟨tested, condition, first, true_, rest⟩
    exact ⟨tested, condition, _, _, ⟨rfl, rfl⟩, _, rfl, first, true_, _, _, ⟨rfl, rfl⟩, _, rfl, _, rfl,
      rest⟩

/-- What is done within a loop sees its labels. -/
theorem leads_inLoop {labels : LoopLabels} {step : Compiling Unit} :
    Leads context (inLoop labels step) before done after ↔
      ∃ middle, Leads context step (before.entering labels) () middle ∧
        after = middle.leaving before := by
  simp only [inLoop, @leads_bind Compilation, leads_seq, leads_get, leads_modify]
  constructor
  · rintro ⟨_, _, ⟨rfl, rfl⟩, _, rfl, middle, leads, rfl⟩
    exact ⟨middle, leads, rfl⟩
  · rintro ⟨middle, leads, rfl⟩
    exact ⟨_, _, ⟨rfl, rfl⟩, _, rfl, middle, leads, rfl⟩

/-- A jump out of a loop goes to a label of the innermost one. -/
theorem leads_loopJump {keyword : TokenKind} {target : LoopLabels → Label} {span : Span} :
    Leads context (loopJump keyword target span) before done after ↔
      ∃ labels outer, before.loops = labels :: outer ∧
        after = (before.emitJump .jump (target labels)).setDepth before.assembler.depth := by
  simp only [loopJump, @leads_bind Compilation, leads_get]
  constructor
  · rintro ⟨_, _, ⟨rfl, rfl⟩, leads⟩
    split at leads
    · exact absurd leads not_leads_complain
    · rename_i labels outer inside
      simp only [@leads_bind Int, leads_seq, leads_depth, leads_emitJump, leads_setDepth] at leads
      obtain ⟨_, _, ⟨rfl, rfl⟩, _, rfl, rfl⟩ := leads
      exact ⟨labels, outer, inside, rfl⟩
  · rintro ⟨labels, outer, inside, rfl⟩
    refine ⟨_, _, ⟨rfl, rfl⟩, ?_⟩
    simp only [inside, @leads_bind Int, leads_seq, leads_depth, leads_emitJump, leads_setDepth]
    exact ⟨_, _, ⟨rfl, rfl⟩, _, rfl, rfl⟩

/-- A `break` goes to its end. -/
theorem leads_breakLoop {span : Span} :
    Leads context (stmt (.breakLoop span)) before done after ↔
      ∃ labels outer, before.loops = labels :: outer ∧
        after = (before.emitJump .jump labels.breakTo).setDepth before.assembler.depth := by
  rw [stmt, leads_loopJump]

theorem leads_continueLoop {span : Span} :
    Leads context (stmt (.continueLoop span)) before done after ↔
      ∃ labels outer, before.loops = labels :: outer ∧
        after = (before.emitJump .jump labels.continueTo).setDepth before.assembler.depth := by
  rw [stmt, leads_loopJump]

theorem leads_return_undefined :
    Leads context (stmt (.return_ none)) before done after ↔
      after = (before.emit .retUndefined).setDepth before.assembler.depth := by
  simp only [stmt, @leads_bind Int, leads_seq, leads_depth, leads_emit, leads_setDepth]
  constructor
  · rintro ⟨_, _, ⟨rfl, rfl⟩, _, rfl, rfl⟩
    rfl
  · rintro rfl
    exact ⟨_, _, ⟨rfl, rfl⟩, _, rfl, rfl⟩

/-- A value is computed before it is returned. -/
theorem leads_return {value : Expr} :
    Leads context (stmt (.return_ (some value))) before done after ↔
      ∃ valued, Leads context (expr value) before () valued ∧
        after = (valued.emit .ret).setDepth before.assembler.depth := by
  simp only [stmt, @leads_bind Int, leads_seq, leads_depth, leads_emit, leads_setDepth]
  constructor
  · rintro ⟨_, _, ⟨rfl, rfl⟩, valued, leads, _, rfl, rfl⟩
    exact ⟨valued, leads, rfl⟩
  · rintro ⟨valued, leads, rfl⟩
    exact ⟨_, _, ⟨rfl, rfl⟩, valued, leads, _, rfl, rfl⟩

/-! ## Loops -/

/-- The state in front of the test of a loop: two labels, the first of them placed there. -/
def looping (state : Compilation) : Compilation :=
  state.addLabel.addLabel.placeLabel state.nextLabel

/-- The end of a loop that starts in a state. -/
def endLabel (state : Compilation) : Label := state.addLabel.nextLabel

/-- A `while` loop ends with a jump to its test. -/
theorem leads_whileLoop {condition : Expr} {body : Stmt} :
    Leads context (stmt (.whileLoop condition body)) before done after ↔
      ∃ tested, Leads context (expr condition) (looping before) () tested ∧
        ∃ repeated,
          Leads context (stmt body)
            ((tested.emitJump .jumpIfFalse (endLabel before)).entering
              ⟨endLabel before, before.nextLabel⟩) () repeated ∧
            after =
              ((repeated.leaving tested).emitJump .jump before.nextLabel).placeLabel
                (endLabel before) := by
  simp only [stmt, leads_seq, @leads_bind Label, leads_newLabel, leads_emitJump, leads_placeLabel,
    leads_inLoop]
  constructor
  · rintro ⟨_, _, ⟨rfl, rfl⟩, _, _, ⟨rfl, rfl⟩, _, rfl, tested, condition, _, rfl, _,
      ⟨repeated, body, rfl⟩, _, rfl, rfl⟩
    exact ⟨tested, condition, repeated, body, rfl⟩
  · rintro ⟨tested, condition, repeated, body, rfl⟩
    exact ⟨_, _, ⟨rfl, rfl⟩, _, _, ⟨rfl, rfl⟩, _, rfl, tested, condition, _, rfl, _,
      ⟨repeated, body, rfl⟩, _, rfl, rfl⟩

theorem leads_forStart_nothing :
    Leads context (forStart .nothing) before done after ↔ before = after := by
  simp only [forStart, leads_pure, true_and]

theorem leads_forStart_declare {names : List Declarator} :
    Leads context (forStart (.declare names)) before done after ↔
      Leads context (declarators names) before done after := by
  rw [forStart]

theorem leads_forStart_evaluate {value : Expr} :
    Leads context (forStart (.evaluate value)) before done after ↔
      ∃ valued, Leads context (expr value) before () valued ∧ after = valued.emit .pop := by
  simp only [forStart, leads_seq, leads_emit]

/-- The state behind the test of a `for` loop that starts in a state. -/
inductive TestLeads (context : CompileContext) (started : Compilation) :
    Option Expr → Compilation → Prop
  | none : TestLeads context started none (looping started)
  | some {condition tested} :
      Leads context (expr condition) (looping started) () tested →
        TestLeads context started (some condition)
          (tested.emitJump .jumpIfFalse (endLabel started))

/-- The state in front of the step clause of a `for` loop, which is jumped over at first. -/
def skipping (tested : Compilation) : Compilation :=
  (tested.addLabel.addLabel.emitJump .jump tested.nextLabel).placeLabel tested.addLabel.nextLabel

/-- The state behind the step clause of a `for` loop, and the label that `continue` leads to: the
step clause, or the test when there is none. -/
inductive StepLeads (context : CompileContext) (started tested : Compilation) :
    Option Expr → Label → Compilation → Prop
  | none : StepLeads context started tested none started.nextLabel tested
  | some {step stepped} :
      Leads context (expr step) (skipping tested) () stepped →
        StepLeads context started tested (some step) tested.addLabel.nextLabel
          (((stepped.emit .pop).emitJump .jump started.nextLabel).placeLabel tested.nextLabel)

/-- The code of a step clause and of the body behind it. -/
theorem leads_step {started tested : Compilation} {step : Expr} {body : Stmt} {breakTo : Label}
    (leads : Leads context
      (do
        let first ← newLabel
        let next ← newLabel
        emitJump .jump first
        placeLabel next
        expr step
        emit .pop
        emitJump .jump started.nextLabel
        placeLabel first
        let next ← pure next
        inLoop ⟨breakTo, next⟩ (stmt body)
        emitJump .jump next
        placeLabel breakTo)
      tested done after) :
    ∃ next stepped, StepLeads context started tested (some step) next stepped ∧
      ∃ repeated,
        Leads context (stmt body) (stepped.entering ⟨breakTo, next⟩) () repeated ∧
          after = ((repeated.leaving stepped).emitJump .jump next).placeLabel breakTo := by
  simp only [@leads_bind Label, leads_seq, leads_newLabel, leads_emitJump, leads_placeLabel,
    leads_inLoop, leads_pure, leads_emit] at leads
  obtain ⟨_, _, ⟨rfl, rfl⟩, _, _, ⟨rfl, rfl⟩, _, rfl, _, rfl, _, evaluated, _, rfl, _, rfl, _, rfl, _, _,
    ⟨rfl, rfl⟩, _, ⟨repeated, body, rfl⟩, _, rfl, rfl⟩ := leads
  exact ⟨_, _, .some evaluated, repeated, body, rfl⟩

/-- The loops around a `for` loop are the loops around its body again behind it. -/
theorem leads_forLoop {start : ForStart} {condition step : Option Expr} {body : Stmt}
    (leads : Leads context (stmt (.forLoop start condition step body)) before done after) :
    ∃ started, Leads context (forStart start) before () started ∧
      ∃ tested, TestLeads context started condition tested ∧
        ∃ next stepped, StepLeads context started tested step next stepped ∧
          ∃ repeated,
            Leads context (stmt body) (stepped.entering ⟨endLabel started, next⟩) () repeated ∧
              after =
                ((repeated.leaving stepped).emitJump .jump next).placeLabel
                  (endLabel started) := by
  rw [stmt, leads_seq] at leads
  obtain ⟨started, begun, leads⟩ := leads
  refine ⟨started, begun, ?_⟩
  obtain ⟨_, _, made, leads⟩ := leads_bind.mp leads
  obtain ⟨rfl, rfl⟩ := leads_newLabel.mp made
  obtain ⟨_, _, made, leads⟩ := leads_bind.mp leads
  obtain ⟨rfl, rfl⟩ := leads_newLabel.mp made
  obtain ⟨_, placed, leads⟩ := leads_seq.mp leads
  obtain rfl := leads_placeLabel.mp placed
  cases condition with
  | none =>
      refine ⟨_, .none, ?_⟩
      cases step with
      | none =>
          simp only [leads_bind, leads_pure, leads_emitJump, leads_placeLabel, leads_inLoop] at leads
          obtain ⟨_, _, ⟨rfl, rfl⟩, _, _, ⟨repeated, body, rfl⟩, _, _, rfl, rfl⟩ := leads
          exact ⟨_, _, .none, repeated, body, rfl⟩
      | some step =>
          obtain ⟨next, stepped, stepLeads, leads⟩ := leads_step leads
          exact ⟨next, stepped, stepLeads, leads⟩
  | some condition =>
      obtain ⟨tested, evaluated, leads⟩ := leads_seq.mp leads
      obtain ⟨_, jumped, leads⟩ := leads_seq.mp leads
      obtain rfl := leads_emitJump.mp jumped
      refine ⟨_, .some evaluated, ?_⟩
      cases step with
      | none =>
          simp only [leads_bind, leads_pure, leads_emitJump, leads_placeLabel, leads_inLoop] at leads
          obtain ⟨_, _, ⟨rfl, rfl⟩, _, _, ⟨repeated, body, rfl⟩, _, _, rfl, rfl⟩ := leads
          exact ⟨_, _, .none, repeated, body, rfl⟩
      | some step =>
          obtain ⟨next, stepped, stepLeads, leads⟩ := leads_step leads
          exact ⟨next, stepped, stepLeads, leads⟩

end Compiling

end PocketScript
