import PocketScript.Proofs.Code.Layout
import PocketScript.Proofs.Compile.Functions

/-!
# Compiled programs have their shape

Every tree that compiles adds code of its shape (`Compiling.shape_expr`, `Compiling.shape_stmt`), by
recursion over the trees. A function is completed only when its body is, so each function of a
compiled program has the shape of some body (`compile_shaped`).
-/

namespace PocketScript

namespace Compilation

variable {context : CompileContext} {before middle after state : Compilation}
  {code : CompleteCode}

/-- Code becomes complete as it is. -/
theorem covered_plain (small : state.assembler.pending.size ≤ 65535) :
    Covered state (.plain state.assembler) :=
  ⟨⟨fun _ _ => id, fun _ _ => id, Int.le_refl _, fun _ _ _ => trivial, fun _ _ _ => trivial⟩,
    fun _ _ => trivial, small⟩

/-- The instructions that push what a closure captures. -/
theorem adds_pushCaptures (state : Compilation) (sources : List CaptureSource) :
    Adds state (state.pushCaptures sources) ∧
      (state.pushCaptures sources).size = state.size + sources.length ∧
        (state.pushCaptures sources).assembler.depth = state.assembler.depth + sources.length ∧
          ∀ code, Fits (state.pushCaptures sources) code →
            ∀ position < sources.length, ∃ op capture,
              code.Holds (state.size + position) op capture ∧
                (op = .pushCell ∨ op = .pushUpvalue) := by
  induction sources generalizing state with
  | nil =>
      refine ⟨.refl state, rfl, (Int.add_zero _).symm, fun code fits position inside => ?_⟩
      exact absurd inside (Nat.not_lt_zero _)
  | cons source rest ih =>
      -- The first instruction, whichever it is, and then the others.
      obtain ⟨op, capture, pushes, effect, next⟩ : ∃ op capture,
          (op = Opcode.pushCell ∨ op = .pushUpvalue) ∧ op.stackEffect capture 0 = 1 ∧
            state.pushCaptures (source :: rest) = (state.emit op capture).pushCaptures rest := by
        cases source with
        | outerSlot index => exact ⟨.pushCell, index, .inl rfl, rfl, rfl⟩
        | outerCapture index => exact ⟨.pushUpvalue, index, .inr rfl, rfl, rfl⟩
      rw [next]
      obtain ⟨adds, size, depth, holds⟩ := ih (state.emit op capture)
      rw [size_emit] at size
      rw [depth_emit, effect] at depth
      refine ⟨((Adds.refl state).emit _ _).trans adds, by rw [size, List.length_cons]; omega,
        by rw [depth, List.length_cons]; omega, fun code fits position inside => ?_⟩
      cases position with
      | zero => exact ⟨op, capture, (fits.of_adds adds).holds, pushes⟩
      | succ position =>
          rw [List.length_cons] at inside
          obtain ⟨op', capture', there⟩ := holds code fits position (by omega)
          rw [size_emit] at there
          rw [show state.size + (position + 1) = state.size + 1 + position by omega]
          exact ⟨op', capture', there⟩

/-- There is room for the captures that are pushed, of which there is one at least. -/
theorem room_pushCaptures {sources : List CaptureSource} (some : sources ≠ [])
    (fits : Fits (state.pushCaptures sources) code) :
    state.assembler.depth + sources.length ≤ code.assembler.maxDepth := by
  obtain ⟨last, source, rfl⟩ := (List.eq_nil_or_concat sources).resolve_left some
  rw [List.concat_eq_append] at fits ⊢
  have split : state.pushCaptures (last ++ [source]) =
      (state.pushCaptures last).pushCaptures [source] := by
    rw [pushCaptures, List.foldl_append]
    rfl
  rw [split] at fits
  obtain ⟨-, -, depth, -⟩ := adds_pushCaptures state last
  rw [List.length_append, List.length_singleton, Int.natCast_add, ← Int.add_assoc, ← depth]
  cases source with
  | outerSlot index => exact fits.within.emitted.2
  | outerCapture index => exact fits.within.emitted.2

/-- What happens in an inner function keeps the code around it. -/
theorem grows_closed {function : FunctionDef} (grows : Grows before.opened state) :
    Grows before (state.closed before function) :=
  ⟨fun _ _ => id, fun _ _ => id, Int.le_refl _, grows.numbers, grows.strings, rfl⟩

/-- A completed function gets its place in the table. -/
theorem functionsGrow_closed {function : FunctionDef}
    (functions : FunctionsGrow before.opened state) (shaped : function.IsShaped) :
    FunctionsGrow before (state.closed before function) := by
  have opened : before.opened.functions.size = before.functions.size + 1 := Array.size_push _
  refine ⟨fun index other found => ?_, fun index other new found => ?_⟩
  · obtain ⟨inside, same⟩ := Array.getElem?_eq_some_iff.mp found
    have kept := functions.1 index other (by
      change (before.functions.push default)[index]? = _
      rw [Array.getElem?_push_lt inside, same])
    change (state.functions.setIfInBounds before.functions.size function)[index]? = _
    rw [Array.getElem?_setIfInBounds_ne (by omega), kept]
  · change (state.functions.setIfInBounds before.functions.size function)[index]? = _ at found
    by_cases here : index = before.functions.size
    · subst here
      rw [Array.getElem?_setIfInBounds_self] at found
      split at found
      · injection found with same
        exact same ▸ shaped
      · cases found
    · rw [Array.getElem?_setIfInBounds_ne (Ne.symm here)] at found
      exact functions.2 index other (by omega) found

theorem steady_closed {function : FunctionDef}
    (scopes : Scopes.Grows before.opened.scopes state.scopes) :
    Scopes.Steady before.scopes (state.closed before function).scopes := by
  obtain ⟨scope, outer, listed, steady⟩ := scopes
  change Scopes.Steady before.scopes state.scopes.tail
  rw [listed]
  exact steady

/-- The value of a function is created behind the code that was interrupted for its body. -/
theorem FunctionShape.of_closed {span : Span} (extended : Extends before.opened state)
    (shaped : ∀ function,
      state.assembler.finish state.scope.slots.size state.scope.argCount state.scope.captured
        (!state.scope.captures.isEmpty) = .ok function → function.IsShaped)
    (leads : Compiling.Leads context
      (Compiling.closeFunction span before.functions.size before.assembler before.loops) state ()
      after) :
    FunctionShape before after := by
  obtain ⟨function, finished, same⟩ := Compiling.leads_closeFunction.mp leads
  have adds : Adds before (state.closed before function) :=
    ⟨grows_closed extended.grows, functionsGrow_closed extended.functions (shaped _ finished),
      steady_closed extended.scopes⟩
  have size : (state.closed before function).size = before.size := rfl
  have depth : (state.closed before function).assembler.depth = before.assembler.depth := rfl
  by_cases none : state.scope.captures.isEmpty = true
  · rw [if_pos none] at same
    subst same
    refine ⟨adds.emit _ _, by rw [size_emit, size]; omega, fun code fits depthNat start => ?_⟩
    have depthAfter : (state.closed before function).assembler.depth +
        Opcode.stackEffect .pushFunction (UInt16.ofNat before.functions.size) 0 =
          (depthNat + 1 : Nat) := by
      rw [depth, start]
      rfl
    refine ⟨depthAfter, ?_⟩
    rw [size_emit, size]
    exact .plain (size ▸ fits.holds) (fits.hasRoom depthAfter)
  · rw [if_neg none] at same
    subst same
    obtain ⟨captured, sizeCaptured, depthCaptured, holds⟩ :=
      adds_pushCaptures (state.closed before function) state.scope.captures.toList
    have count : state.scope.captures.toList.length = state.scope.captures.size := rfl
    rw [count, size] at sizeCaptured
    rw [count, depth] at depthCaptured
    refine ⟨(adds.trans captured).emit _ _ _, by rw [size_emit, sizeCaptured]; omega,
      fun code fits depthNat start => ?_⟩
    have few : state.scope.captures.size ≤ 65535 := by
      have inside := fits.of_emit.within.size_le
      have small := fits.small
      omega
    have depthAfter : ((state.closed before function).pushCaptures
        state.scope.captures.toList).assembler.depth +
          Opcode.stackEffect .makeClosure (UInt16.ofNat before.functions.size)
            (UInt16.ofNat state.scope.captures.size) = (depthNat + 1 : Nat) := by
      rw [depthCaptured, start]
      simp only [Opcode.stackEffect, toNat_ofNat_of_le few]
      omega
    refine ⟨depthAfter, ?_⟩
    have some : state.scope.captures.toList ≠ [] := by
      intro empty
      apply none
      rw [Array.isEmpty_iff, ← Array.toList_inj, empty]
    have room := room_pushCaptures some fits.of_emit
    rw [count, depth, start] at room
    have made := fits.holds
    rw [sizeCaptured] at made
    rw [size_emit, sizeCaptured]
    rw [count] at holds
    exact .closure _ few (size ▸ holds code fits.of_emit) made room (fits.hasRoom depthAfter)

/-- Parameters add slots and no code. -/
theorem extends_declareParams {names : List (String × Span)}
    (leads : Compiling.Leads context (Compiling.declareParams names) before () after) :
    Extends before after ∧ after.assembler = before.assembler := by
  induction names generalizing before with
  | nil =>
      obtain ⟨-, rfl⟩ := Compiling.leads_pure.mp leads
      exact ⟨.refl _, rfl⟩
  | cons first rest ih =>
      rw [Compiling.declareParams] at leads
      obtain ⟨_, _, got, leads⟩ := Compiling.leads_bind.mp leads
      obtain ⟨rfl, rfl⟩ := Compiling.leads_get.mp got
      split at leads
      · exact ih leads
      · rename_i scope outer listed
        simp only [Compiling.slotLimit, Compiling.leads_bind, Compiling.leads_read,
          Compiling.leads_pure, Compiling.leads_orComplain, Compiling.leads_modify] at leads
        obtain ⟨_, _, ⟨_, _, ⟨rfl, rfl⟩, rfl, rfl⟩, ⟨_, scope'⟩, _, ⟨-, rfl⟩, _, _, rfl, leads⟩ := leads
        obtain ⟨extended, assembler⟩ := ih leads
        have one : Extends before { before with scopes := scope' :: outer } := by
          refine ⟨grows_scopes _ _, .of_eq rfl, ?_⟩
          rw [listed]
          exact ⟨_, _, rfl, .refl outer⟩
        exact ⟨one.trans extended, assembler⟩

/-- And so do the names declared ahead. -/
theorem extends_declareAhead {names : List (String × Span)}
    (leads : Compiling.Leads context (Compiling.declareAhead names) before () after) :
    Extends before after ∧ after.assembler = before.assembler := by
  induction names generalizing before with
  | nil =>
      obtain ⟨-, rfl⟩ := Compiling.leads_pure.mp leads
      exact ⟨.refl _, rfl⟩
  | cons first rest ih =>
      rw [Compiling.declareAhead] at leads
      obtain ⟨middle, declared, leads⟩ := Compiling.leads_seq.mp leads
      obtain ⟨slot, declared⟩ := Compiling.leads_discard.mp declared
      obtain ⟨one, assembler, -⟩ := extends_declareSlot declared
      obtain ⟨two, assembler'⟩ := ih leads
      exact ⟨one.trans two, assembler'.trans assembler⟩

/-- The code of a body that has its shape. -/
theorem stmtsAt_of_parts {params declared : List (String × Span)} {body : List Stmt}
    {named ready ended : Compilation}
    (params : Compiling.Leads context (Compiling.declareParams params) before.opened () named)
    (ahead : Compiling.Leads context (Compiling.declareAhead declared) named () ready)
    (inner : StmtsShape body ready ended) (covered : Covered (ended.emit .retUndefined) code) :
    ∃ flow, code.StmtsAt [] body flow 0 ended.size := by
  obtain ⟨one, assembler⟩ := extends_declareParams params
  obtain ⟨two, assembler'⟩ := extends_declareAhead ahead
  have empty : ready.assembler = {} := assembler'.trans assembler
  obtain ⟨-, flow, at_⟩ := inner.layout _ covered.of_emit (by rw [empty])
  have start : ready.size = 0 := congrArg (·.pending.size) empty
  have loops : ready.loops = [] := (one.trans two).grows.loops
  rw [start, loops] at at_
  exact ⟨flow, at_⟩

/-- The code of a function whose body has its shape. -/
theorem bodyAt_of_parts {params declared : List (String × Span)} {body : List Stmt}
    {named ready ended : Compilation}
    (params : Compiling.Leads context (Compiling.declareParams params) before.opened () named)
    (ahead : Compiling.Leads context (Compiling.declareAhead declared) named () ready)
    (inner : StmtsShape body ready ended)
    (small : (ended.emit .retUndefined).assembler.pending.size ≤ 65535) :
    ∃ flow, (CompleteCode.plain (ended.emit .retUndefined).assembler).BodyAt body flow := by
  have covered := covered_plain small
  obtain ⟨flow, at_⟩ := stmtsAt_of_parts params ahead inner covered
  exact ⟨flow, ended.size, at_, .function covered.holds (size_emit _ _ _ _)⟩

/-- A function whose body has its shape has its shape. -/
theorem FunctionShape.of_parts {span : Span} {params declared : List (String × Span)}
    {body : List Stmt} {named ready ended : Compilation}
    (params : Compiling.Leads context (Compiling.declareParams params) before.opened () named)
    (ahead : Compiling.Leads context (Compiling.declareAhead declared) named () ready)
    (inner : StmtsShape body ready ended)
    (leads : Compiling.Leads context
      (Compiling.closeFunction span before.functions.size before.assembler before.loops)
      (ended.emit .retUndefined) () after) :
    FunctionShape before after := by
  have upToReady := (extends_declareParams params).1.trans (extends_declareAhead ahead).1
  refine FunctionShape.of_closed ((upToReady.trans inner.extended).emit _) ?_ leads
  intro function finished
  obtain ⟨flow, at_⟩ := bodyAt_of_parts params ahead inner (Assembler.pending_size_le finished)
  exact ⟨_, _, _, _, _, body, flow, finished, at_⟩

end Compilation

namespace Compiling

open Compilation

variable {context : CompileContext}

mutual

/-- Compiled expressions have their shape. -/
theorem shape_expr : ∀ (tree : Expr) {before after : Compilation},
    Leads context (expr tree) before () after → ExprShape tree before after
  | .literal value, before, after, leads => by
      obtain rfl := leads_literal.mp leads
      refine .leaf (.refl before) rfl ?_ fun code _ holds depth room => .literal holds room
      cases value <;> rfl
  | .number value span, before, after, leads => by
      rw [expr] at leads
      have loaded := leads_number.mp leads
      split at loaded
      · rename_i isZero
        subst loaded isZero
        exact .leaf (.refl before) rfl rfl fun code _ holds depth room => .zero holds room
      · split at loaded
        · rename_i isSmall
          subst loaded
          exact .leaf (.refl before) rfl rfl fun code _ holds depth room =>
            .small isSmall holds room
        · obtain ⟨index, numbers, added, rfl⟩ := loaded
          exact .leaf (adds_addNumber added) rfl rfl fun code fits holds depth room =>
            .number holds (fits.within.numbers _ _ (places_add added).1) room
  | .string value span, before, after, leads => by
      rw [expr] at leads
      obtain ⟨index, strings, added, rfl⟩ := leads_string.mp leads
      exact .leaf (adds_addString added) rfl rfl fun code fits holds depth room =>
        .string holds (fits.within.strings _ _ (places_add added).1) room
  | .name ident span, before, after, leads => by
      obtain ⟨place, middle, resolved, loaded⟩ := leads_name.mp leads
      obtain ⟨addsFirst, known, assembler⟩ := adds_resolve resolved
      obtain ⟨addsLoad, size, depth, loadAt⟩ := adds_load loaded
      have sameSize := size_of_assembler assembler
      refine ⟨addsFirst.trans addsLoad, by omega, fun code fits depthNat start => ?_⟩
      obtain ⟨load, room⟩ := loadAt code fits
      have names := (fits.of_adds addsLoad).names _ _ known
      rw [assembler, start] at depth room
      rw [size, sameSize]
      rw [sameSize] at load
      exact ⟨depth, .name names load room⟩
  | .unary op operand, before, after, leads => by
      obtain ⟨middle, inner, rfl⟩ := leads_unary.mp leads
      exact .unary (shape_expr operand inner)
  | .binary op left right, before, after, leads => by
      obtain ⟨first, one, second, two, rfl⟩ := leads_binary.mp leads
      exact .binary (shape_expr left one) (shape_expr right two)
  | .logical op left right, before, after, leads => by
      obtain ⟨first, one, second, two, rfl⟩ := leads_logical.mp leads
      exact .logical (shape_expr left one) (shape_expr right two)
  | .conditional condition whenTrue whenFalse, before, after, leads => by
      obtain ⟨tested, one, first, two, second, three, rfl⟩ := leads_conditional.mp leads
      exact .conditional (shape_expr condition one) (shape_expr whenTrue two)
        (shape_expr whenFalse three)
  | .assignName ident span none value, before, after, leads => by
      obtain ⟨place, first, resolved, second, inner, stored⟩ := leads_assignName.mp leads
      exact .assignName resolved (shape_expr value inner) stored
  | .assignName ident span (some op) value, before, after, leads => by
      obtain ⟨place, first, resolved, loaded, read, second, inner, stored⟩ :=
        leads_updateName.mp leads
      exact .updateName resolved read (shape_expr value inner) stored
  | .assignElement container key none value, before, after, leads => by
      obtain ⟨first, one, second, two, third, three, rfl⟩ := leads_assignElement.mp leads
      exact .assignElement (shape_expr container one) (shape_expr key two)
        (shape_expr value three)
  | .assignElement container key (some op) value, before, after, leads => by
      obtain ⟨first, one, second, two, third, three, rfl⟩ := leads_updateElement.mp leads
      exact .updateElement (shape_expr container one) (shape_expr key two)
        (shape_expr value three)
  | .element container key, before, after, leads => by
      obtain ⟨first, one, second, two, rfl⟩ := leads_element.mp leads
      exact .element (shape_expr container one) (shape_expr key two)
  | .call callee args span, before, after, leads => by
      obtain ⟨first, one, second, rest, -, rfl⟩ := leads_call.mp leads
      exact .call (shape_expr callee one) (shape_exprs args rest)
  | .array elements span, before, after, leads => by
      obtain ⟨middle, inner, few, rfl⟩ := leads_array.mp leads
      exact .array (shape_exprs elements inner) few
  | .object properties span, before, after, leads => by
      obtain ⟨middle, inner, few, rfl⟩ := leads_object.mp leads
      exact .object (shape_entries properties inner) few
  | .function body, before, after, leads =>
      .function (shape_definition body (leads_function.mp leads))
  | .broken error, before, after, leads => absurd leads not_leads_broken

/-- And so have expressions in a row. -/
theorem shape_exprs : ∀ (trees : List Expr) {before after : Compilation},
    Leads context (exprs trees) before () after → ExprsShape trees before after
  | [], before, after, leads => by
      obtain rfl := leads_exprs_nil.mp leads
      exact .nil before
  | first :: rest, before, after, leads => by
      obtain ⟨middle, one, more⟩ := leads_exprs_cons.mp leads
      exact .cons (shape_expr first one) (shape_exprs rest more)

/-- Compiled properties have their shape. -/
theorem shape_entries : ∀ (trees : List Entry) {before after : Compilation},
    Leads context (entries trees) before () after → EntriesShape trees before after
  | [], before, after, leads => by
      obtain rfl := leads_entries_nil.mp leads
      exact .nil before
  | .property key span value :: rest, before, after, leads => by
      obtain ⟨named, pushed, middle, one, more⟩ := leads_entries_cons.mp leads
      exact .cons pushed (shape_expr value one) (shape_entries rest more)
  | .broken error :: rest, before, after, leads => by
      rw [entries, leads_seq] at leads
      obtain ⟨middle, thrown, -⟩ := leads
      rw [entry] at thrown
      exact absurd thrown not_leads_throw

/-- Compiled functions have theirs. -/
theorem shape_definition : ∀ (tree : Definition) {before after : Compilation},
    Leads context (definition tree) before () after → FunctionShape before after
  | .mk span params declared body, before, after, leads => by
      obtain ⟨-, named, params, ready, ahead, ended, inner, closed⟩ := leads_definition.mp leads
      exact .of_parts params ahead (shape_stmts body inner) closed

/-- A compiled variable has its shape. -/
theorem shape_declarator : ∀ (tree : Declarator) {before after : Compilation},
    Leads context (declarator tree) before () after → DeclaratorShape tree before after
  | .variable name span none, before, after, leads => by
      obtain ⟨sink, placed, places, rfl⟩ := leads_variable_none leads
      obtain ⟨extended, assembler⟩ := extends_placed places
      cases places with
      | global => exact .declared extended assembler
      | slot => exact .empty extended assembler
  | .variable name span (some value), before, after, leads => by
      obtain ⟨sink, placed, valued, places, inner, rfl⟩ := leads_variable leads
      obtain ⟨extended, assembler⟩ := extends_placed places
      exact .bound extended assembler (shape_expr value inner)
  | .broken error, before, after, leads => by
      rw [declarator] at leads
      exact absurd leads not_leads_throw

/-- And so have variables in a row. -/
theorem shape_declarators : ∀ (trees : List Declarator) {before after : Compilation},
    Leads context (declarators trees) before () after → DeclaratorsShape trees before after
  | [], before, after, leads => by
      obtain rfl := leads_declarators_nil.mp leads
      exact .nil before
  | first :: rest, before, after, leads => by
      obtain ⟨middle, one, more⟩ := leads_declarators_cons.mp leads
      exact .cons (shape_declarator first one) (shape_declarators rest more)

/-- What a loop starts with has its shape. -/
theorem shape_forStart : ∀ (tree : ForStart) {before after : Compilation},
    Leads context (forStart tree) before () after → ForStartShape tree before after
  | .nothing, before, after, leads => by
      obtain rfl := leads_forStart_nothing.mp leads
      exact .nothing before
  | .declare names, before, after, leads =>
      .declare (shape_declarators names (leads_forStart_declare.mp leads))
  | .evaluate value, before, after, leads => by
      obtain ⟨valued, inner, rfl⟩ := leads_forStart_evaluate.mp leads
      exact .evaluate (shape_expr value inner)

/-- And so has its test. -/
theorem shape_test : ∀ (tree : Option Expr) {started tested : Compilation},
    TestLeads context started tree tested → TestShape tree started tested
  | none, started, tested, leads => by
      cases leads
      exact .none started
  | some condition, started, tested, leads => by
      cases leads with
      | some inner => exact .some (shape_expr condition inner)

/-- And so has its step. -/
theorem shape_step : ∀ (tree : Option Expr) {started tested stepped : Compilation} {next : Label},
    StepLeads context started tested tree next stepped →
      StepShape tree started tested stepped next
  | none, started, tested, stepped, next, leads => by
      cases leads
      exact .none started tested
  | some step, started, tested, stepped, next, leads => by
      cases leads with
      | some inner => exact .some (shape_expr step inner)

/-- Compiled statements have their shape. -/
theorem shape_stmt : ∀ (tree : Stmt) {before after : Compilation},
    Leads context (stmt tree) before () after → StmtShape tree before after
  | .expression value, before, after, leads => by
      obtain ⟨valued, inner, rfl⟩ := leads_expression leads
      exact .expression (shape_expr value inner)
  | .declare names, before, after, leads =>
      .declare (shape_declarators names (leads_declare.mp leads))
  | .define name span body, before, after, leads => by
      obtain ⟨sink, placed, valued, places, inner, rfl⟩ := leads_define leads
      obtain ⟨extended, assembler⟩ := extends_placed places
      exact .define extended assembler (shape_definition body inner)
  | .branch condition whenTrue none, before, after, leads => by
      obtain ⟨tested, one, first, two, rfl⟩ := leads_branch.mp leads
      exact .branch (shape_expr condition one) (shape_stmt whenTrue two)
  | .branch condition whenTrue (some whenFalse), before, after, leads => by
      obtain ⟨tested, one, first, two, second, three, rfl⟩ := leads_branch_else.mp leads
      exact .branchElse (shape_expr condition one) (shape_stmt whenTrue two)
        (shape_stmt whenFalse three)
  | .whileLoop condition body, before, after, leads => by
      obtain ⟨tested, one, repeated, two, rfl⟩ := leads_whileLoop.mp leads
      exact .whileLoop (shape_expr condition one) (shape_stmt body two)
  | .forLoop begin test step body, before, after, leads => by
      obtain ⟨started, zero, tested, one, next, stepped, two, repeated, three, rfl⟩ :=
        leads_forLoop leads
      exact .forLoop (shape_forStart begin zero) (shape_test test one) (shape_step step two)
        (shape_stmt body three)
  | .breakLoop span, before, after, leads => by
      obtain ⟨labels, outer, inside, rfl⟩ := leads_breakLoop.mp leads
      exact .breakLoop inside
  | .continueLoop span, before, after, leads => by
      obtain ⟨labels, outer, inside, rfl⟩ := leads_continueLoop.mp leads
      exact .continueLoop inside
  | .return_ none, before, after, leads => by
      obtain rfl := leads_return_undefined.mp leads
      exact .returnNothing
  | .return_ (some value), before, after, leads => by
      obtain ⟨valued, inner, rfl⟩ := leads_return.mp leads
      exact .return_ (shape_expr value inner)
  | .block body, before, after, leads => .block (shape_stmts body (leads_block.mp leads))
  | .broken error, before, after, leads => by
      rw [stmt] at leads
      exact absurd leads not_leads_throw

/-- And so have statements in a row. -/
theorem shape_stmts : ∀ (trees : List Stmt) {before after : Compilation},
    Leads context (stmts trees) before () after → StmtsShape trees before after
  | [], before, after, leads => by
      obtain rfl := leads_stmts_nil.mp leads
      exact .nil before
  | first :: rest, before, after, leads => by
      obtain ⟨middle, one, more⟩ := leads_stmts_cons.mp leads
      exact .cons (shape_stmt first one) (shape_stmts rest more)

end

/-- Globals add no code. -/
theorem extends_addGlobals {names : List (String × Span)} {before after : Compilation}
    (leads : Leads context (addGlobals names) before () after) :
    Extends before after ∧ after.assembler = before.assembler := by
  induction names generalizing before with
  | nil =>
      obtain ⟨-, rfl⟩ := leads_pure.mp leads
      exact ⟨.refl _, rfl⟩
  | cons first rest ih =>
      rw [addGlobals] at leads
      obtain ⟨_, added, leads⟩ := leads_seq.mp leads
      obtain rfl := leads_modify.mp added
      obtain ⟨extended, assembler⟩ := ih leads
      exact ⟨(extends_addGlobal before first.1).trans extended, assembler⟩

/-- The code of the top level of a unit. -/
theorem bodyAt_of_unit {tree : UnitTree} {named ended : Compilation}
    (globals : Leads context (addGlobals tree.declared) .start () named)
    (inner : StmtsShape tree.body named ended)
    (small : ((ended.emit .loadLocal).emit .ret).assembler.pending.size ≤ 65535) :
    ∃ flow, (CompleteCode.plain ((ended.emit .loadLocal).emit .ret).assembler).BodyAt tree.body
      flow := by
  obtain ⟨one, assembler⟩ := extends_addGlobals globals
  have covered := covered_plain small
  obtain ⟨depth, flow, at_⟩ := inner.layout _ covered.of_emit.of_emit
    (congrArg Assembler.depth assembler)
  have start : named.size = 0 := congrArg (·.pending.size) assembler
  have loops : named.loops = [] := one.grows.loops
  rw [start, loops] at at_
  have last := covered.holds
  rw [size_emit] at last
  have room := covered.of_emit.fits.hasRoom (show _ = ((1 : Nat) : Int) by rw [depth]; rfl)
  exact ⟨flow, ended.size, at_, .unit covered.of_emit.holds last room
    ((size_emit _ _ _ _).trans (congrArg (· + 1) (size_emit _ _ _ _)))⟩

/-- A unit is compiled with its globals known; its result is what it returns at its end. -/
theorem leads_unit {tree : UnitTree} {before after : Compilation}
    (leads : Leads context (unit tree) before () after) :
    ∃ named, Leads context (addGlobals tree.declared) before () named ∧
      ∃ ended, Leads context (stmts tree.body) named () ended ∧
        ∃ main, ((ended.emit .loadLocal).emit .ret).assembler.finish 1 0 #[] false = .ok main ∧
          after = { (ended.emit .loadLocal).emit .ret with
            functions := ended.functions.setIfInBounds 0 main } := by
  rw [unit] at leads
  obtain ⟨named, globals, leads⟩ := leads_seq.mp leads
  obtain ⟨ended, body, leads⟩ := leads_seq.mp leads
  simp only [leads_seq, leads_emit, exists_eq_left] at leads
  obtain ⟨_, _, got, leads⟩ := leads_bind.mp leads
  obtain ⟨rfl, rfl⟩ := leads_get.mp got
  obtain ⟨main, _, completed, leads⟩ := leads_bind.mp leads
  obtain ⟨finished, rfl⟩ := leads_orComplain.mp completed
  injection leads with same
  injection same with _ same
  exact ⟨named, globals, ended, body, main, finished, same.symm⟩

/-- The functions of a unit have their shape when its top level is complete, which is the first of
them. -/
theorem shape_unit {tree : UnitTree} {after : Compilation}
    (leads : Leads context (unit tree) .start () after) :
    ∀ (index : Nat) function, after.functions[index]? = some function → function.IsShaped := by
  obtain ⟨named, globals, ended, body, main, finished, rfl⟩ := leads_unit leads
  obtain ⟨one, -⟩ := extends_addGlobals globals
  have inner := shape_stmts tree.body body
  have extended := one.trans inner.extended
  obtain ⟨flow, at_⟩ := bodyAt_of_unit globals inner (Assembler.pending_size_le finished)
  intro index function found
  change (ended.functions.setIfInBounds 0 main)[index]? = _ at found
  by_cases here : index = 0
  · subst here
    rw [Array.getElem?_setIfInBounds_self] at found
    split at found
    · injection found with same
      exact same ▸ ⟨_, _, _, _, _, tree.body, flow, finished, at_⟩
    · cases found
  · rw [Array.getElem?_setIfInBounds_ne (Ne.symm here)] at found
    exact extended.functions.2 index function (Nat.one_le_iff_ne_zero.mpr here) found

end Compiling

/-- Every function of a compiled program was completed from the code of some statements. -/
theorem compile_shaped {bytes : List UInt8} {limits : CompileLimits} {isKnownGlobal : String → Bool}
    {program : Program} (compiled : compile bytes limits isKnownGlobal = .ok program)
    {index : Nat} {function : FunctionDef} (found : program.functions[index]? = some function) :
    function.IsShaped := by
  obtain ⟨done, leads, rfl⟩ := leads_of_compile compiled
  exact Compiling.shape_unit leads index function found

end PocketScript
