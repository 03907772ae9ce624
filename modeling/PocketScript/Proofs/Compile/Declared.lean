import Mathlib
import PocketScript.Proofs.Compile.Shaped
import PocketScript.Proofs.Token.Lexemes
import PocketScript.Proofs.Tree.Declared

/-!
# Statements declare what was declared ahead

Compiling the statements of a function gives slots to the names that they declare, in the order of the
text (`Scopes.Declares`). All these names have been declared ahead, so no slot is added any more and
each name keeps its place through the whole body (`Definition.IsSettled`). So it is in every function
of a program text that can be compiled (`compile_declares_ahead`).
-/

namespace PocketScript

/-! ## Slots -/

namespace FunctionScope

variable {slots : Array String} {names : List String} {name : String} {scope : FunctionScope}

/-- The slots after some names have been declared, each of which gets one unless it has one. -/
def slotsWith (slots : Array String) : List String → Array String
  | [] => slots
  | name :: rest => slotsWith (if name ∈ slots then slots else slots.push name) rest

/-- Names may be added in two parts. -/
theorem slotsWith_append (slots : Array String) (names more : List String) :
    slotsWith slots (names ++ more) = slotsWith (slotsWith slots names) more := by
  induction names generalizing slots with
  | nil => rfl
  | cons first rest ih => exact ih _

/-- Names that are known are not added. -/
theorem slotsWith_eq_self (known : ∀ name ∈ names, name ∈ slots) : slotsWith slots names = slots := by
  induction names with
  | nil => rfl
  | cons first rest ih =>
      obtain ⟨here, others⟩ := List.forall_mem_cons.mp known
      rw [slotsWith, if_pos here, ih others]

/-- The names so far stay. -/
theorem mem_slotsWith_of_mem (there : name ∈ slots) (names : List String) :
    name ∈ slotsWith slots names := by
  induction names generalizing slots with
  | nil => exact there
  | cons first rest ih =>
      refine ih ?_
      split
      · exact there
      · exact Array.mem_push_of_mem first there

/-- And all new ones are there. -/
theorem mem_slotsWith (member : name ∈ names) : name ∈ slotsWith slots names := by
  induction names generalizing slots with
  | nil => cases member
  | cons first rest ih =>
      rw [slotsWith]
      cases member with
      | head =>
          refine mem_slotsWith_of_mem ?_ rest
          split
          · rename_i there
            exact there
          · exact Array.mem_push_self
      | tail _ member => exact ih member

/-- To declare a name adds it to the slots. -/
theorem slots_declare {limit : Nat} {index : UInt16} {scope' : FunctionScope}
    (declared : scope.declare limit name = .ok (index, scope')) :
    scope'.slots = slotsWith scope.slots [name] ∧ scope'.captures = scope.captures := by
  obtain ⟨there, rfl⟩ | ⟨missing, rfl⟩ := declare_cases declared
  · exact ⟨(if_pos there).symm, rfl⟩
  · exact ⟨(if_neg (find?_eq_none.mp missing)).symm, rfl⟩

end FunctionScope

namespace Scopes

variable {before middle after scopes : Scopes} {names more : List String} {name : String}

/-- Some names have been declared in the innermost function, and otherwise there are further captures
at most. -/
def Declares (names : List String) (before after : Scopes) : Prop :=
  match before with
  | [] => after = []
  | scope :: outer =>
      ∃ scope' outer', after = scope' :: outer' ∧
        scope'.slots = FunctionScope.slotsWith scope.slots names ∧
          (∃ more, scope'.captures = scope.captures ++ more) ∧ Steady outer outer'

theorem Steady.declares (steady : Steady before after) : Declares [] before after := by
  cases steady with
  | nil => rfl
  | cons head tail => exact ⟨_, _, rfl, head.1, head.2, tail⟩

/-- Names may be declared step by step. -/
theorem Declares.trans (first : Declares names before middle) (second : Declares more middle after) :
    Declares (names ++ more) before after := by
  cases before with
  | nil =>
      obtain rfl : middle = [] := first
      exact second
  | cons scope outer =>
      obtain ⟨scope', outer', rfl, slots, ⟨captures, same⟩, steady⟩ := first
      obtain ⟨scope'', outer'', rfl, slots', ⟨captures', same'⟩, steady'⟩ := second
      refine ⟨_, _, rfl, ?_, ⟨captures ++ captures', ?_⟩, steady.trans steady'⟩
      · rw [slots', slots, FunctionScope.slotsWith_append]
      · rw [same', same, Array.append_assoc]

/-- And captures may be added afterwards. -/
theorem Declares.steady_trans (first : Declares names before middle) (second : Steady middle after) :
    Declares names before after := by
  have both := first.trans second.declares
  rw [List.append_nil] at both
  exact both

/-- No slot is added for names that have one. -/
theorem Declares.steady (declares : Declares names before after)
    (known : ∀ scope ∈ before.head?, ∀ name ∈ names, name ∈ scope.slots) :
    Steady before after := by
  cases before with
  | nil =>
      obtain rfl : after = [] := declares
      exact .nil
  | cons scope outer =>
      obtain ⟨scope', outer', rfl, slots, captures, steady⟩ := declares
      rw [FunctionScope.slotsWith_eq_self (known scope rfl)] at slots
      exact .cons ⟨slots, captures⟩ steady

end Scopes

/-! ## Statements -/

namespace Compiling

open Compilation

variable {context : CompileContext} {before after : Compilation}

/-- A slot declares its name. -/
theorem declares_declareSlot {name : String} {span : Span} {index : UInt16}
    (leads : Leads context (declareSlot name span) before index after) :
    Scopes.Declares [name] before.scopes after.scopes := by
  have declared := leads_declareSlot.mp leads
  cases listed : before.scopes with
  | nil =>
      rw [listed] at declared
      obtain ⟨-, rfl⟩ := declared
      exact listed
  | cons scope outer =>
      rw [listed] at declared
      obtain ⟨scope', declared, rfl⟩ := declared
      obtain ⟨slots, captures⟩ := FunctionScope.slots_declare declared
      exact ⟨_, _, rfl, slots, ⟨#[], by rw [captures, Array.append_empty]⟩, .refl outer⟩

theorem declares_declareAhead {names : List (String × Span)}
    (leads : Leads context (declareAhead names) before () after) :
    Scopes.Declares (names.map Prod.fst) before.scopes after.scopes := by
  induction names generalizing before with
  | nil =>
      obtain ⟨-, rfl⟩ := leads_pure.mp leads
      exact (Scopes.Steady.refl _).declares
  | cons first rest ih =>
      rw [declareAhead] at leads
      obtain ⟨middle, declared, leads⟩ := leads_seq.mp leads
      obtain ⟨slot, declared⟩ := leads_discard.mp declared
      exact (declares_declareSlot declared).trans (ih leads)

/-- An expression declares nothing. -/
theorem steady_expr {tree : Expr} (leads : Leads context (expr tree) before () after) :
    Scopes.Steady before.scopes after.scopes := (shape_expr tree leads).adds.steady

theorem steady_definition {tree : Definition}
    (leads : Leads context (definition tree) before () after) :
    Scopes.Steady before.scopes after.scopes := (shape_definition tree leads).adds.steady

/-- A name that gets a place is declared. -/
theorem declares_placed {name : String} {span : Span} {sink : Sink}
    (places : Placed context name span before sink middle) :
    Scopes.Declares [name] before.scopes middle.scopes := by
  cases places with
  | global topLevel added =>
      have grows := (extends_addString added).1.scopes
      rw [topLevel] at grows ⊢
      exact grows
  | slot _ declared => exact declares_declareSlot declared

/-- What goes there declares nothing else. -/
theorem declares_bound {name : String} {span : Span} {sink : Sink}
    (places : Placed context name span before sink middle)
    (steady : Scopes.Steady middle.scopes after.scopes) :
    Scopes.Declares [name] before.scopes (after.sinking sink).scopes := by
  refine (declares_placed places).steady_trans ?_
  cases sink <;> exact steady

/-- A variable declares its name. -/
theorem declares_declarator {tree : Declarator}
    (leads : Leads context (declarator tree) before () after) :
    Scopes.Declares (tree.names.map Prod.fst) before.scopes after.scopes := by
  match tree with
  | .variable name span none =>
      obtain ⟨sink, placed, places, rfl⟩ := leads_variable_none leads
      refine (declares_placed places).steady_trans ?_
      cases sink <;> exact .refl _
  | .variable name span (some value) =>
      obtain ⟨sink, placed, valued, places, inner, rfl⟩ := leads_variable leads
      exact declares_bound places (steady_expr inner)
  | .broken error =>
      rw [declarator] at leads
      exact absurd leads not_leads_throw

/-- And variables in a row declare theirs. -/
theorem declares_declarators {trees : List Declarator}
    (leads : Leads context (declarators trees) before () after) :
    Scopes.Declares ((trees.flatMap Declarator.names).map Prod.fst) before.scopes after.scopes := by
  induction trees generalizing before with
  | nil =>
      obtain rfl := leads_declarators_nil.mp leads
      exact (Scopes.Steady.refl _).declares
  | cons first rest ih =>
      obtain ⟨middle, one, more⟩ := leads_declarators_cons.mp leads
      rw [List.flatMap_cons, List.map_append]
      exact (declares_declarator one).trans (ih more)

/-- What a loop starts with may declare variables. -/
theorem declares_forStart {tree : ForStart} (leads : Leads context (forStart tree) before () after) :
    Scopes.Declares (tree.names.map Prod.fst) before.scopes after.scopes := by
  cases tree with
  | nothing =>
      obtain rfl := leads_forStart_nothing.mp leads
      exact (Scopes.Steady.refl _).declares
  | declare names => exact declares_declarators (leads_forStart_declare.mp leads)
  | evaluate value =>
      obtain ⟨valued, inner, rfl⟩ := leads_forStart_evaluate.mp leads
      have declares := (steady_expr inner).declares
      exact declares

/-- Its test declares nothing. -/
theorem steady_test {tree : Option Expr} {started tested : Compilation}
    (leads : TestLeads context started tree tested) :
    Scopes.Steady started.scopes tested.scopes := by
  cases leads with
  | none => exact .refl _
  | some inner =>
      have steady := steady_expr inner
      exact steady

/-- Nor does its step. -/
theorem steady_step {tree : Option Expr} {started tested stepped : Compilation} {next : Label}
    (leads : StepLeads context started tested tree next stepped) :
    Scopes.Steady tested.scopes stepped.scopes := by
  cases leads with
  | none => exact .refl _
  | some inner =>
      have steady := steady_expr inner
      exact steady

mutual

/-- Compiling a statement declares its names, in the order of the text. -/
theorem declares_stmt : ∀ (tree : Stmt) {before after : Compilation},
    Leads context (stmt tree) before () after →
      Scopes.Declares (tree.names.map Prod.fst) before.scopes after.scopes
  | .expression value, before, after, leads => by
      obtain ⟨valued, inner, rfl⟩ := leads_expression leads
      refine (steady_expr inner).declares.steady_trans ?_
      split <;> exact .refl _
  | .declare names, before, after, leads => declares_declarators (leads_declare.mp leads)
  | .define name span body, before, after, leads => by
      obtain ⟨sink, placed, valued, places, inner, rfl⟩ := leads_define leads
      exact declares_bound places (steady_definition inner)
  | .branch condition whenTrue none, before, after, leads => by
      obtain ⟨tested, one, first, two, rfl⟩ := leads_branch.mp leads
      have tests := (steady_expr one).declares
      have declares := declares_stmt whenTrue two
      rw [Stmt.names, Stmt.namesIfAny, List.append_nil]
      exact tests.trans declares
  | .branch condition whenTrue (some whenFalse), before, after, leads => by
      obtain ⟨tested, one, first, two, second, three, rfl⟩ := leads_branch_else.mp leads
      have tests := (steady_expr one).declares
      have declares := declares_stmt whenTrue two
      have declares' := declares_stmt whenFalse three
      rw [Stmt.names, Stmt.namesIfAny, List.map_append]
      exact (tests.trans declares).trans declares'
  | .whileLoop condition body, before, after, leads => by
      obtain ⟨tested, one, repeated, two, rfl⟩ := leads_whileLoop.mp leads
      have tests := (steady_expr one).declares
      have declares := declares_stmt body two
      exact tests.trans declares
  | .forLoop begin test step body, before, after, leads => by
      obtain ⟨started, zero, tested, one, next, stepped, two, repeated, three, rfl⟩ :=
        leads_forLoop leads
      have begins := (declares_forStart zero).steady_trans (steady_test one)
      have declares := declares_stmt body three
      rw [Stmt.names, List.map_append]
      exact (begins.steady_trans (steady_step two)).trans declares
  | .breakLoop span, before, after, leads => by
      obtain ⟨labels, outer, inside, rfl⟩ := leads_breakLoop.mp leads
      exact (Scopes.Steady.refl _).declares
  | .continueLoop span, before, after, leads => by
      obtain ⟨labels, outer, inside, rfl⟩ := leads_continueLoop.mp leads
      exact (Scopes.Steady.refl _).declares
  | .return_ none, before, after, leads => by
      obtain rfl := leads_return_undefined.mp leads
      exact (Scopes.Steady.refl _).declares
  | .return_ (some value), before, after, leads => by
      obtain ⟨valued, inner, rfl⟩ := leads_return.mp leads
      have declares := (steady_expr inner).declares
      exact declares
  | .block body, before, after, leads => declares_stmts body (leads_block.mp leads)
  | .broken error, before, after, leads => by
      rw [stmt] at leads
      exact absurd leads not_leads_throw

/-- Statements declare the names that their parts do. -/
theorem declares_stmts : ∀ (trees : List Stmt) {before after : Compilation},
    Leads context (stmts trees) before () after →
      Scopes.Declares ((Stmt.namesOfAll trees).map Prod.fst) before.scopes after.scopes
  | [], before, after, leads => by
      obtain rfl := leads_stmts_nil.mp leads
      exact (Scopes.Steady.refl _).declares
  | first :: rest, before, after, leads => by
      obtain ⟨middle, one, more⟩ := leads_stmts_cons.mp leads
      rw [Stmt.namesOfAll, List.map_append]
      exact (declares_stmt first one).trans (declares_stmts rest more)

end

/-- Statements that are compiled are not broken. -/
theorem not_mem_broken {trees : List Stmt} {error : CompileError}
    (leads : Leads context (stmts trees) before () after) : .broken error ∉ trees := by
  induction trees generalizing before with
  | nil => exact List.not_mem_nil
  | cons first rest ih =>
      obtain ⟨middle, one, more⟩ := leads_stmts_cons.mp leads
      intro member
      cases member with
      | head =>
          rw [stmt] at one
          exact not_leads_throw one
      | tail _ member => exact ih more member

end Compiling

/-- Whatever its statements declare has been declared ahead: compiling them declares these names in
the order of the text; where they have been declared before, no slot is added in any part of the
body, and each of the names denotes the same slot everywhere. -/
def Definition.IsSettled : Definition → Prop
  | .mk _ _ declared body =>
      declared = Stmt.namesOfAll body ∧
      (∀ context (before after : Compilation),
        Compiling.Leads context (Compiling.stmts body) before () after →
          Scopes.Declares (declared.map Prod.fst) before.scopes after.scopes) ∧
      ∀ context (named ready : Compilation), named.scopes ≠ [] →
        Compiling.Leads context (Compiling.declareAhead declared) named () ready →
          (∀ part (before after : Compilation), Stmt.namesOfAll part ⊆ declared →
            Scopes.Steady ready.scopes before.scopes →
              Compiling.Leads context (Compiling.stmts part) before () after →
                Scopes.Steady ready.scopes after.scopes) ∧
          ∀ name ∈ declared, ∃ slot, ∀ limit scopes, Scopes.Steady ready.scopes scopes →
            Scopes.resolve limit name.1 scopes = .ok (.slot slot, scopes)

/-- A name with a slot denotes it as long as no slot is added. -/
theorem Scopes.resolve_eq_slot {scope : FunctionScope} {outer : Scopes} {name : String}
    (there : name ∈ scope.slots) :
    ∃ slot, ∀ limit scopes, Steady (scope :: outer) scopes →
      resolve limit name scopes = .ok (.slot slot, scopes) := by
  cases found : scope.find? name with
  | none => exact absurd there (FunctionScope.find?_eq_none.mp found)
  | some place =>
      refine ⟨UInt16.ofNat place, fun limit scopes steady => ?_⟩
      cases steady with
      | cons head tail => rw [resolve, head.find? name, found]

/-- A function whose names were found ahead declares nothing late. -/
theorem Definition.isSettled {span : Span} {params declared : List (String × Span)}
    {body : List Stmt} (agrees : (Definition.mk span params declared body).Agrees) :
    (Definition.mk span params declared body).IsSettled := by
  obtain rfl : declared = Stmt.namesOfAll body := agrees
  refine ⟨rfl, fun context before after => Compiling.declares_stmts body,
    fun context named ready inside ahead => ?_⟩
  have declares := Compiling.declares_declareAhead ahead
  cases listed : named.scopes with
  | nil => exact absurd listed inside
  | cons scope outer =>
      rw [listed] at declares
      obtain ⟨scope', outer', listed', slots, -, -⟩ := declares
      have known : ∀ name ∈ Stmt.namesOfAll body, name.1 ∈ scope'.slots := fun name member => by
        rw [slots]
        exact FunctionScope.mem_slotsWith (List.mem_map_of_mem member)
      rw [listed']
      refine ⟨fun part before after among steady leads => steady.trans ?_,
        fun name member => Scopes.resolve_eq_slot (known name member)⟩
      refine (Compiling.declares_stmts part leads).steady fun inner head name member => ?_
      obtain ⟨pair, there, rfl⟩ := List.mem_map.mp member
      generalize before.scopes = scopes at steady head
      cases steady with
      | cons own around =>
          cases head
          rw [own.1]
          exact known pair (among there)

/-- In a program text that can be compiled, the names that were found ahead for the top level and for
each function are those that its own statements declare. -/
theorem compile_declares_ahead {bytes : List UInt8} {limits : CompileLimits}
    {isKnownGlobal : String → Bool} {program : Program}
    (compiled : compile bytes limits isKnownGlobal = .ok program) :
    let tree := UnitTree.ofTokens limits.maxExprDepth (TokenStream.ofBytes bytes)
    tree.declared = Stmt.namesOfAll tree.body ∧
      ∀ definition ∈ Stmt.definitionsOfAll tree.body, definition.IsSettled := by
  intro tree
  obtain ⟨done, leads, -⟩ := leads_of_compile compiled
  obtain ⟨named, -, ended, body, -⟩ := Compiling.leads_unit leads
  obtain ⟨declared, agree⟩ :=
    UnitTree.declared_ofTokens fun error => Compiling.not_mem_broken body
  exact ⟨declared, fun ⟨_, _, _, _⟩ member => Definition.isSettled (agree _ member)⟩

/-- A function with an assignment in front of the declaration, behind an inner function that declares
a name of its own. -/
def assigningAheadText : List UInt8 := "(def(){y=x;var x=def(){var z},y})".toUTF8.toList

/-- Its program: the first statement of the function stores into the second slot. -/
def assigningAheadProgram : Program where
  numbers := #[]
  strings := #[]
  functions :=
    #[⟨1, 0, 1, false, #[9, 1, 0, 17, 0, 0, 13, 16, 0, 0, 56]⟩,
      ⟨2, 0, 1, false, #[16, 0, 0, 17, 1, 0, 13, 9, 2, 0, 17, 0, 0, 13, 57]⟩,
      ⟨1, 0, 0, false, #[57]⟩]

theorem compile_declares_ahead_assigning :
    compile assigningAheadText {} (fun _ => false) = .ok assigningAheadProgram ∧
      let tree := UnitTree.ofTokens 48 (TokenStream.ofBytes assigningAheadText)
      tree.declared = Stmt.namesOfAll tree.body ∧
        ∀ definition ∈ Stmt.definitionsOfAll tree.body, definition.IsSettled := by
  have compiled : compile assigningAheadText {} (fun _ => false) = .ok assigningAheadProgram := by
    rw [compile, TokenStream.ofBytes, @Lexer.tokensFrom_eq_within 34 _ _ _ (by cbv)]
    cbv
  exact ⟨compiled, compile_declares_ahead compiled⟩

end PocketScript
