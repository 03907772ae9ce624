import PocketScript.Proofs.Compile.Orderly
import PocketScript.Proofs.Compile.Spelled

/-!
# Whatever compiles says about variables what its text says

The slots of a function are the variables of its text: the parameters first, then what is declared
anywhere in its body (`Catalog.Owns`). A definition leaves behind code for its own body and an
instruction or two for the function around, which push the variables that it captures
(`Compilation.tells_closed`). So, by induction on the tree, the mentions in a text are the accesses in its
code (`compile_catalogued`).
-/

namespace PocketScript

namespace Compilation

open Compiling

variable {context : CompileContext} {around : List (List String)} {survey : Survey}
  {before after state named ready ended : Compilation} {scope : FunctionScope} {outer : Scopes}
  {span : Span} {params declared : List (String × Span)} {body : List Stmt}

/-! ## The variables of a function -/

/-- The parameters get the first slots, each its own. -/
theorem declareParams_eq {names : List (String × Span)}
    (leads : Leads context (declareParams names) before () after)
    (listed : before.scopes = scope :: outer) (proper : scope.Proper)
    (nodup : scope.slots.toList.Nodup) (only : scope.argCount.toNat = scope.slots.size) :
    ∃ scope', after = { before with scopes := scope' :: outer } ∧ scope'.Proper ∧
      scope'.slots.toList.Nodup ∧ scope'.argCount.toNat = scope'.slots.size ∧
        scope'.slots.toList = scope.slots.toList ++ names.map (·.1) ∧
          scope'.captures = scope.captures := by
  induction names generalizing before scope with
  | nil =>
      obtain ⟨-, rfl⟩ := leads_pure.mp leads
      exact ⟨scope, by rw [← listed], proper, nodup, only, (List.append_nil _).symm, rfl⟩
  | cons first rest ih =>
      rw [declareParams] at leads
      obtain ⟨_, _, got, leads⟩ := leads_bind.mp leads
      obtain ⟨rfl, rfl⟩ := leads_get.mp got
      simp only [listed, slotLimit, leads_bind, leads_read, leads_pure, leads_orComplain,
        leads_modify] at leads
      obtain ⟨_, _, ⟨_, _, ⟨rfl, rfl⟩, rfl, rfl⟩, ⟨_, scope'⟩, _, ⟨given, rfl⟩, _, _, rfl, leads⟩ := leads
      obtain ⟨proper', -, captures, -⟩ := FunctionScope.declareParameter_widens proper given
      obtain ⟨missing, rfl⟩ := FunctionScope.declareParameter_cases given
      have fresh : first.1 ∉ scope.slots.toList := fun member =>
        FunctionScope.find?_eq_none.mp missing (Array.mem_def.mpr member)
      have small := proper'.small
      rw [Array.size_push] at small
      obtain ⟨last, same, proper'', nodup', only', slots, captures'⟩ := ih leads rfl proper' (by
        rw [Array.toList_push]
        exact List.nodup_append.mpr ⟨nodup, List.pairwise_singleton _ _, fun one member other new same =>
          fresh (List.mem_singleton.mp new ▸ same ▸ member)⟩) (by
        rw [Array.size_push, UInt16.toNat_add, only]
        exact Nat.mod_eq_of_lt (show scope.slots.size + 1 < 65536 by omega))
      refine ⟨last, same, proper'', nodup', only', ?_, captures'.trans captures⟩
      rw [slots, Array.toList_push, List.append_assoc]
      rfl

/-- The declared names get slots behind the parameters, unless they have one. -/
theorem declareAhead_eq {names : List (String × Span)}
    (leads : Leads context (declareAhead names) before () after)
    (listed : before.scopes = scope :: outer) (proper : scope.Proper)
    (nodup : scope.slots.toList.Nodup) :
    ∃ scope', after = { before with scopes := scope' :: outer } ∧ scope'.Proper ∧
      scope'.slots.toList.Nodup ∧ scope'.argCount = scope.argCount ∧
        (∃ more, scope'.slots.toList = scope.slots.toList ++ more) ∧
          (∀ name, name ∈ scope'.slots ↔ name ∈ scope.slots ∨ name ∈ names.map (·.1)) ∧
            scope'.captures = scope.captures := by
  induction names generalizing before scope with
  | nil =>
      obtain ⟨-, rfl⟩ := leads_pure.mp leads
      exact ⟨scope, by rw [← listed], proper, nodup, rfl, ⟨[], (List.append_nil _).symm⟩,
        fun name => by simp, rfl⟩
  | cons first rest ih =>
      rw [declareAhead] at leads
      obtain ⟨middle, placed, leads⟩ := leads_seq.mp leads
      obtain ⟨slot, placed⟩ := leads_discard.mp placed
      have found := leads_declareSlot.mp placed
      rw [listed] at found
      obtain ⟨scope', given, rfl⟩ := found
      obtain ⟨proper', -, -, captures, -⟩ := FunctionScope.declare_widens proper given
      obtain ⟨there, rfl⟩ | ⟨missing, rfl⟩ := FunctionScope.declare_cases given
      · obtain ⟨last, same, rest'⟩ := ih leads rfl proper' nodup
        obtain ⟨proper'', nodup', args, more, mem, captures'⟩ := rest'
        refine ⟨last, same, proper'', nodup', args, more, fun name => ?_, captures'⟩
        rw [mem, List.map_cons, List.mem_cons]
        constructor
        · exact Or.imp_right .inr
        · rintro (old | rfl | new)
          · exact .inl old
          · exact .inl there
          · exact .inr new
      · have fresh : first.1 ∉ scope.slots.toList := fun member =>
          FunctionScope.find?_eq_none.mp missing (Array.mem_def.mpr member)
        obtain ⟨last, same, proper'', nodup', args, ⟨more, slots⟩, mem, captures'⟩ :=
          ih leads rfl proper' (by
            rw [Array.toList_push]
            exact List.nodup_append.mpr ⟨nodup, List.pairwise_singleton _ _,
              fun one member other new same => fresh (List.mem_singleton.mp new ▸ same ▸ member)⟩)
        refine ⟨last, same, proper'', nodup', args, ⟨first.1 :: more, ?_⟩, fun name => ?_, captures'⟩
        · rw [slots, Array.toList_push, List.append_assoc]
          rfl
        · rw [mem, Array.mem_push, List.map_cons, List.mem_cons, or_assoc]

/-- When the body of a function starts, its variables have their slots. -/
theorem ready_eq (first : Leads context (declareParams params) before.opened () named)
    (ahead : Leads context (declareAhead (Stmt.namesOfAll body)) named () ready) :
    ∃ scope, ready = { before.opened with scopes := scope :: before.scopes } ∧
      scope.Lists (Definition.mk span params declared body).names ∧ scope.captures = #[] ∧
        scope.slots.toList.take scope.argCount.toNat = params.map (·.1) ∧
          scope.argCount.toNat ≤ scope.slots.size := by
  obtain ⟨scope, rfl, proper, nodup, only, slots, captures⟩ :=
    declareParams_eq first rfl ⟨rfl, Nat.zero_le _, Nat.le_refl _⟩ List.nodup_nil rfl
  obtain ⟨scope', rfl, proper', nodup', args, ⟨more, slots'⟩, mem, captures'⟩ :=
    declareAhead_eq ahead rfl proper nodup
  have names : scope.slots.toList = params.map (·.1) := slots
  refine ⟨scope', rfl, ⟨proper'.small, nodup', fun name => ?_⟩, captures'.trans captures, ?_,
    proper'.args⟩
  · rw [mem, Definition.names, List.mem_append, ← names]
    exact or_congr_left Array.mem_toList_iff.symm
  · rw [slots', args, only, ← Array.length_toList, List.take_left, names]

/-! ## Completed functions -/

/-- What a function captures is pushed, and nothing else happens. -/
theorem pushed_captures (state : Compilation) (sources : List CaptureSource) :
    (state.pushCaptures sources).assembler.pending.toList =
        state.assembler.pending.toList ++ sources.map pushing ∧
      (state.pushCaptures sources).scopes = state.scopes ∧
        (state.pushCaptures sources).functions = state.functions ∧
          (state.pushCaptures sources).strings = state.strings := by
  rw [pushCaptures_eq]
  induction sources generalizing state with
  | nil => exact ⟨(List.append_nil _).symm, rfl, rfl, rfl⟩
  | cons source rest ih =>
      obtain ⟨pending, others⟩ := ih (state.assembling (·.push (pushing source)))
      refine ⟨?_, others⟩
      rw [List.foldl_cons, pending, List.map_cons, List.append_cons]
      exact congrArg (· ++ _) Array.toList_push

theorem role_pushing (source : CaptureSource) : (pushing source).role = .gather source := by
  cases source <;> rfl

/-- The code that creates the value of a function with a place in the table. -/
def creating (index : Nat) (captures : Array CaptureSource) : List PendingInstruction :=
  if captures.isEmpty then [⟨.pushFunction, UInt16.ofNat index, 0, none⟩]
  else captures.toList.map pushing ++
    [⟨.makeClosure, UInt16.ofNat index, UInt16.ofNat captures.size, none⟩]

theorem size_le_creating (index : Nat) (captures : Array CaptureSource) :
    captures.size ≤ (creating index captures).length := by
  unfold creating
  split
  · rename_i none
    rw [Array.isEmpty_iff.mp none]
    exact Nat.zero_le _
  · rw [List.length_append, List.length_map, Array.length_toList]
    exact Nat.le_add_right _ _

/-- A function is completed, and its value is created in the code around it. -/
theorem closed_eq {outer : Compilation}
    (leads : Leads context (closeFunction span outer.functions.size outer.assembler outer.loops) state
      () after) :
    ∃ function, state.assembler.finish state.scope.slots.size state.scope.argCount state.scope.captured
        (!state.scope.captures.isEmpty) = .ok function ∧
      after.assembler.pending.toList = outer.assembler.pending.toList ++
        creating outer.functions.size state.scope.captures ∧
        after.scopes = state.scopes.tail ∧ after.strings = state.strings ∧
          after.functions = state.functions.setIfInBounds outer.functions.size function := by
  obtain ⟨function, finished, same⟩ := leads_closeFunction.mp leads
  refine ⟨function, finished, ?_⟩
  unfold creating
  obtain ⟨pending, scopes, functions, strings⟩ :=
    pushed_captures (state.closed outer function) state.scope.captures.toList
  split at same
  · subst same
    rw [if_pos ‹_›]
    exact ⟨Array.toList_push, rfl, rfl, rfl⟩
  · subst same
    rw [if_neg ‹_›, ← List.append_assoc]
    refine ⟨Array.toList_push.trans (congrArg (· ++ _) pending), scopes, strings, functions⟩

/-- Creating a function value accesses no variables; a closure captures those of its captures. -/
theorem spells_creating {catalog : Catalog} {final : Scopes} {index : Nat} (few : index ≤ 65535)
    (small : scope.captures.size ≤ 65535) (steady : Scopes.Steady outer final)
    (sheet : catalog.sheet index = Scopes.sheet (scope :: outer))
    (tail : (catalog.outline index).scopes.tail = around) :
    catalog.Spells final.sheet around ((creating index scope.captures).map (·.role)) [] := by
  unfold creating
  split
  · exact .aside .nil
  · rw [List.map_append, List.map_map, show PendingInstruction.role ∘ pushing = Role.gather from
      funext role_pushing]
    have place := toNat_ofNat_of_le few
    refine .closure _ _ _ ?_ (place.symm ▸ tail) (fun at_ source name there named => ?_) .nil
    · exact toNat_ofNat_of_le small
    · rw [place, sheet] at named
      simp only [Scopes.sheet, List.getElem?_map, there, Option.map_some, Option.some.injEq] at named
      exact steady.refines.name? named

theorem isProper_of_bodyAt {assembler : Assembler} {flow : Flow}
    (at_ : (CompleteCode.plain assembler).BodyAt body flow) :
    ∀ instr ∈ assembler.pending.toList, instr.IsProper := by
  obtain ⟨last, final, size, -, -, sound⟩ := at_.sound
  intro instr member
  obtain ⟨index, found⟩ := List.getElem?_of_mem member
  rw [Array.getElem?_toList] at found
  obtain ⟨inside, -⟩ := Array.getElem?_eq_some_iff.mp found
  obtain ⟨other, found', sound⟩ := sound index (Nat.zero_le _) (size ▸ inside)
  cases found.symm.trans found'
  exact sound.proper

/-- The instructions of a function with a body are proper. -/
theorem isProper_of_parts (first : Leads context (declareParams params) before.opened () named)
    (ahead : Leads context (declareAhead declared) named () ready)
    (inner : Leads context (stmts body) ready () ended)
    (small : (ended.emit .retUndefined).assembler.pending.size ≤ 65535) :
    ∀ instr ∈ (ended.emit .retUndefined).assembler.pending.toList, instr.IsProper := by
  obtain ⟨flow, at_⟩ := bodyAt_of_parts first ahead (shape_stmts body inner) small
  exact isProper_of_bodyAt at_

/-- What ends with a catalog behind a completed function ends with it at the end of the function's
body. -/
theorem EndsWith.within {catalog : Catalog} {final : Scopes} {entry : Outline × Sheet}
    {entries : List (Outline × Sheet)} (ends : EndsWith before after (entry :: entries) catalog final)
    (opened : ready.functions.size = before.functions.size + 1) (listed : ended.scopes = scope :: outer)
    (few : scope.captures.size ≤ 65535) (small : ended.size ≤ 65535) (scopes : after.scopes = outer)
    (strings : after.strings = ended.strings) :
    EndsWith ready ended entries catalog ended.scopes := by
  have steady := ends.steady
  rw [scopes] at steady
  refine ⟨.refl _, listed ▸ List.forall_mem_cons.mpr
    ⟨Nat.le_succ_of_le few, steady.numbered ends.numbered⟩, small,
    fun index text found => ends.strings index text (strings ▸ found),
    fun index outline sheet found => ?_⟩
  rw [opened, Nat.add_assoc, Nat.add_comm 1 index]
  exact ends.entries (index + 1) outline sheet found

/-- A completed function accesses the variables that its text mentions, and has its own in its slots. -/
theorem says_closed {catalog : Catalog} {function : FunctionDef} {scope' : FunctionScope} {isClosure : Bool}
    {index : Nat} {names : List String} {mentions : List Mention} (own : scope.Lists names)
    (steady : scope.Steady scope') (argCount : scope'.argCount = scope.argCount)
    (outline : catalog.outline index =
      ⟨names :: around, scope.slots.toList.take scope.argCount.toNat, mentions⟩)
    (sheet : catalog.sheet index = Scopes.sheet (scope' :: outer))
    (finished : state.assembler.finish scope'.slots.size scope'.argCount scope'.captured isClosure =
      .ok function)
    (isProper : ∀ instr ∈ state.assembler.pending.toList, instr.IsProper)
    (spells : catalog.Spells (Scopes.sheet (scope' :: outer)) (names :: around)
      (state.assembler.pending.toList.map (·.role)) mentions) :
    catalog.Codes index function ∧ catalog.Owns index function := by
  have slots : (Scopes.sheet (scope' :: outer)).slots = scope.slots.toList :=
    congrArg Array.toList steady.1
  obtain ⟨-, -, made⟩ := Assembler.finish_eq_ok finished
  have given : function.argCount = scope'.argCount := by rw [made]
  have counted : function.varCount = UInt16.ofNat scope'.slots.size := by rw [made]
  refine ⟨⟨_, _, _, _, given ▸ finished, isProper, by rwa [outline, sheet]⟩, ?_, ?_, ?_, ?_⟩
  · rw [sheet, slots, counted, steady.1]
    exact toNat_ofNat_of_le own.few
  · rw [sheet, slots]
    exact own.nodup
  · refine ⟨_, _, by rw [outline], fun name => ?_⟩
    rw [sheet, slots, Array.mem_toList_iff]
    exact own.mem name
  · rw [outline, sheet, slots, given, argCount]

/-- A function that is completed says what its text says, and has its variables in its slots. -/
theorem tells_closed (few : before.functions.size ≤ 65535) (lists : before.scopes.Lists around)
    (first : Leads context (declareParams params) before.opened () named)
    (ahead : Leads context (declareAhead (Stmt.namesOfAll body)) named () ready)
    (leads : Leads context (stmts body) ready () ended)
    (inner : ∀ scopes, ready.scopes.Lists scopes → scopes =
      (Definition.mk span params (Stmt.namesOfAll body) body).names :: around →
        Tells scopes (Stmt.surveyOfAll scopes body) ready ended)
    (closed : Leads context (closeFunction span before.functions.size before.assembler before.loops)
      (ended.emit .retUndefined) () after) :
    Tells around ((Definition.mk span params (Stmt.namesOfAll body) body).survey around) before
      after := by
  obtain ⟨scope, ready', own, noCaptures, args, argsFew⟩ :=
    @ready_eq _ _ _ _ span params (Stmt.namesOfAll body) body first ahead
  have isProper := isProper_of_parts first ahead leads
  subst ready'
  generalize scopesEq : (Definition.mk span params (Stmt.namesOfAll body) body).names :: around = scopes
    at inner
  obtain ⟨code, entries, spelled⟩ := inner scopes (scopesEq ▸ .cons own lists) rfl
  obtain ⟨function, finished, pending, scopes', strings, functions⟩ := closed_eq closed
  change after.functions = ended.functions.setIfInBounds _ function at functions
  have small := Assembler.pending_size_le finished
  -- The function as it is when its body has been compiled.
  obtain ⟨scope', outer, listed, head, tail⟩ : ∃ scope' outer, ended.scopes = scope' :: outer ∧
      scope.Steady scope' ∧ Scopes.Steady before.scopes outer := by
    have steady := spelled.steady
    generalize ended.scopes = scopes at steady
    cases steady with
    | cons head tail => exact ⟨_, _, rfl, head, tail⟩
  have counts := spelled.argCounts
  rw [listed] at counts
  obtain ⟨argCount, argCounts⟩ := List.cons_eq_cons.mp counts
  change scope'.argCount = scope.argCount at argCount
  have innermost : (ended.emit .retUndefined).scope = scope' := congrArg (·.headD {}) listed
  have outermost : (ended.emit .retUndefined).scopes.tail = outer := congrArg List.tail listed
  have opened : before.opened.functions.size = before.functions.size + 1 := Array.size_push _
  rw [innermost] at finished pending
  have inside : before.functions.size < ended.functions.size := by
    rw [spelled.count]
    change before.functions.size < before.opened.functions.size + _
    omega
  have others {index : Nat} (other : index ≠ before.functions.size) :
      after.functions[index]? = ended.functions[index]? := by
    rw [functions]
    exact Array.getElem?_setIfInBounds_ne (Ne.symm other)
  refine ⟨_, (⟨scopes, params.map (·.1), (Stmt.surveyOfAll scopes body).mentions⟩,
      Scopes.sheet (scope' :: outer)) :: entries, ?steady, ?argCounts, pending, ?kept, ?strings,
    ?outlines, ?count, fun catalog final ends => ?spells, fun catalog final ends => ?functions⟩
  case steady => rwa [scopes', outermost]
  case argCounts =>
    rw [scopes', outermost]
    exact argCounts
  case kept =>
    intro index other found
    obtain ⟨bound, same⟩ := Array.getElem?_eq_some_iff.mp found
    rw [others (Nat.ne_of_lt bound)]
    refine spelled.kept index other ?_
    change (before.functions.push default)[index]? = _
    rw [Array.getElem?_push_lt bound, same]
  case strings =>
    intro index text found
    rw [strings]
    exact spelled.strings index text found
  case outlines =>
    rw [List.map_cons, spelled.outlines, Definition.survey, scopesEq]
  case count =>
    rw [functions, Array.size_setIfInBounds, List.length_cons]
    rw [spelled.count]
    change before.opened.functions.size + _ = _
    omega
  all_goals
    obtain ⟨outline, sheet⟩ := ends.entries 0 _ _ rfl
    rw [Nat.add_zero] at outline sheet
    have fits : scope'.captures.size ≤ 65535 := by
      have size := congrArg List.length pending
      rw [List.length_append, Array.length_toList, Array.length_toList] at size
      have total : after.assembler.pending.size ≤ 65535 := ends.small
      have pushes := size_le_creating before.functions.size scope'.captures
      omega
  case spells =>
    have grown := ends.steady
    rw [scopes', outermost] at grown
    exact spells_creating few fits grown sheet (by rw [outline, ← scopesEq]; rfl)
  case functions =>
    intro index other new found
    have short : ended.size ≤ 65535 := by
      change (ended.emit .retUndefined).size ≤ 65535 at small
      rw [size_emit] at small
      omega
    have innerEnds : EndsWith { before.opened with scopes := scope :: before.scopes } ended entries
        catalog ended.scopes :=
      ends.within opened listed fits short (scopes'.trans outermost) strings
    by_cases here : index = before.functions.size
    · subst here
      rw [functions, Array.getElem?_setIfInBounds_self_of_lt inside] at found
      cases found
      refine says_closed own head argCount (by rw [outline, ← scopesEq, args]) sheet finished
        (isProper small) ?_
      have spells := spelled.spells catalog ended.scopes innerEnds
      rw [listed] at spells
      have both := spells.append (Catalog.Spells.aside .nil)
      rw [List.append_nil, ← scopesEq] at both
      change catalog.Spells _ _ ((ended.assembler.pending.push _).toList.map _) _
      rw [Array.toList_push, List.map_append, spelled.pending]
      exact both
    · rw [others here] at found
      exact spelled.functions catalog ended.scopes innerEnds index other (by
        change before.opened.functions.size ≤ index
        omega) found

/-- String constants keep their indices. -/
theorem Tells.strings (tells : Tells around survey before after) :
    ∀ (index : Nat) text, before.strings.items[index]? = some text →
      after.strings.items[index]? = some text :=
  tells.elim fun _ ⟨_, spelled⟩ => spelled.strings

/-- A value goes to the variable of a name: into the slot that the name denotes, or to the global that
the string constant names. -/
def Writes (state : Compilation) (around : List (List String)) (name : String) : Sink → Prop
  | .drop => False
  | .slot slot => Denotes state.scopes around name (.slot slot)
  | .global index => around = [] ∧ state.strings.items[index.toNat]? = some name

/-- It still does later. -/
theorem Tells.writes (tells : Tells around survey before after) {name : String} {sink : Sink}
    (writes : before.Writes around name sink) : after.Writes around name sink := by
  cases sink with
  | drop => exact writes
  | slot slot =>
      have denotes : Denotes before.scopes around name (.slot slot) := writes
      exact denotes.mono tells.steady
  | global index => exact ⟨writes.1, tells.strings _ _ writes.2⟩

theorem Tells.sinking (tells : Tells around survey before after) {name : String} {sink : Sink}
    (writes : after.Writes around name sink) :
    Tells around (survey ++ .of (.write name)) before (after.sinking sink) := by
  cases sink with
  | drop => exact writes.elim
  | slot slot => exact tells.keep writes
  | global index => exact tells.define writes.1 writes.2

theorem tells_placed {name : String} {span : Span} {sink : Sink} {placed : Compilation}
    (places : Placed context name span before sink placed)
    (known : ∀ own ∈ around.head?, name ∈ own) (lists : before.scopes.Lists around) :
    Tells around {} before placed ∧ placed.Writes around name sink := by
  cases places with
  | global topLevel noted =>
      obtain ⟨strings, added, rfl⟩ := leads_addString.mp noted
      rw [topLevel] at lists
      cases lists
      exact ⟨((Tells.refl before).addString added).addGlobal name, rfl, (items_add added).1⟩
  | slot inside declared =>
      obtain ⟨rfl, denotes⟩ := declareSlot_known declared inside lists known
      exact ⟨.refl _, denotes⟩

end Compilation

namespace Compiling

open Compilation

variable {context : CompileContext}

/-- The nearest function around owns variables of the names, unless there is none. -/
def Knows (around : List (List String)) (names : List (String × Span)) : Prop :=
  ∀ own ∈ around.head?, ∀ name ∈ names, name.1 ∈ own

theorem knows_append {around : List (List String)} {one two : List (String × Span)} :
    Knows around (one ++ two) ↔ Knows around one ∧ Knows around two := by
  constructor
  · exact fun knows => ⟨fun own first name member => knows own first name (List.mem_append_left _ member),
      fun own first name member => knows own first name (List.mem_append_right _ member)⟩
  · exact fun knows own first name member => (List.mem_append.mp member).elim (knows.1 own first name)
      (knows.2 own first name)

mutual

/-- The code of an expression tells of the names in it. -/
theorem tells_expr : ∀ (tree : Expr) {around : List (List String)} {before after : Compilation},
    Leads context (expr tree) before () after → Agree tree.definitions →
      before.scopes.Lists around → Tells around (tree.survey around) before after
  | .literal value, around, before, after, leads, agree, lists => by
      obtain rfl := leads_literal.mp leads
      cases value <;> exact (Tells.refl before).emit _
  | .number value span, around, before, after, leads, agree, lists => by
      rw [expr] at leads
      have loaded := leads_number.mp leads
      split at loaded
      · subst loaded
        exact (Tells.refl before).emit _
      · split at loaded
        · subst loaded
          exact (Tells.refl before).emit _ _
        · obtain ⟨index, numbers, added, rfl⟩ := loaded
          exact ((Tells.refl before).addNumber numbers).emit .pushNumber index
  | .string value span, around, before, after, leads, agree, lists => by
      rw [expr] at leads
      obtain ⟨index, strings, added, rfl⟩ := leads_string.mp leads
      exact ((Tells.refl before).addString added).emit _ _
  | .name ident span, around, before, after, leads, agree, lists => by
      obtain ⟨place, middle, resolved, loaded⟩ := leads_name.mp leads
      obtain ⟨one, denotes⟩ := tells_resolve resolved lists
      exact one.trans (tells_load loaded denotes)
  | .unary op operand, around, before, after, leads, agree, lists => by
      obtain ⟨middle, inner, rfl⟩ := leads_unary.mp leads
      exact (tells_expr operand inner agree lists).emit _ _ _ (by cases op <;> rfl)
  | .binary op left right, around, before, after, leads, agree, lists => by
      obtain ⟨first, one, second, two, rfl⟩ := leads_binary.mp leads
      obtain ⟨agreeLeft, agreeRight⟩ := agree_append.mp agree
      have one := tells_expr left one agreeLeft lists
      have two := tells_expr right two agreeRight (one.lists lists)
      exact (one.trans two).emit _ _ _ (by cases op <;> rfl)
  | .logical op left right, around, before, after, leads, agree, lists => by
      obtain ⟨first, one, second, two, rfl⟩ := leads_logical.mp leads
      obtain ⟨agreeLeft, agreeRight⟩ := agree_append.mp agree
      have one := (tells_expr left one agreeLeft lists).addLabel.emitJump op.jump first.nextLabel
        (by cases op <;> rfl)
      exact (one.trans (tells_expr right two agreeRight (one.lists lists))).placeLabel _
  | .conditional condition whenTrue whenFalse, around, before, after, leads, agree, lists => by
      obtain ⟨tested, one, first, two, second, three, rfl⟩ := leads_conditional.mp leads
      obtain ⟨agreeOne, agreeRest⟩ := agree_append.mp agree
      obtain ⟨agreeTwo, agreeThree⟩ := agree_append.mp agreeRest
      have one := (tells_expr condition one agreeOne lists).addLabel.addLabel.emitJump .jumpIfFalse
        tested.nextLabel
      have two := (((tells_expr whenTrue two agreeTwo (one.lists lists)).emitJump .jump
        tested.addLabel.nextLabel).placeLabel tested.nextLabel).setDepth
          (forked tested).assembler.depth
      have three := tells_expr whenFalse three agreeThree (two.lists (one.lists lists))
      exact (one.trans (two.trans three)).placeLabel _
  | .assignName ident span none value, around, before, after, leads, agree, lists => by
      obtain ⟨place, first, resolved, second, inner, stored⟩ := leads_assignName.mp leads
      obtain ⟨one, denotes⟩ := tells_resolve resolved lists
      have two := tells_expr value inner agree (one.lists lists)
      exact (one.trans two).trans (tells_store stored (denotes.mono two.steady))
  | .assignName ident span (some op) value, around, before, after, leads, agree, lists => by
      obtain ⟨place, first, resolved, loaded, read, second, inner, stored⟩ :=
        leads_updateName.mp leads
      obtain ⟨one, denotes⟩ := tells_resolve resolved lists
      have two := tells_load read denotes
      have three := (tells_expr value inner agree (two.lists (one.lists lists))).emit op.opcode 0 0
        (by cases op <;> rfl)
      have known := denotes.mono (two.steady.trans three.steady)
      exact (one.trans two).trans (three.trans (tells_store stored known))
  | .assignElement container key none value, around, before, after, leads, agree, lists => by
      obtain ⟨first, one, second, two, third, three, rfl⟩ := leads_assignElement.mp leads
      obtain ⟨agreeOne, agreeRest⟩ := agree_append.mp agree
      obtain ⟨agreeTwo, agreeThree⟩ := agree_append.mp agreeRest
      have one := tells_expr container one agreeOne lists
      have two := tells_expr key two agreeTwo (one.lists lists)
      have three := tells_expr value three agreeThree (two.lists (one.lists lists))
      exact (one.trans (two.trans three)).emit _
  | .assignElement container key (some op) value, around, before, after, leads, agree, lists => by
      obtain ⟨first, one, second, two, third, three, rfl⟩ := leads_updateElement.mp leads
      obtain ⟨agreeOne, agreeRest⟩ := agree_append.mp agree
      obtain ⟨agreeTwo, agreeThree⟩ := agree_append.mp agreeRest
      have one := tells_expr container one agreeOne lists
      have two := ((tells_expr key two agreeTwo (one.lists lists)).emit .dup2).emit .getElem
      have three := (tells_expr value three agreeThree (two.lists (one.lists lists))).emit op.opcode 0 0
        (by cases op <;> rfl)
      exact (one.trans (two.trans three)).emit _
  | .element container key, around, before, after, leads, agree, lists => by
      obtain ⟨first, one, second, two, rfl⟩ := leads_element.mp leads
      obtain ⟨agreeOne, agreeTwo⟩ := agree_append.mp agree
      have one := tells_expr container one agreeOne lists
      exact (one.trans (tells_expr key two agreeTwo (one.lists lists))).emit _
  | .call callee args span, around, before, after, leads, agree, lists => by
      obtain ⟨first, one, second, rest, -, rfl⟩ := leads_call.mp leads
      obtain ⟨agreeOne, agreeRest⟩ := agree_append.mp agree
      have one := tells_expr callee one agreeOne lists
      exact (one.trans (tells_exprs args rest agreeRest (one.lists lists))).emit _ _
  | .array elements span, around, before, after, leads, agree, lists => by
      obtain ⟨middle, inner, few, rfl⟩ := leads_array.mp leads
      exact (tells_exprs elements inner agree lists).emit _ _
  | .object properties span, around, before, after, leads, agree, lists => by
      obtain ⟨middle, inner, few, rfl⟩ := leads_object.mp leads
      exact (tells_entries properties inner agree lists).emit _ _
  | .function body, around, before, after, leads, agree, lists =>
      tells_definition body (leads_function.mp leads) agree lists
  | .broken error, around, before, after, leads, agree, lists => absurd leads not_leads_broken

/-- And so does that of expressions in a row. -/
theorem tells_exprs : ∀ (trees : List Expr) {around : List (List String)}
    {before after : Compilation}, Leads context (exprs trees) before () after →
      Agree (Expr.definitionsOfAll trees) → before.scopes.Lists around →
        Tells around (Expr.surveyOfAll around trees) before after
  | [], around, before, after, leads, agree, lists => by
      obtain rfl := leads_exprs_nil.mp leads
      exact .refl before
  | first :: rest, around, before, after, leads, agree, lists => by
      obtain ⟨middle, one, more⟩ := leads_exprs_cons.mp leads
      obtain ⟨agreeOne, agreeRest⟩ := agree_append.mp agree
      have one := tells_expr first one agreeOne lists
      exact one.trans (tells_exprs rest more agreeRest (one.lists lists))

/-- That of properties tells of the names in their values. -/
theorem tells_entries : ∀ (trees : List Entry) {around : List (List String)}
    {before after : Compilation}, Leads context (entries trees) before () after →
      Agree (Entry.definitionsOfAll trees) → before.scopes.Lists around →
        Tells around (Entry.surveyOfAll around trees) before after
  | [], around, before, after, leads, agree, lists => by
      obtain rfl := leads_entries_nil.mp leads
      exact .refl before
  | .property key span value :: rest, around, before, after, leads, agree, lists => by
      obtain ⟨named, pushed, middle, one, more⟩ := leads_entries_cons.mp leads
      obtain ⟨index, strings, added, rfl⟩ := leads_string.mp pushed
      obtain ⟨agreeOne, agreeRest⟩ := agree_append.mp agree
      have zero := ((@Tells.refl around before).addString added).emit .pushString index
      have one := zero.trans (tells_expr value one agreeOne (zero.lists lists))
      exact one.trans (tells_entries rest more agreeRest (one.lists lists))
  | .broken error :: rest, around, before, after, leads, agree, lists => by
      rw [entries, leads_seq] at leads
      obtain ⟨middle, thrown, -⟩ := leads
      rw [entry] at thrown
      exact absurd thrown not_leads_throw

theorem tells_definition : ∀ (tree : Definition) {around : List (List String)}
    {before after : Compilation}, Leads context (definition tree) before () after →
      Agree tree.definitions → before.scopes.Lists around →
        Tells around (tree.survey around) before after
  | .mk span params declared body, around, before, after, leads, agree, lists => by
      obtain ⟨few, named, first, ready, ahead, ended, inner, closed⟩ := leads_definition.mp leads
      obtain ⟨agreeOne, agreeRest⟩ := List.forall_mem_cons.mp agree
      obtain rfl : declared = Stmt.namesOfAll body := agreeOne
      refine tells_closed few lists first ahead inner (fun scopes around same => ?_) closed
      refine tells_stmts body inner agreeRest (fun own there name member => ?_) around
      rw [same] at there
      cases there
      exact List.mem_append_right _ (List.mem_map_of_mem member)

theorem tells_declarator : ∀ (tree : Declarator) {around : List (List String)}
    {before after : Compilation}, Leads context (declarator tree) before () after →
      Agree tree.definitions → Knows around tree.names → before.scopes.Lists around →
        Tells around (tree.survey around) before after
  | .variable name span none, around, before, after, leads, agree, knows, lists => by
      obtain ⟨sink, placed, places, rfl⟩ := leads_variable_none leads
      obtain ⟨one, writes⟩ := tells_placed places
        (fun own first => knows own first _ List.mem_cons_self) lists
      cases places with
      | global =>
          obtain ⟨rfl, known⟩ := writes
          exact one.declareGlobal known
      | slot inside =>
          have nested : ¬ around.isEmpty = true := by
            rw [lists.isEmpty, List.isEmpty_iff]
            exact inside
          rw [Declarator.survey, if_neg nested]
          exact one
  | .variable name span (some value), around, before, after, leads, agree, knows, lists => by
      obtain ⟨sink, placed, valued, places, inner, rfl⟩ := leads_variable leads
      obtain ⟨one, writes⟩ := tells_placed places
        (fun own first => knows own first _ List.mem_cons_self) lists
      have two := tells_expr value inner agree (one.lists lists)
      exact (one.trans two).sinking (two.writes writes)
  | .broken error, around, before, after, leads, agree, knows, lists => by
      rw [declarator] at leads
      exact absurd leads not_leads_throw

theorem tells_declarators : ∀ (trees : List Declarator) {around : List (List String)}
    {before after : Compilation}, Leads context (declarators trees) before () after →
      Agree (Declarator.definitionsOfAll trees) → Knows around (trees.flatMap Declarator.names) →
        before.scopes.Lists around → Tells around (Declarator.surveyOfAll around trees) before after
  | [], around, before, after, leads, agree, knows, lists => by
      obtain rfl := leads_declarators_nil.mp leads
      exact .refl before
  | first :: rest, around, before, after, leads, agree, knows, lists => by
      obtain ⟨middle, one, more⟩ := leads_declarators_cons.mp leads
      obtain ⟨agreeOne, agreeRest⟩ := agree_append.mp agree
      obtain ⟨knowsOne, knowsRest⟩ := knows_append.mp knows
      have one := tells_declarator first one agreeOne knowsOne lists
      exact one.trans (tells_declarators rest more agreeRest knowsRest (one.lists lists))

/-- What a loop starts with is told of as well. -/
theorem tells_forStart : ∀ (tree : ForStart) {around : List (List String)}
    {before after : Compilation}, Leads context (forStart tree) before () after →
      Agree tree.definitions → Knows around tree.names → before.scopes.Lists around →
        Tells around (tree.survey around) before after
  | .nothing, around, before, after, leads, agree, knows, lists => by
      obtain rfl := leads_forStart_nothing.mp leads
      exact .refl before
  | .declare names, around, before, after, leads, agree, knows, lists =>
      tells_declarators names (leads_forStart_declare.mp leads) agree knows lists
  | .evaluate value, around, before, after, leads, agree, knows, lists => by
      obtain ⟨valued, inner, rfl⟩ := leads_forStart_evaluate.mp leads
      exact (tells_expr value inner agree lists).emit _

/-- And so is its test. -/
theorem tells_test : ∀ (tree : Option Expr) {around : List (List String)}
    {started tested : Compilation}, TestLeads context started tree tested →
      Agree (Expr.definitionsIfAny tree) → started.scopes.Lists around →
        Tells around (Expr.surveyIfAny around tree) started tested
  | none, around, started, tested, leads, agree, lists => by
      cases leads
      exact (Tells.refl started).addLabel.addLabel.placeLabel _
  | some condition, around, started, tested, leads, agree, lists => by
      cases leads with
      | some inner =>
          have zero := (@Tells.refl around started).addLabel.addLabel.placeLabel started.nextLabel
          exact (zero.trans (tells_expr condition inner agree (zero.lists lists))).emitJump _ _

/-- And so is its step. -/
theorem tells_step : ∀ (tree : Option Expr) {around : List (List String)}
    {started tested stepped : Compilation} {next : Label},
      StepLeads context started tested tree next stepped →
        Agree (Expr.definitionsIfAny tree) → tested.scopes.Lists around →
          Tells around (Expr.surveyIfAny around tree) tested stepped
  | none, around, started, tested, stepped, next, leads, agree, lists => by
      cases leads
      exact .refl _
  | some step, around, started, tested, stepped, next, leads, agree, lists => by
      cases leads with
      | some inner =>
          have zero := ((@Tells.refl around tested).addLabel.addLabel.emitJump .jump
            tested.nextLabel).placeLabel tested.addLabel.nextLabel
          exact (((zero.trans (tells_expr step inner agree (zero.lists lists))).emit .pop).emitJump
            .jump started.nextLabel).placeLabel _

/-- The code of a statement tells of the names in it. -/
theorem tells_stmt : ∀ (tree : Stmt) {around : List (List String)} {before after : Compilation},
    Leads context (stmt tree) before () after → Agree tree.definitions → Knows around tree.names →
      before.scopes.Lists around → Tells around (tree.survey around) before after
  | .expression value, around, before, after, leads, agree, knows, lists => by
      obtain ⟨valued, inner, rfl⟩ := leads_expression leads
      have one := tells_expr value inner agree lists
      have empty := (one.lists lists).isEmpty
      rw [Stmt.survey, empty]
      split
      · rename_i topLevel
        refine (one.trans ?_).emit _
        exact .push fun catalog final _ _ _ =>
          .access (.storeResult (List.isEmpty_iff.mp (empty.trans topLevel))) .nil
      · rw [Survey.append_empty]
        exact one.emit _
  | .declare names, around, before, after, leads, agree, knows, lists =>
      tells_declarators names (leads_declare.mp leads) agree knows lists
  | .define name span body, around, before, after, leads, agree, knows, lists => by
      obtain ⟨sink, placed, valued, places, inner, rfl⟩ := leads_define leads
      obtain ⟨one, writes⟩ := tells_placed places
        (fun own first => knows own first _ List.mem_cons_self) lists
      have two := tells_definition body inner agree (one.lists lists)
      exact (one.trans two).sinking (two.writes writes)
  | .branch condition whenTrue none, around, before, after, leads, agree, knows, lists => by
      obtain ⟨tested, one, first, two, rfl⟩ := leads_branch.mp leads
      obtain ⟨agreeOne, agreeRest⟩ := agree_append.mp agree
      obtain ⟨agreeTwo, -⟩ := agree_append.mp agreeRest
      obtain ⟨knowsTwo, -⟩ := knows_append.mp knows
      have one := (tells_expr condition one agreeOne lists).addLabel.emitJump .jumpIfFalse
        tested.nextLabel
      have two := tells_stmt whenTrue two agreeTwo knowsTwo (one.lists lists)
      rw [Stmt.survey, Stmt.surveyIfAny, Survey.append_empty]
      exact (one.trans two).placeLabel _
  | .branch condition whenTrue (some whenFalse), around, before, after, leads, agree, knows, lists => by
      obtain ⟨tested, one, first, two, second, three, rfl⟩ := leads_branch_else.mp leads
      obtain ⟨agreeOne, agreeRest⟩ := agree_append.mp agree
      obtain ⟨agreeTwo, agreeThree⟩ := agree_append.mp agreeRest
      obtain ⟨knowsTwo, knowsThree⟩ := knows_append.mp knows
      have one := (tells_expr condition one agreeOne lists).addLabel.emitJump .jumpIfFalse
        tested.nextLabel
      have two := ((tells_stmt whenTrue two agreeTwo knowsTwo (one.lists lists)).addLabel.emitJump .jump
        first.nextLabel).placeLabel tested.nextLabel
      have three := tells_stmt whenFalse three agreeThree knowsThree (two.lists (one.lists lists))
      exact (one.trans (two.trans three)).placeLabel _
  | .whileLoop condition body, around, before, after, leads, agree, knows, lists => by
      obtain ⟨tested, one, repeated, two, rfl⟩ := leads_whileLoop.mp leads
      obtain ⟨agreeOne, agreeTwo⟩ := agree_append.mp agree
      have zero := (@Tells.refl around before).addLabel.addLabel.placeLabel before.nextLabel
      have one := ((zero.trans (tells_expr condition one agreeOne (zero.lists lists))).emitJump
        .jumpIfFalse (endLabel before)).entering ⟨endLabel before, before.nextLabel⟩
      have two := tells_stmt body two agreeTwo knows (one.lists lists)
      exact (((one.trans two).leaving tested).emitJump .jump before.nextLabel).placeLabel _
  | .forLoop begin test step body, around, before, after, leads, agree, knows, lists => by
      obtain ⟨started, zero, tested, one, next, stepped, two, repeated, three, rfl⟩ :=
        leads_forLoop leads
      obtain ⟨agreeZero, agreeRest⟩ := agree_append.mp agree
      obtain ⟨agreeOne, agreeRest⟩ := agree_append.mp agreeRest
      obtain ⟨agreeTwo, agreeThree⟩ := agree_append.mp agreeRest
      obtain ⟨knowsZero, knowsThree⟩ := knows_append.mp knows
      have zero := tells_forStart begin zero agreeZero knowsZero lists
      have lists := zero.lists lists
      have one := tells_test test one agreeOne lists
      have lists := one.lists lists
      have two := (tells_step step two agreeTwo lists).entering ⟨endLabel started, next⟩
      have three := tells_stmt body three agreeThree knowsThree (two.lists lists)
      exact (((zero.trans (one.trans (two.trans three))).leaving stepped).emitJump .jump
        next).placeLabel _
  | .breakLoop span, around, before, after, leads, agree, knows, lists => by
      obtain ⟨labels, outer, inside, rfl⟩ := leads_breakLoop.mp leads
      exact ((Tells.refl before).emitJump _ _).setDepth _
  | .continueLoop span, around, before, after, leads, agree, knows, lists => by
      obtain ⟨labels, outer, inside, rfl⟩ := leads_continueLoop.mp leads
      exact ((Tells.refl before).emitJump _ _).setDepth _
  | .return_ none, around, before, after, leads, agree, knows, lists => by
      obtain rfl := leads_return_undefined.mp leads
      exact ((Tells.refl before).emit _).setDepth _
  | .return_ (some value), around, before, after, leads, agree, knows, lists => by
      obtain ⟨valued, inner, rfl⟩ := leads_return.mp leads
      exact ((tells_expr value inner agree lists).emit _).setDepth _
  | .block body, around, before, after, leads, agree, knows, lists =>
      tells_stmts body (leads_block.mp leads) agree knows lists
  | .broken error, around, before, after, leads, agree, knows, lists => by
      rw [stmt] at leads
      exact absurd leads not_leads_throw

/-- And so does that of statements in a row. -/
theorem tells_stmts : ∀ (trees : List Stmt) {around : List (List String)}
    {before after : Compilation}, Leads context (stmts trees) before () after →
      Agree (Stmt.definitionsOfAll trees) → Knows around (Stmt.namesOfAll trees) →
        before.scopes.Lists around → Tells around (Stmt.surveyOfAll around trees) before after
  | [], around, before, after, leads, agree, knows, lists => by
      obtain rfl := leads_stmts_nil.mp leads
      exact .refl before
  | first :: rest, around, before, after, leads, agree, knows, lists => by
      obtain ⟨middle, one, more⟩ := leads_stmts_cons.mp leads
      obtain ⟨agreeOne, agreeRest⟩ := agree_append.mp agree
      obtain ⟨knowsOne, knowsRest⟩ := knows_append.mp knows
      have one := tells_stmt first one agreeOne knowsOne lists
      exact one.trans (tells_stmts rest more agreeRest knowsRest (one.lists lists))

end

/-- Globals are not told of before they are used. -/
theorem tells_addGlobals {names : List (String × Span)} {before after : Compilation}
    (leads : Leads context (addGlobals names) before () after) : Tells [] {} before after := by
  induction names generalizing before with
  | nil =>
      obtain ⟨-, rfl⟩ := leads_pure.mp leads
      exact .refl before
  | cons first rest ih =>
      rw [addGlobals] at leads
      obtain ⟨_, added, leads⟩ := leads_seq.mp leads
      obtain rfl := leads_modify.mp added
      exact ((Tells.refl before).addGlobal first.1).trans (ih leads)

end Compiling

/-- The functions of the program say about variables what some outlines say, the top level first, which
has no variables of its own. -/
structure Program.Catalogued (program : Program) (outlines : List Outline) (catalog : Catalog) :
    Prop where
  strings : catalog.strings = program.strings
  outline : ∀ (index : Nat) outline, outlines[index]? = some outline → catalog.outline index = outline
  count : program.functions.size = outlines.length
  codes : ∀ (index : Nat) function, program.functions[index]? = some function →
    catalog.Codes index function
  owns : ∀ (index : Nat) function, 0 < index → program.functions[index]? = some function →
    catalog.Owns index function
  main : (catalog.outline 0).scopes = [] ∧ catalog.sheet 0 = {}
  /-- The top level boxes nothing. -/
  unboxed : ∀ main (listing : Listing), program.functions[0]? = some main →
    main.code.disassemble = .ok listing → ∀ slot, ¬ listing.Boxes slot

namespace Compiling

open Compilation

variable {context : CompileContext}

/-- A compiled unit says about variables what its text says. -/
theorem catalogued_unit {tree : UnitTree} {after : Compilation}
    (agree : Agree (Stmt.definitionsOfAll tree.body)) (leads : Leads context (unit tree) .start () after) :
    ∃ catalog, Program.Catalogued ⟨after.numbers.items, after.strings.items, after.functions⟩
      tree.outlines catalog := by
  obtain ⟨origin, first, top, nothing, -, yields⟩ := yields_unit leads
  obtain ⟨named, globals, ended, body, main, finished, rfl⟩ := leads_unit leads
  have small := Assembler.pending_size_le finished
  obtain ⟨flow, at_⟩ := bodyAt_of_unit globals (shape_stmts tree.body body) small
  have zero := tells_addGlobals globals
  have lists : named.scopes.Lists [] := zero.lists .nil
  have one := zero.trans (tells_stmts tree.body body agree nofun lists)
  have result : Tells [] (.of .result) ended (ended.emit .loadLocal) :=
    .push fun _ _ _ _ _ => .access (.loadResult rfl) .nil
  obtain ⟨code, entries, spelled⟩ := (one.trans result).emit .ret
  obtain ⟨-, -, made⟩ := Assembler.finish_eq_ok finished
  have given : main.argCount = 0 := by rw [made]
  have noScopes : ((ended.emit .loadLocal).emit .ret).scopes = [] := by
    have steady := spelled.steady
    generalize ((ended.emit .loadLocal).emit .ret).scopes = scopes at steady
    cases steady
    rfl
  let survey := Stmt.surveyOfAll [] tree.body ++ Survey.of .result
  let all : List (Outline × Sheet) := ({ mentions := survey.mentions }, {}) :: entries
  have outlines : all.map (·.1) = tree.outlines := congrArg (_ :: ·) spelled.outlines
  let catalog : Catalog :=
    { strings := ended.strings.items
      outline := fun index => (all[index]?.map (·.1)).getD {}
      sheet := fun index => (all[index]?.map (·.2)).getD {} }
  have ends : EndsWith .start ((ended.emit .loadLocal).emit .ret) entries catalog [] := by
    refine ⟨noScopes ▸ .nil, fun _ member => absurd member List.not_mem_nil, small, fun _ _ => id,
      fun index outline sheet found => ?_⟩
    have there : all[1 + index]? = some (outline, sheet) := by
      rw [Nat.add_comm]
      exact found
    change (all[1 + index]?.map (·.1)).getD {} = outline ∧ (all[1 + index]?.map (·.2)).getD {} = sheet
    rw [there]
    exact ⟨rfl, rfl⟩
  have placed : (ended.functions.setIfInBounds 0 main)[0]? = some main := by
    refine Array.getElem?_setIfInBounds_self_of_lt ?_
    have count := spelled.count
    change ended.functions.size = 1 + _ at count
    omega
  have others {index : Nat} {function : FunctionDef} (other : 0 < index)
      (found : (ended.functions.setIfInBounds 0 main)[index]? = some function) :
      catalog.Codes index function ∧ catalog.Owns index function := by
    rw [Array.getElem?_setIfInBounds_ne (Nat.ne_of_lt other)] at found
    exact spelled.functions catalog [] ends index function other found
  refine ⟨catalog, rfl, fun index outline found => ?_, ?_, fun index function found => ?_,
    fun index function other found => (others other found).2, ⟨rfl, rfl⟩,
    fun main listing placed listed slot boxes => ?_⟩
  · rw [← outlines, List.getElem?_map] at found
    change (all[index]?.map (·.1)).getD {} = outline
    rw [found]
    rfl
  · change (ended.functions.setIfInBounds 0 main).size = _
    rw [← outlines, List.length_map, Array.size_setIfInBounds, List.length_cons, Nat.add_comm]
    exact spelled.count
  · obtain rfl | other := Nat.eq_zero_or_pos index
    · cases placed.symm.trans found
      have spells := spelled.spells catalog [] ends
      refine ⟨_, _, _, _, by rw [given]; exact finished, isProper_of_bodyAt at_, ?_⟩
      rw [spelled.pending]
      exact spells
    · exact (others other found).1
  · cases top.symm.trans placed
    cases listed.symm.trans yields.disassemble
    have captured := yields.boxes_iff.mp boxes
    rw [nothing] at captured
    cases captured

end Compiling

/-- Whatever compiles says about variables what its text says. -/
theorem compile_catalogued {bytes : List UInt8} {limits : CompileLimits}
    {isKnownGlobal : String → Bool} {program : Program}
    (compiled : compile bytes limits isKnownGlobal = .ok program) :
    ∃ catalog, program.Catalogued
      (UnitTree.ofTokens limits.maxExprDepth (TokenStream.ofBytes bytes)).outlines catalog := by
  obtain ⟨done, leads, rfl⟩ := leads_of_compile compiled
  obtain ⟨_, -, _, body, -⟩ := Compiling.leads_unit leads
  obtain ⟨-, agree⟩ := UnitTree.declared_ofTokens fun error => Compiling.not_mem_broken body
  exact Compiling.catalogued_unit agree leads

end PocketScript
