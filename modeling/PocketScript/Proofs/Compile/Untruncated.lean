import PocketScript.Proofs.Compile.Draft
import PocketScript.Proofs.Compile.Orderly
import PocketScript.Proofs.Compile.Texts

/-!
# No number is cut off

The compiler stores operands, indices and counts in 16 bits, in most places without a check. Still every
program that it completes is its draft (`compile_untruncated`): each number that was written is the index
or the count that it stands for, and a unit with a number that needs more bits is rejected.

Each step of the compiler does to its state what the step of the draft does to the state without bounds,
as long as the code and the captures of all functions stay within bounds (`Compiling.Drafts`). The bounds
are handed backwards: code and captures only grow, the code of a function is known to be small when the
function is completed, and the captures of a function are as few as the instructions that push them in
the code around it.
-/

namespace PocketScript

/-- An entered constant gets the index that it has in the table. -/
theorem ConstantTable.enter_of_add {α : Type} [BEq α] [LawfulBEq α] [Hashable α] {limit : Nat}
    {table after : ConstantTable α} {item : α} {index : UInt16}
    (added : table.add limit item = (some index, after)) :
    Draft.enter table.items item = (index.toNat, after.items) := by
  -- A constant stands at one place only.
  have unique : ∀ (place : Nat) (inside : place < table.items.size), table.items[place] = item →
      table.places[item]? = some (UInt16.ofNat place) := by
    intro place inside same
    have few := table.size_le
    rw [table.places_iff, toNat_ofNat_of_le (by omega), Array.getElem?_eq_getElem inside, same]
  unfold ConstantTable.add at added
  rw [Draft.enter]
  split at added
  · rename_i place found
    cases added
    obtain ⟨inside, same⟩ := Array.getElem?_eq_some_iff.mp ((table.places_iff item index).mp found)
    have first : table.items.findIdx? (· == item) = some index.toNat := by
      rw [Array.findIdx?_eq_some_iff_getElem]
      refine ⟨inside, beq_iff_eq.mpr same, fun earlier before equal => ?_⟩
      have few := table.size_le
      have there := unique earlier (by omega) (beq_iff_eq.mp equal)
      have place := congrArg UInt16.toNat (Option.some.inj (found.symm.trans there))
      rw [toNat_ofNat_of_le (by omega)] at place
      omega
    rw [first]
  · rename_i missing
    split at added
    · cases added
    · rename_i room
      cases added
      have none : table.items.findIdx? (· == item) = none := by
        rw [Array.findIdx?_eq_none_iff]
        intro other member
        obtain ⟨place, inside, same⟩ := Array.mem_iff_getElem.mp member
        by_contra equal
        rw [Bool.not_eq_false, beq_iff_eq] at equal
        have there := unique place inside (same.trans equal)
        rw [missing] at there
        cases there
      rw [none, toNat_ofNat_of_le (by omega)]

namespace Compilation

variable {before middle after state : Compilation}

/-- A state whose numbers have no bound. -/
def widened (state : Compilation) : Draft where
  scopes := Scopes.widened state.scopes
  code := state.assembler.widened
  loops := state.loops
  numbers := state.numbers.items
  strings := state.strings.items
  functions := state.functions.map FunctionDef.widened

/-- The code and the captures have 16 bits. -/
structure Bounded (state : Compilation) : Prop where
  code : state.size ≤ 65535
  captures : Scopes.Bounded state.scopes

end Compilation

namespace Compiling

variable {α β γ δ : Type}

/-- A step does what it would do without bounds, if its state is within bounds afterwards. -/
def Drafts (view : α → β) (step : Compiling α) (draft : Drafting β) : Prop :=
  ∀ context before result after, Leads context step before result after → before.scopes.Sane →
    after.scopes.Sane ∧
      (after.Bounded → before.Bounded ∧ draft.run before.widened = (view result, after.widened))

/-- Steps in a row do what their drafts do in a row. -/
theorem drafts_bind {view : α → β} {view' : γ → δ} {step : Compiling α} {next : α → Compiling γ}
    {draft : Drafting β} {next' : β → Drafting δ} (first : Drafts view step draft)
    (second : ∀ result, Drafts view' (next result) (next' (view result))) :
    Drafts view' (step >>= next) (draft >>= next') := by
  intro context before result after leads sane
  obtain ⟨between, middle, one, two⟩ := leads_bind.mp leads
  obtain ⟨saneBetween, one⟩ := first _ _ _ _ one sane
  obtain ⟨saneAfter, two⟩ := second _ _ _ _ _ two saneBetween
  refine ⟨saneAfter, fun bounded => ?_⟩
  obtain ⟨bounded, two⟩ := two bounded
  obtain ⟨bounded, one⟩ := one bounded
  refine ⟨bounded, ?_⟩
  rw [StateT.run_bind, one]
  exact two

/-- A step that leaves no trace in a draft. -/
theorem drafts_after {view : α → β} {step : Compiling Unit} {next : Compiling α}
    {draft : Drafting β} (first : Drafts id step (pure ())) (second : Drafts view next draft) :
    Drafts view (step >>= fun _ => next) draft := by
  have both : Drafts view (step >>= fun _ => next) (pure () >>= fun _ => draft) :=
    drafts_bind first fun _ => second
  exact both

theorem drafts_ite {condition : Prop} [Decidable condition] {view : α → β}
    {first second : Compiling α} {first' second' : Drafting β}
    (one : condition → Drafts view first first') (two : ¬ condition → Drafts view second second') :
    Drafts view (if condition then first else second) (if condition then first' else second') := by
  split
  · exact one ‹_›
  · exact two ‹_›

theorem drafts_throw (view : α → β) (error : CompileError) (draft : Drafting β) :
    Drafts view (throw error) draft :=
  fun _ _ _ _ leads => absurd leads not_leads_throw

theorem drafts_unless {condition : Prop} [Decidable condition] {view : α → β}
    {complaint : Complaint} {span : Span} {step : Compiling α} {draft : Drafting β}
    (goesOn : ¬ condition → Drafts view step draft) :
    Drafts view (if condition then complain complaint span else step) draft := by
  split
  · exact drafts_throw _ _ _
  · exact goesOn ‹_›

theorem drafts_pure (view : α → β) (result : α) : Drafts view (pure result) (pure (view result)) := by
  intro context before result' after leads sane
  obtain ⟨rfl, rfl⟩ := leads_pure.mp leads
  exact ⟨sane, fun bounded => ⟨bounded, rfl⟩⟩

theorem drafts_discard {view : α → β} {step : Compiling α} {draft : Drafting β}
    (drafts : Drafts view step draft) : Drafts id (discard step) (discard draft) := by
  have both : Drafts id (step >>= fun _ => pure ()) (draft >>= fun _ => pure ()) :=
    drafts_bind drafts fun _ => drafts_pure id ()
  exact both

/-! ## Code -/

theorem drafts_assemble (change : Assembler → Assembler) (drafted : Draft.Code → Draft.Code)
    (same : ∀ assembler, (change assembler).widened = drafted assembler.widened)
    (grows : ∀ assembler : Assembler, assembler.pending.size ≤ (change assembler).pending.size) :
    Drafts id (assemble change) (Draft.assemble drafted) := by
  intro context before result after leads sane
  obtain rfl := leads_assemble.mp leads
  refine ⟨sane, fun bounded => ⟨⟨Nat.le_trans (grows _) bounded.code, bounded.captures⟩, ?_⟩⟩
  exact congrArg (fun code => ((), { before.widened with code })) (same before.assembler).symm

theorem drafts_push (instr : PendingInstruction) :
    Drafts id (assemble (·.push instr)) (Draft.push instr.widened) := by
  refine drafts_assemble _ (·.push instr.widened)
    (fun assembler => Assembler.widened_push assembler instr) fun assembler => ?_
  exact Nat.le_trans (Nat.le_succ _) (Nat.le_of_eq (Array.size_push instr).symm)

theorem drafts_emit (op : Opcode) (a b : UInt16) :
    Drafts id (emit op a b) (Draft.emit op a.toNat b.toNat) :=
  drafts_push _

theorem drafts_emitPlain (op : Opcode) : Drafts id (emit op) (Draft.emit op) := drafts_push _

theorem drafts_emitJump (op : Opcode) (target : Label) :
    Drafts id (emitJump op target) (Draft.emitJump op target) :=
  drafts_push _

theorem drafts_newLabel : Drafts id newLabel Draft.newLabel := by
  intro context before result after leads sane
  obtain ⟨rfl, rfl⟩ := leads_newLabel.mp leads
  exact ⟨sane, fun bounded => ⟨⟨bounded.code, bounded.captures⟩, rfl⟩⟩

theorem drafts_placeLabel (label : Label) : Drafts id (placeLabel label) (Draft.placeLabel label) :=
  drafts_assemble _ (·.placeLabel label)
    (fun assembler => Assembler.widened_placeLabel assembler label) fun _ => Nat.le_refl _

theorem drafts_depth : Drafts id depth Draft.depth := by
  intro context before result after leads sane
  obtain ⟨rfl, rfl⟩ := leads_depth.mp leads
  exact ⟨sane, fun bounded => ⟨bounded, rfl⟩⟩

theorem drafts_setDepth (depth : Int) : Drafts id (setDepth depth) (Draft.setDepth depth) :=
  drafts_assemble _ (fun code => { code with depth }) (fun _ => rfl) fun _ => Nat.le_refl _

theorem drafts_isTopLevel : Drafts id isTopLevel Draft.isTopLevel := by
  intro context before result after leads sane
  obtain ⟨rfl, rfl⟩ := leads_isTopLevel.mp leads
  refine ⟨sane, fun bounded => ⟨bounded, ?_⟩⟩
  exact congrArg (·, before.widened) List.isEmpty_map

/-! ## Constants and names -/

theorem drafts_addNumber (value : Number) (span : Span) :
    Drafts UInt16.toNat (addNumber value span) (Draft.addNumber value) := by
  intro context before index after leads sane
  obtain ⟨numbers, added, rfl⟩ := leads_addNumber.mp leads
  refine ⟨sane, fun bounded => ⟨⟨bounded.code, bounded.captures⟩, ?_⟩⟩
  exact congrArg (fun entered : Nat × Array Number =>
    (entered.1, { before.widened with numbers := entered.2 })) (ConstantTable.enter_of_add added)

theorem drafts_addString (value : String) (span : Span) :
    Drafts UInt16.toNat (addString value span) (Draft.addString value) := by
  intro context before index after leads sane
  obtain ⟨strings, added, rfl⟩ := leads_addString.mp leads
  refine ⟨sane, fun bounded => ⟨⟨bounded.code, bounded.captures⟩, ?_⟩⟩
  exact congrArg (fun entered : Nat × Array String =>
    (entered.1, { before.widened with strings := entered.2 })) (ConstantTable.enter_of_add added)

/-- Globals have no place in a draft. -/
theorem drafts_addGlobal (name : String) : Drafts id (addGlobal name) (pure ()) := by
  intro context before result after leads sane
  obtain rfl := leads_modify.mp leads
  exact ⟨sane, fun bounded => ⟨⟨bounded.code, bounded.captures⟩, rfl⟩⟩

/-- Neither have several. -/
theorem drafts_addGlobals (names : List (String × Span)) :
    Drafts id (addGlobals names) (pure ()) := by
  induction names with
  | nil => exact drafts_pure id ()
  | cons first rest ih => exact drafts_after (drafts_addGlobal first.1) ih

theorem drafts_resolve (name : String) (span : Span) :
    Drafts Place.widened (resolve name span) (Draft.resolve name) := by
  intro context before place after leads sane
  obtain ⟨orderly, -⟩ := Compilation.orderly_resolve leads sane
  obtain ⟨scopes, resolved, rfl⟩ := leads_resolve.mp leads
  refine ⟨orderly.sane, fun bounded =>
    ⟨⟨bounded.code, bounded.captures.of_widen orderly.scopes⟩, ?_⟩⟩
  exact congrArg (fun found : Draft.Spot × List Draft.Scope =>
    (found.1, { before.widened with scopes := found.2 }))
      (Scopes.resolve_widened sane resolved bounded.captures)

/-- A name is declared in the slot of that number. -/
theorem drafts_declareSlot (name : String) (span : Span) :
    Drafts UInt16.toNat (declareSlot name span) (Draft.declareSlot name) := by
  intro context before slot after leads sane
  obtain ⟨orderly, -⟩ := Compilation.orderly_declareSlot leads sane
  refine ⟨orderly.sane, fun bounded =>
    ⟨⟨Nat.le_trans orderly.size_le bounded.code, bounded.captures.of_widen orderly.scopes⟩, ?_⟩⟩
  have run : (Draft.declareSlot name).run before.widened =
      ((Draft.declareIn name (Scopes.widened before.scopes)).1,
        { before.widened with scopes := (Draft.declareIn name (Scopes.widened before.scopes)).2 }) :=
    rfl
  have declared := leads_declareSlot.mp leads
  rw [run]
  split at declared
  · rename_i none
    obtain ⟨rfl, same⟩ := declared
    rw [same, none]
    simp only [Compilation.widened, none]
    rfl
  · rename_i scope outer listed
    obtain ⟨scope', declared, rfl⟩ := declared
    rw [listed] at sane
    rw [listed, Scopes.widened, List.map_cons, Draft.declareIn,
      FunctionScope.declare_widened sane.1 declared]
    rfl

theorem drafts_declareAhead (names : List (String × Span)) :
    Drafts id (declareAhead names) (Draft.declareAhead names) := by
  induction names with
  | nil => exact drafts_pure id ()
  | cons first rest ih =>
      exact drafts_bind (drafts_discard (drafts_declareSlot first.1 first.2)) fun _ => ih

theorem drafts_declareParams (names : List (String × Span)) :
    Drafts id (declareParams names) (Draft.declareParams names) := by
  induction names with
  | nil => exact drafts_pure id ()
  | cons first rest ih =>
      obtain ⟨name, span⟩ := first
      intro context before result after leads sane
      have orderly := Compilation.orderly_declareParams leads sane
      refine ⟨orderly.sane, fun bounded => ?_⟩
      have run : (Draft.declareParams ((name, span) :: rest)).run before.widened =
          (Draft.declareParams rest).run
            { before.widened with
              scopes := Draft.declareParameterIn name (Scopes.widened before.scopes) } := rfl
      refine ⟨⟨Nat.le_trans orderly.size_le bounded.code, bounded.captures.of_widen orderly.scopes⟩,
        run.trans ?_⟩
      rw [declareParams] at leads
      obtain ⟨_, _, got, leads⟩ := leads_bind.mp leads
      obtain ⟨rfl, rfl⟩ := leads_get.mp got
      split at leads
      · rename_i none
        have unchanged : { before.widened with
            scopes := Draft.declareParameterIn name (Scopes.widened before.scopes) } =
              before.widened := by
          simp only [Compilation.widened, none]
          rfl
        rw [unchanged]
        exact ((ih _ _ _ _ leads sane).2 bounded).2
      · rename_i scope outer listed
        simp only [slotLimit, leads_bind, leads_read, leads_pure, leads_orComplain,
          leads_modify] at leads
        obtain ⟨_, _, ⟨_, _, ⟨rfl, rfl⟩, rfl, rfl⟩, ⟨_, scope'⟩, _, ⟨declared, rfl⟩, _, _, rfl,
          leads⟩ := leads
        rw [listed] at sane
        obtain ⟨proper, widens, captures, captured⟩ :=
          FunctionScope.declareParameter_widens sane.1 declared
        have named := Compilation.orderly_head listed (listed ▸ sane) proper widens captures captured
        rw [listed, Scopes.widened, List.map_cons, Draft.declareParameterIn,
          FunctionScope.declareParameter_widened sane.1 declared]
        exact ((ih _ _ _ _ leads named.sane).2 bounded).2

/-! ## Instructions that refer to something -/

/-- A number is loaded from its index. -/
theorem drafts_number (value : Number) (span : Span) :
    Drafts id (number value span) (Draft.number value) := by
  refine drafts_ite (fun _ => drafts_emitPlain _) fun _ => drafts_ite (fun small => ?_) fun _ =>
    drafts_bind (drafts_addNumber value span) fun _ => drafts_emit _ _ _
  obtain ⟨-, positive, small⟩ := small
  have few : value.wholePart ≤ 65535 := by
    unfold Number.truncated at positive small
    by_cases negative : value.isNegative
    · rw [if_pos negative] at positive
      omega
    · rw [if_neg negative] at small
      omega
  have drafts := drafts_emit .pushInt (UInt16.ofNat value.wholePart) 0
  rw [toNat_ofNat_of_le few] at drafts
  exact drafts

theorem drafts_named (op : Opcode) (value : String) (span : Span) :
    Drafts id (addString value span >>= fun index => emit op index)
      (Draft.addString value >>= fun index => Draft.emit op index) :=
  drafts_bind (drafts_addString value span) fun _ => drafts_emit _ _ _

theorem drafts_string (value : String) (span : Span) :
    Drafts id (string value span) (Draft.string value) :=
  drafts_named _ _ _

/-- A name is loaded from its place. -/
theorem drafts_load (place : Place) (name : String) (span : Span) :
    Drafts id (load place name span) (Draft.load place.widened name) := by
  cases place with
  | slot index => exact drafts_emit _ _ _
  | capture index => exact drafts_emit _ _ _
  | global => exact drafts_named _ _ _

/-- And stored there. -/
theorem drafts_store (place : Place) (name : String) (span : Span) :
    Drafts id (store place name span) (Draft.store place.widened name) := by
  cases place with
  | slot index => exact drafts_emit _ _ _
  | capture index => exact drafts_emit _ _ _
  | global =>
      intro context before result after leads sane
      refine drafts_named .storeGlobal name span context before result after ?_ sane
      exact leads_named.mpr (leads_store leads)

/-- An operand that counts at most 65535 items. -/
theorem drafts_counted (op : Opcode) {count : Nat} (small : count ≤ 65535) :
    Drafts id (emit op (UInt16.ofNat count)) (Draft.emit op count) := by
  have drafts := drafts_emit op (UInt16.ofNat count) 0
  rw [toNat_ofNat_of_le small] at drafts
  exact drafts

/-- The limit on the arguments of a call may be high, but each argument takes an instruction. -/
theorem drafts_call {callee : Expr} {args : List Expr} {span : Span}
    (first : Drafts id (expr callee) (Draft.expr callee))
    (others : Drafts id (exprs args) (Draft.exprs args)) :
    Drafts id (expr (.call callee args span)) (Draft.expr (.call callee args span)) := by
  intro context before result after leads sane
  obtain ⟨called, one, passed, two, few, same⟩ := leads_call.mp leads
  have each := (shape_exprs args two).size
  by_cases small : args.length ≤ 65535
  · refine drafts_bind first (fun _ => drafts_bind others fun _ =>
      drafts_counted .call small) context before result after ?_ sane
    exact leads_seq.mpr ⟨called, one, leads_seq.mpr ⟨passed, two, leads_emit.mpr same⟩⟩
  · obtain ⟨saneCalled, -⟩ := first _ _ _ _ one sane
    obtain ⟨sanePassed, -⟩ := others _ _ _ _ two saneCalled
    subst same
    refine ⟨sanePassed, fun bounded => absurd bounded.code ?_⟩
    rw [Compilation.size_emit]
    omega

/-! ## Functions and loops -/

theorem drafts_pushCaptures (sources : List CaptureSource) :
    Drafts id (pushCaptures sources)
      ((sources.map CaptureSource.widened).forM fun source => Draft.push (Draft.pushing source)) := by
  induction sources with
  | nil => exact drafts_pure id ()
  | cons first rest ih => cases first <;> exact drafts_bind (drafts_push _) fun _ => ih

/-- A jump out of a loop goes to the same label. -/
theorem drafts_loopJump (keyword : TokenKind) (target : LoopLabels → Label) (span : Span) :
    Drafts id (loopJump keyword target span) (Draft.loopJump target) := by
  intro context before result after leads sane
  obtain ⟨labels, outer, inside, rfl⟩ := leads_loopJump.mp leads
  have drafts : Drafts id
      (depth >>= fun before => emitJump .jump (target labels) >>= fun _ => setDepth before)
      (Draft.depth >>= fun before =>
        Draft.emitJump .jump (target labels) >>= fun _ => Draft.setDepth before) :=
    drafts_bind drafts_depth fun _ => drafts_bind (drafts_emitJump _ _) fun _ => drafts_setDepth _
  have loops : before.widened.loops = labels :: outer := inside
  rw [Draft.loopJump, StateT.run_bind, StateT.run_get, pure_bind]
  simp only [loops]
  refine drafts context before result _ ?_ sane
  exact leads_bind.mpr ⟨_, _, leads_depth.mpr ⟨rfl, rfl⟩,
    leads_seq.mpr ⟨_, leads_emitJump.mpr rfl, leads_setDepth.mpr rfl⟩⟩

/-- What is done within a loop is drafted within it. -/
theorem drafts_inLoop {step : Compiling Unit} {draft : Drafting Unit} (labels : LoopLabels)
    (drafts : Drafts id step draft) : Drafts id (inLoop labels step) (Draft.inLoop labels draft) := by
  intro context before result after leads sane
  obtain ⟨middle, ran, rfl⟩ := leads_inLoop.mp leads
  obtain ⟨saneMiddle, bounds⟩ := drafts _ _ _ _ ran sane
  refine ⟨saneMiddle, fun bounded => ?_⟩
  obtain ⟨bounded, drafted⟩ := bounds ⟨bounded.code, bounded.captures⟩
  refine ⟨⟨bounded.code, bounded.captures⟩, ?_⟩
  have run : (Draft.inLoop labels draft).run before.widened =
      ((), { (draft.run (before.entering labels).widened).2 with loops := before.loops }) := rfl
  rw [run, drafted]
  rfl

theorem run_openFunction (state : Compilation) :
    Draft.openFunction.run state.widened =
      ((state.functions.size, state.assembler.widened, state.loops), state.opened.widened) := by
  have run : Draft.openFunction.run state.widened =
      (((state.functions.map FunctionDef.widened).size, state.assembler.widened, state.loops),
        { state.widened with
          functions := (state.functions.map FunctionDef.widened).push {}
          scopes := {} :: Scopes.widened state.scopes
          code := {}
          loops := [] }) := rfl
  rw [run, Array.size_map, ← FunctionDef.widened_default, ← Array.map_push,
    ← FunctionScope.widened_empty, ← Assembler.widened_empty]
  rfl

/-- Creates the value of a completed function: a closure when it captures anything. -/
def create (scope : FunctionScope) (index : Nat) : Compiling Unit := do
  if !scope.captures.isEmpty then
    pushCaptures scope.captures.toList
    emit .makeClosure (UInt16.ofNat index) (UInt16.ofNat scope.captures.size)
  else emit .pushFunction (UInt16.ofNat index)

theorem leads_create {context : CompileContext} {before after : Compilation} {scope : FunctionScope}
    {index : Nat} :
    Leads context (create scope index) before () after ↔
      after =
        if scope.captures.isEmpty then before.emit .pushFunction (UInt16.ofNat index)
        else
          (before.pushCaptures scope.captures.toList).emit .makeClosure (UInt16.ofNat index)
            (UInt16.ofNat scope.captures.size) := by
  unfold create
  cases scope.captures.isEmpty
  · simp only [Bool.not_false, if_true, leads_seq, leads_pushCaptures, leads_emit, exists_eq_left,
      Bool.false_eq_true, if_false]
  · simp only [Bool.not_true, Bool.false_eq_true, if_false, leads_emit, if_true]

/-- There are as many captures in the draft. -/
theorem captures_widened (scope : FunctionScope) :
    scope.widened.captures.size = scope.captures.size ∧
      scope.widened.captures.isEmpty = scope.captures.isEmpty := by
  have count : scope.widened.captures.size = scope.captures.size := Array.size_map
  exact ⟨count, by rw [Array.isEmpty, Array.isEmpty, count]⟩

/-- The value of a completed function is created behind the instructions that push its captures. -/
theorem drafts_create (scope : FunctionScope) {index : Nat} (few : index ≤ 65535)
    (captures : scope.captures.size ≤ 65535) :
    Drafts id (create scope index) (Draft.create scope.widened index) := by
  have sources : scope.widened.captures.toList =
      scope.captures.toList.map CaptureSource.widened := Array.toList_map
  have created := drafts_emit .makeClosure (UInt16.ofNat index) (UInt16.ofNat scope.captures.size)
  rw [toNat_ofNat_of_le few, toNat_ofNat_of_le captures] at created
  unfold create Draft.create
  rw [sources, (captures_widened scope).1, (captures_widened scope).2]
  exact drafts_ite (fun _ => drafts_bind (drafts_pushCaptures _) fun _ => created) fun _ =>
    drafts_counted .pushFunction few

/-- The innermost of sane scopes is proper. -/
theorem proper_scope {state : Compilation} (sane : state.scopes.Sane) : state.scope.Proper := by
  unfold Compilation.scope
  cases listed : state.scopes with
  | nil => exact ⟨rfl, Nat.zero_le _, Nat.le_refl _⟩
  | cons scope outer =>
      rw [listed] at sane
      exact sane.1

/-- It is the innermost one of the draft, too. -/
theorem scope_widened (state : Compilation) :
    state.widened.scopes.headD {} = state.scope.widened := by
  unfold Compilation.scope
  change (Scopes.widened state.scopes).headD {} = _
  cases state.scopes with
  | nil => exact FunctionScope.widened_empty.symm
  | cons scope outer => rfl

/-- To complete a function is to complete it without bounds. -/
theorem closed_widened {state outer : Compilation} {function : FunctionDef}
    (finished : state.assembler.finish state.scope.slots.size state.scope.argCount
      state.scope.captured (!state.scope.captures.isEmpty) = .ok function)
    (sane : state.scopes.Sane) :
    state.widened.closed outer.functions.size outer.assembler.widened outer.loops =
      (state.closed outer function).widened := by
  have proper := proper_scope sane
  have completed := Assembler.finish_widened finished proper.small
    (Nat.le_trans (Nat.le_of_eq proper.captured) proper.small)
  have functions : (state.closed outer function).widened.functions =
      state.widened.functions.setIfInBounds outer.functions.size function.widened :=
    Array.map_setIfInBounds
  have scopes : (state.closed outer function).widened.scopes = state.widened.scopes.tail :=
    List.map_tail
  rw [completed] at functions
  simp only [Draft.closed, scope_widened, (captures_widened state.scope).2]
  exact (congrArg₂ (fun scopes functions =>
    { (state.closed outer function).widened with scopes, functions }) scopes functions).symm

/-- The scopes around it are sane. -/
theorem sane_tail {scopes : Scopes} (sane : scopes.Sane) : Scopes.Sane scopes.tail := by
  cases scopes with
  | nil => exact sane
  | cons scope outer => exact sane.2.2

/-- What a function captures is pushed around it, one instruction for each. -/
theorem captures_le {before after : Compilation} {context : CompileContext} {scope : FunctionScope}
    {index : Nat} (leads : Leads context (create scope index) before () after)
    (bounded : after.Bounded) : scope.captures.size ≤ 65535 := by
  have created := leads_create.mp leads
  by_cases none : scope.captures.isEmpty = true
  · rw [Array.isEmpty_iff.mp none]
    exact Nat.zero_le _
  · have fits := bounded.code
    rw [created, if_neg none, Compilation.size_emit, (Compilation.adds_pushCaptures _ _).2.1,
      Array.length_toList] at fits
    omega

/-- A function is completed within bounds, those of the code around it included. -/
theorem drafts_closeFunction {context : CompileContext} {outer state after : Compilation} {span : Span}
    (few : outer.functions.size ≤ 65535) (sane : state.scopes.Sane)
    (leads : Leads context
      (closeFunction span outer.functions.size outer.assembler outer.loops) state () after)
    (bounded : after.Bounded) :
    outer.size ≤ 65535 ∧ state.Bounded ∧
      (Draft.closeFunction outer.functions.size outer.assembler.widened outer.loops).run
        state.widened = ((), after.widened) := by
  obtain ⟨function, finished, created⟩ := leads_closeFunction.mp leads
  have creates : Leads context (create state.scope outer.functions.size)
      (state.closed outer function) () after := leads_create.mpr created
  have captures := captures_le creates bounded
  obtain ⟨-, drafts⟩ := drafts_create state.scope few captures context _ () _ creates
    (sane_tail sane)
  obtain ⟨closed, drafted⟩ := drafts bounded
  refine ⟨closed.code, ⟨Assembler.pending_size_le finished, ?_⟩, ?_⟩
  · have around : Scopes.Bounded state.scopes.tail := closed.captures
    unfold Compilation.scope at captures
    cases listed : state.scopes with
    | nil => exact fun _ member => by cases member
    | cons scope rest =>
        rw [listed] at captures around
        intro other member
        obtain rfl | member := List.mem_cons.mp member
        · exact captures
        · exact around other member
  · have run : (Draft.closeFunction outer.functions.size outer.assembler.widened outer.loops).run
          state.widened =
        (Draft.create (state.widened.scopes.headD {}) outer.functions.size).run
          (state.widened.closed outer.functions.size outer.assembler.widened outer.loops) := rfl
    rw [run, scope_widened, closed_widened finished sane]
    exact drafted

/-- A function is drafted when its body is. -/
theorem drafts_definition {span : Span} {params declared : List (String × Span)} {body : List Stmt}
    (inner : Drafts id (stmts body) (Draft.stmts body)) :
    Drafts id (definition (.mk span params declared body))
      (Draft.definition (.mk span params declared body)) := by
  intro context before result after leads sane
  refine ⟨(orderly_definition _ leads sane).sane, fun bounded => ?_⟩
  obtain ⟨few, named, one, ready, two, ended, three, closes⟩ := leads_definition.mp leads
  have whole : Drafts id
      (declareParams params >>= fun _ => declareAhead declared >>= fun _ => stmts body >>= fun _ =>
        emit .retUndefined)
      (Draft.declareParams params >>= fun _ => Draft.declareAhead declared >>= fun _ =>
        Draft.stmts body >>= fun _ => Draft.emit .retUndefined) :=
    drafts_bind (drafts_declareParams params) fun _ => drafts_bind (drafts_declareAhead declared)
      fun _ => drafts_bind inner fun _ => drafts_emitPlain _
  obtain ⟨saneInner, drafts⟩ := whole context before.opened () (ended.emit .retUndefined)
    (leads_seq.mpr ⟨named, one, leads_seq.mpr ⟨ready, two, leads_seq.mpr ⟨ended, three,
      leads_emit.mpr rfl⟩⟩⟩) (Compilation.sane_opened sane)
  obtain ⟨small, boundedInner, closed⟩ := drafts_closeFunction few saneInner closes bounded
  obtain ⟨boundedOpened, drafted⟩ := drafts boundedInner
  refine ⟨⟨small, fun scope member =>
    boundedOpened.captures scope (List.mem_cons_of_mem _ member)⟩, ?_⟩
  have run : ∀ opened, Draft.openFunction.run before.widened = opened →
      (Draft.definition (.mk span params declared body)).run before.widened =
        (Draft.closeFunction opened.1.1 opened.1.2.1 opened.1.2.2).run
          (StateT.run (Draft.declareParams params >>= fun _ => Draft.declareAhead declared >>= fun _ =>
            Draft.stmts body >>= fun _ => Draft.emit .retUndefined) opened.2).2 := by
    rintro _ rfl
    rfl
  rw [run _ (run_openFunction before), drafted]
  exact closed

/-- The rounds of a `for` loop. -/
theorem drafts_rounds {body : Stmt} (rounds : Drafts id (stmt body) (Draft.stmt body))
    (done next : Label) :
    Drafts id
      (inLoop ⟨done, next⟩ (stmt body) >>= fun _ => emitJump .jump next >>= fun _ =>
        placeLabel done)
      (Draft.inLoop ⟨done, next⟩ (Draft.stmt body) >>= fun _ => Draft.emitJump .jump next >>=
        fun _ => Draft.placeLabel done) :=
  drafts_bind (drafts_inLoop _ rounds) fun _ => drafts_bind (drafts_emitJump _ _) fun _ =>
    drafts_placeLabel _

/-- The step clause of a `for` loop stands in front of the body. -/
theorem drafts_step {step : Expr} {body : Stmt} (between : Drafts id (expr step) (Draft.expr step))
    (rounds : Drafts id (stmt body) (Draft.stmt body)) (test done : Label) :
    Drafts id
      (do
        let first ← newLabel
        let next ← newLabel
        emitJump .jump first
        placeLabel next
        expr step
        emit .pop
        emitJump .jump test
        placeLabel first
        let next ← pure next
        inLoop ⟨done, next⟩ (stmt body)
        emitJump .jump next
        placeLabel done)
      (do
        let first ← Draft.newLabel
        let next ← Draft.newLabel
        Draft.emitJump .jump first
        Draft.placeLabel next
        Draft.expr step
        Draft.emit .pop
        Draft.emitJump .jump test
        Draft.placeLabel first
        let next ← pure next
        Draft.inLoop ⟨done, next⟩ (Draft.stmt body)
        Draft.emitJump .jump next
        Draft.placeLabel done) :=
  drafts_bind drafts_newLabel fun _ => drafts_bind drafts_newLabel fun _ =>
    drafts_bind (drafts_emitJump _ _) fun _ => drafts_bind (drafts_placeLabel _) fun _ =>
      drafts_bind between fun _ => drafts_bind (drafts_emitPlain _) fun _ =>
        drafts_bind (drafts_emitJump _ _) fun _ => drafts_bind (drafts_placeLabel _) fun _ =>
          drafts_bind (drafts_pure id _) fun next => drafts_rounds rounds done next

/-- A `for` loop is drafted when its clauses and its body are. -/
theorem drafts_forLoop {start : ForStart} {condition step : Option Expr} {body : Stmt}
    (first : Drafts id (forStart start) (Draft.forStart start))
    (test : ∀ tree ∈ condition, Drafts id (expr tree) (Draft.expr tree))
    (between : ∀ tree ∈ step, Drafts id (expr tree) (Draft.expr tree))
    (rounds : Drafts id (stmt body) (Draft.stmt body)) :
    Drafts id (stmt (.forLoop start condition step body))
      (Draft.stmt (.forLoop start condition step body)) := by
  -- Whatever follows, a loop starts with its two labels.
  have starts : ∀ {rest : Label → Label → Compiling Unit} {rest' : Label → Label → Drafting Unit},
      (∀ again done, Drafts id (rest again done) (rest' again done)) →
        Drafts id
          (forStart start >>= fun _ => newLabel >>= fun again => newLabel >>= fun done =>
            placeLabel again >>= fun _ => rest again done)
          (Draft.forStart start >>= fun _ => Draft.newLabel >>= fun again => Draft.newLabel >>=
            fun done => Draft.placeLabel again >>= fun _ => rest' again done) := fun others =>
    drafts_bind first fun _ => drafts_bind drafts_newLabel fun again =>
      drafts_bind drafts_newLabel fun done => drafts_bind (drafts_placeLabel _) fun _ =>
        others again done
  rcases condition with _ | condition <;> rcases step with _ | step
  · exact starts fun _ done => drafts_bind (drafts_pure id _) fun next =>
      drafts_rounds rounds done next
  · exact starts fun again done => drafts_step (between step rfl) rounds again done
  · exact starts fun _ done => drafts_bind (test condition rfl) fun _ =>
      drafts_bind (drafts_emitJump _ _) fun _ => drafts_bind (drafts_pure id _) fun next =>
        drafts_rounds rounds done next
  · exact starts fun again done => drafts_bind (test condition rfl) fun _ =>
      drafts_bind (drafts_emitJump _ _) fun _ => drafts_step (between step rfl) rounds again done

/-! ## Trees -/

mutual

/-- An expression is compiled as it is drafted. -/
theorem drafts_expr : (tree : Expr) → Drafts id (expr tree) (Draft.expr tree)
  | .literal _ => drafts_emitPlain _
  | .number value span => drafts_number value span
  | .string value span => drafts_string value span
  | .name ident span =>
      drafts_bind (drafts_resolve ident span) fun place => drafts_load place ident span
  | .unary _ operand => drafts_bind (drafts_expr operand) fun _ => drafts_emitPlain _
  | .binary _ left right =>
      drafts_bind (drafts_expr left) fun _ => drafts_bind (drafts_expr right) fun _ =>
        drafts_emitPlain _
  | .logical _ left right =>
      drafts_bind (drafts_expr left) fun _ => drafts_bind drafts_newLabel fun _ =>
        drafts_bind (drafts_emitJump _ _) fun _ => drafts_bind (drafts_expr right) fun _ =>
          drafts_placeLabel _
  | .conditional condition whenTrue whenFalse =>
      drafts_bind (drafts_expr condition) fun _ => drafts_bind drafts_newLabel fun _ =>
        drafts_bind drafts_newLabel fun _ => drafts_bind (drafts_emitJump _ _) fun _ =>
          drafts_bind drafts_depth fun _ => drafts_bind (drafts_expr whenTrue) fun _ =>
            drafts_bind (drafts_emitJump _ _) fun _ => drafts_bind (drafts_placeLabel _) fun _ =>
              drafts_bind (drafts_setDepth _) fun _ => drafts_bind (drafts_expr whenFalse) fun _ =>
                drafts_placeLabel _
  | .assignName ident span none value =>
      drafts_bind (drafts_resolve ident span) fun place => drafts_bind (drafts_expr value) fun _ =>
        drafts_store place ident span
  | .assignName ident span (some _) value =>
      drafts_bind (drafts_resolve ident span) fun place =>
        drafts_bind (drafts_load place ident span) fun _ => drafts_bind (drafts_expr value) fun _ =>
          drafts_bind (drafts_emitPlain _) fun _ => drafts_store place ident span
  | .assignElement container key none value =>
      drafts_bind (drafts_expr container) fun _ => drafts_bind (drafts_expr key) fun _ =>
        drafts_bind (drafts_expr value) fun _ => drafts_emitPlain _
  | .assignElement container key (some _) value =>
      drafts_bind (drafts_expr container) fun _ => drafts_bind (drafts_expr key) fun _ =>
        drafts_bind (drafts_emitPlain _) fun _ => drafts_bind (drafts_emitPlain _) fun _ =>
          drafts_bind (drafts_expr value) fun _ => drafts_bind (drafts_emitPlain _) fun _ =>
            drafts_emitPlain _
  | .element container key =>
      drafts_bind (drafts_expr container) fun _ => drafts_bind (drafts_expr key) fun _ =>
        drafts_emitPlain _
  | .call callee args _ => drafts_call (drafts_expr callee) (drafts_exprs args)
  | .array elements _ =>
      drafts_bind (drafts_exprs elements) fun _ => drafts_unless fun few =>
        drafts_counted _ (Nat.le_of_not_lt few)
  | .object properties _ =>
      drafts_bind (drafts_entries properties) fun _ => drafts_unless fun few =>
        drafts_counted _ (Nat.le_trans (Nat.le_of_not_lt few) (by decide))
  | .function body => drafts_function body
  | .broken error => drafts_throw _ error _

/-- And so are expressions in a row. -/
theorem drafts_exprs : (trees : List Expr) → Drafts id (exprs trees) (Draft.exprs trees)
  | [] => drafts_pure id ()
  | first :: rest => drafts_bind (drafts_expr first) fun _ => drafts_exprs rest

theorem drafts_entries : (trees : List Entry) → Drafts id (entries trees) (Draft.entries trees)
  | [] => drafts_pure id ()
  | first :: rest => drafts_bind (drafts_entry first) fun _ => drafts_entries rest

theorem drafts_entry : (tree : Entry) → Drafts id (entry tree) (Draft.entry tree)
  | .property key span value =>
      drafts_bind (drafts_string key span) fun _ => drafts_expr value
  | .broken error => drafts_throw _ error _

theorem drafts_function : (tree : Definition) → Drafts id (definition tree) (Draft.definition tree)
  | .mk _ _ _ body => drafts_definition (drafts_stmts body)

theorem drafts_declarators :
    (trees : List Declarator) → Drafts id (declarators trees) (Draft.declarators trees)
  | [] => drafts_pure id ()
  | first :: rest => drafts_bind (drafts_declarator first) fun _ => drafts_declarators rest

theorem drafts_declarator :
    (tree : Declarator) → Drafts id (declarator tree) (Draft.declarator tree)
  | .variable name span none =>
      drafts_bind drafts_isTopLevel fun _ =>
        drafts_ite
          (fun _ => drafts_bind (drafts_addString name span) fun _ =>
            drafts_after (drafts_addGlobal name) (drafts_emit _ _ _))
          fun _ => drafts_bind (drafts_declareSlot name span) fun _ => drafts_pure id ()
  | .variable name span (some value) =>
      drafts_bind drafts_isTopLevel fun _ =>
        drafts_ite
          (fun _ => drafts_bind (drafts_addString name span) fun _ =>
            drafts_after (drafts_addGlobal name)
              (drafts_bind (drafts_expr value) fun _ => drafts_emit _ _ _))
          fun _ => drafts_bind (drafts_declareSlot name span) fun _ =>
            drafts_bind (drafts_expr value) fun _ => drafts_bind (drafts_emit _ _ _) fun _ =>
              drafts_emitPlain _
  | .broken error => drafts_throw _ error _

/-- A statement is compiled as it is drafted. -/
theorem drafts_stmt : (tree : Stmt) → Drafts id (stmt tree) (Draft.stmt tree)
  | .expression value =>
      drafts_bind (drafts_expr value) fun _ => drafts_bind drafts_isTopLevel fun _ =>
        drafts_ite
          (fun _ => drafts_bind (drafts_emitPlain _) fun _ => drafts_emitPlain _)
          fun _ => drafts_emitPlain _
  | .declare names => drafts_declarators names
  | .define name span body =>
      drafts_bind drafts_isTopLevel fun _ =>
        drafts_ite
          (fun _ => drafts_bind (drafts_addString name span) fun _ =>
            drafts_after (drafts_addGlobal name)
              (drafts_bind (drafts_function body) fun _ => drafts_emit _ _ _))
          fun _ => drafts_bind (drafts_declareSlot name span) fun _ =>
            drafts_bind (drafts_function body) fun _ => drafts_bind (drafts_emit _ _ _) fun _ =>
              drafts_emitPlain _
  | .branch condition whenTrue none =>
      drafts_bind (drafts_expr condition) fun _ => drafts_bind drafts_newLabel fun _ =>
        drafts_bind (drafts_emitJump _ _) fun _ => drafts_bind (drafts_stmt whenTrue) fun _ =>
          drafts_placeLabel _
  | .branch condition whenTrue (some whenFalse) =>
      drafts_bind (drafts_expr condition) fun _ => drafts_bind drafts_newLabel fun _ =>
        drafts_bind (drafts_emitJump _ _) fun _ => drafts_bind (drafts_stmt whenTrue) fun _ =>
          drafts_bind drafts_newLabel fun _ => drafts_bind (drafts_emitJump _ _) fun _ =>
            drafts_bind (drafts_placeLabel _) fun _ => drafts_bind (drafts_stmt whenFalse) fun _ =>
              drafts_placeLabel _
  | .whileLoop condition body =>
      drafts_bind drafts_newLabel fun _ => drafts_bind drafts_newLabel fun _ =>
        drafts_bind (drafts_placeLabel _) fun _ => drafts_bind (drafts_expr condition) fun _ =>
          drafts_bind (drafts_emitJump _ _) fun _ =>
            drafts_bind (drafts_inLoop _ (drafts_stmt body)) fun _ =>
              drafts_bind (drafts_emitJump _ _) fun _ => drafts_placeLabel _
  | .forLoop start condition step body =>
      drafts_forLoop (drafts_forStart start) (drafts_ifAny condition) (drafts_ifAny step)
        (drafts_stmt body)
  | .breakLoop _ => drafts_loopJump _ _ _
  | .continueLoop _ => drafts_loopJump _ _ _
  | .return_ none =>
      drafts_bind drafts_depth fun _ => drafts_bind (drafts_emitPlain _) fun _ => drafts_setDepth _
  | .return_ (some value) =>
      drafts_bind drafts_depth fun _ => drafts_bind (drafts_expr value) fun _ =>
        drafts_bind (drafts_emitPlain _) fun _ => drafts_setDepth _
  | .block body => drafts_stmts body
  | .broken error => drafts_throw _ error _

theorem drafts_ifAny :
    (tree : Option Expr) → ∀ value ∈ tree, Drafts id (expr value) (Draft.expr value)
  | none => fun _ member => by cases member
  | some value => fun _ member => by
      cases member
      exact drafts_expr value

theorem drafts_forStart : (tree : ForStart) → Drafts id (forStart tree) (Draft.forStart tree)
  | .nothing => drafts_pure id ()
  | .declare names => drafts_declarators names
  | .evaluate value => drafts_bind (drafts_expr value) fun _ => drafts_emitPlain _

theorem drafts_stmts : (trees : List Stmt) → Drafts id (stmts trees) (Draft.stmts trees)
  | [] => drafts_pure id ()
  | first :: rest => drafts_bind (drafts_stmt first) fun _ => drafts_stmts rest

end

theorem widened_start : Compilation.start.widened = { functions := #[{}] } := by
  have functions : (#[default] : Array FunctionDef).map FunctionDef.widened = #[{}] := by
    rw [List.map_toArray, List.map_singleton, FunctionDef.widened_default]
  simp only [Compilation.widened, Compilation.start, functions, Assembler.widened_empty]
  rfl

/-- A unit that compiles is compiled to its draft. -/
theorem ofTree_eq_widened {context : CompileContext} {tree : UnitTree} {after : Compilation}
    (leads : Leads context (unit tree) .start () after) : Draft.ofTree tree = after.widened := by
  obtain ⟨named, globals, ended, body, main, finished, rfl⟩ := leads_unit leads
  have whole : Drafts id
      (addGlobals tree.declared >>= fun _ => stmts tree.body >>= fun _ => emit .loadLocal >>=
        fun _ => emit .ret)
      (Draft.stmts tree.body >>= fun _ => Draft.emit .loadLocal >>= fun _ => Draft.emit .ret) :=
    drafts_after (drafts_addGlobals _) (drafts_bind (drafts_stmts _) fun _ =>
      drafts_bind (drafts_emitPlain _) fun _ => drafts_emitPlain _)
  obtain ⟨-, drafts⟩ := whole context .start () ((ended.emit .loadLocal).emit .ret)
    (leads_seq.mpr ⟨named, globals, leads_seq.mpr ⟨ended, body, leads_seq.mpr ⟨_, leads_emit.mpr rfl,
      leads_emit.mpr rfl⟩⟩⟩) trivial
  have one := Compilation.orderly_addGlobals globals trivial
  have topLevel : ended.scopes = [] :=
    (one.trans (orderly_stmts tree.body body one.sane)).scopes.eq_nil
  have bounded : ((ended.emit .loadLocal).emit .ret).Bounded := by
    refine ⟨Assembler.pending_size_le finished, ?_⟩
    change Scopes.Bounded ended.scopes
    rw [topLevel]
    exact fun _ member => absurd member List.not_mem_nil
  obtain ⟨-, drafted⟩ := drafts bounded
  have completed := Assembler.finish_widened finished (by decide) (by decide)
  have run : Draft.ofTree tree =
      let draft := (StateT.run (Draft.stmts tree.body >>= fun _ => Draft.emit .loadLocal >>= fun _ =>
        Draft.emit .ret) { functions := #[{}] }).2
      { draft with
        functions := draft.functions.setIfInBounds 0 (draft.code.finish 1 0 #[] false) } := rfl
  rw [run, ← widened_start, drafted]
  have functions : (ended.functions.setIfInBounds 0 main).map FunctionDef.widened =
      (ended.functions.map FunctionDef.widened).setIfInBounds 0 main.widened :=
    Array.map_setIfInBounds
  rw [completed] at functions
  exact congrArg (fun functions =>
    { ((ended.emit .loadLocal).emit .ret).widened with functions }) functions.symm

end Compiling

variable {bytes : List UInt8} {limits : CompileLimits} {isKnownGlobal : String → Bool}
  {program : Program}

/-- A program that was compiled is its draft. -/
theorem readsAs_draft (compiled : compile bytes limits isKnownGlobal = .ok program) :
    program.ReadsAs (Draft.ofText limits.maxExprDepth bytes) := by
  obtain ⟨done, leads, rfl⟩ := leads_of_compile compiled
  have draft : Draft.ofText limits.maxExprDepth bytes = done.widened :=
    Compiling.ofTree_eq_widened leads
  rw [draft]
  refine ⟨rfl, rfl, Array.size_map.symm, fun index function found => ⟨function.widened, ?_, ?_⟩⟩
  · exact (Array.getElem?_map ..).trans (congrArg (Option.map FunctionDef.widened) found)
  · obtain ⟨origin, yields⟩ := (Compiling.completed_unit leads).1 index function found
    refine ⟨rfl, rfl, rfl, rfl, _, yields.disassemble, ?_⟩
    rw [FunctionDef.widened, Code.lines, yields.disassemble]

/-- What a program reads as has numbers of 16 bits. -/
theorem fits_of_readsAs (compiled : compile bytes limits isKnownGlobal = .ok program) {draft : Draft}
    (reads : program.ReadsAs draft) : draft.Fits := by
  obtain ⟨-, numbers, strings, functions⟩ := compile_storable compiled
  refine ⟨reads.numbers ▸ numbers, reads.strings ▸ strings, reads.count ▸ functions,
    fun drafted member => ?_⟩
  have below : ∀ value : UInt16, value.toNat ≤ 65535 := fun value => Nat.le_of_lt_succ value.toNat_lt
  obtain ⟨index, inside, same⟩ := Array.mem_iff_getElem.mp member
  have there := Array.getElem?_eq_getElem (reads.count ▸ inside : index < program.functions.size)
  obtain ⟨drafted', found, each⟩ := reads.each index _ there
  obtain rfl : drafted = drafted' := by
    rw [Array.getElem?_eq_getElem inside, same] at found
    exact Option.some.inj found
  obtain ⟨listing, listed, lines⟩ := each.lines
  refine ⟨each.varCount ▸ below _, each.argCount ▸ below _, each.stackHigh ▸ below _,
    fun line member => ?_⟩
  rw [← lines] at member
  obtain ⟨⟨offset, instr⟩, shown, rfl⟩ := List.mem_map.mp member
  have decoded := Code.decode_inside (Code.decode_of_disassemble listed shown)
  have small := size_code_le compiled (Array.getElem_mem (reads.count ▸ inside))
  exact ⟨Nat.le_trans (Nat.le_of_add_right_le decoded) small, below _, below _⟩

/-- No index and no count is cut off, whatever the limits are. The numbers of a compiled program are
those of its draft: the indices of slots, captures, constants and functions, the numbers of arguments,
elements, entries and cells, the targets of jumps, and the slots, parameters and stack depth of each
function. A unit one of whose numbers needs more than 16 bits is rejected. -/
theorem compile_untruncated (bytes : List UInt8) (limits : CompileLimits)
    (isKnownGlobal : String → Bool) :
    (∀ program, compile bytes limits isKnownGlobal = .ok program →
      program.ReadsAs (Draft.ofText limits.maxExprDepth bytes)) ∧
    (¬ (Draft.ofText limits.maxExprDepth bytes).Fits →
      ∃ error, compile bytes limits isKnownGlobal = .error error) := by
  refine ⟨fun program compiled => readsAs_draft compiled, fun large => ?_⟩
  cases compiled : compile bytes limits isKnownGlobal with
  | ok program => exact absurd (fits_of_readsAs compiled (readsAs_draft compiled)) large
  | error error => exact ⟨error, rfl⟩

/-- A unit with a closure is its draft. -/
theorem compile_untruncated_closure :
    compile closureText {} (fun _ => false) = .ok closureProgram ∧
      closureProgram.ReadsAs (Draft.ofText 48 closureText) :=
  ⟨compile_closureText,
    (compile_untruncated closureText {} fun _ => false).1 closureProgram compile_closureText⟩

end PocketScript
