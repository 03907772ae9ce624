import PocketScript.Compile

/-!
# What the steps of a compilation do

A step of a compilation either raises an objection or leads from one state to another. This module
says once, for every step and for the code of every form of expression, which states it leads
between. `Compiling.leads_bind` splits a sequence into its parts, the other lemmas say what a part
does.
-/

namespace PocketScript

namespace Compilation

/-- The state with a change to the code of the current function. -/
def assembling (state : Compilation) (change : Assembler → Assembler) : Compilation :=
  { state with assembler := change state.assembler }

def emit (state : Compilation) (op : Opcode) (a : UInt16 := 0) (b : UInt16 := 0) : Compilation :=
  state.assembling (·.emit op a b)

def emitJump (state : Compilation) (op : Opcode) (target : Label) : Compilation :=
  state.assembling (·.emitJump op target)

/-- The label that comes next. -/
def nextLabel (state : Compilation) : Label := ⟨state.assembler.labels.size⟩

def addLabel (state : Compilation) : Compilation := state.assembling (·.newLabel.2)

def placeLabel (state : Compilation) (label : Label) : Compilation :=
  state.assembling (·.placeLabel label)

def setDepth (state : Compilation) (depth : Int) : Compilation :=
  state.assembling (·.setDepth depth)

end Compilation

namespace Compiling

attribute [grind =] expr exprs entries entry definition declarators declarator stmt forStart stmts

variable {α β : Type} {context : CompileContext} {before after : Compilation}

/-- A step leads from one state of a compilation to another, with a result. -/
def Leads (context : CompileContext) (step : Compiling α) (before : Compilation) (result : α)
    (after : Compilation) : Prop :=
  step context before = .ok (result, after)

/-- A step always raises an objection. -/
def Fails (step : Compiling α) : Prop :=
  ∀ context before result after, ¬ Leads context step before result after

/-- To return a result leads nowhere else. -/
theorem leads_pure {result result' : α} :
    Leads context (pure result) before result' after ↔ result = result' ∧ before = after := by
  constructor
  · intro leads
    injection leads with same
    injection same with first second
    exact ⟨first, second⟩
  · rintro ⟨rfl, rfl⟩
    rfl

/-- A sequence leads where its second part leads from where the first one does. -/
theorem leads_bind {step : Compiling α} {next : α → Compiling β} {result : β} :
    Leads context (step >>= next) before result after ↔
      ∃ first middle, Leads context step before first middle ∧
        Leads context (next first) middle result after := by
  unfold Leads
  constructor
  · intro leads
    cases run : step context before with
    | error error =>
        have failed : (step >>= next) context before = .error error := by
          change (step context before >>= fun pair => next pair.1 context pair.2) = _
          rw [run]
          rfl
        rw [failed] at leads
        cases leads
    | ok pair =>
        refine ⟨pair.1, pair.2, rfl, ?_⟩
        have continued : (step >>= next) context before = next pair.1 context pair.2 := by
          change (step context before >>= fun pair => next pair.1 context pair.2) = _
          rw [run]
          rfl
        rw [← continued]
        exact leads
  · rintro ⟨first, middle, run, continued⟩
    change (step context before >>= fun pair => next pair.1 context pair.2) = _
    rw [run]
    exact continued

/-- A result that is not wanted may be any. -/
theorem leads_discard {step : Compiling α} :
    Leads context (discard step) before () after ↔
      ∃ result, Leads context step before result after := by
  have same : discard step = step >>= fun _ => pure () := rfl
  rw [same, leads_bind]
  simp only [leads_pure, true_and, exists_eq_right]

theorem leads_get {result : Compilation} :
    Leads context get before result after ↔ before = result ∧ before = after :=
  @leads_pure _ context before after before result

theorem leads_read {result : CompileContext} :
    Leads context read before result after ↔ context = result ∧ before = after :=
  @leads_pure _ context before after context result

/-- A change leads to the changed state. -/
theorem leads_modify {change : Compilation → Compilation} {result : PUnit} :
    Leads context (modify change) before result after ↔ after = change before := by
  constructor
  · intro leads
    injection leads with same
    injection same with _ second
    exact second.symm
  · rintro rfl
    rfl

/-- It may come with a result. -/
theorem leads_modifyGet {change : Compilation → α × Compilation} {result : α} :
    Leads context (modifyGet change) before result after ↔ change before = (result, after) := by
  constructor
  · intro leads
    injection leads
  · intro same
    exact congrArg Except.ok same

/-- A step that fails leads nowhere. -/
theorem not_leads_throw {error : CompileError} {result : α} :
    ¬ Leads context (throw error) before result after := by
  intro leads
  cases leads

/-- Nor does an objection. -/
theorem not_leads_complain {complaint : Complaint} {span : Span} {result : α} :
    ¬ Leads context (complain complaint span) before result after :=
  not_leads_throw

theorem leads_orComplain {span : Span} {outcome : Except Complaint α} {result : α} :
    Leads context (orComplain span outcome) before result after ↔
      outcome = .ok result ∧ before = after := by
  cases outcome with
  | error complaint =>
      constructor
      · intro leads
        exact absurd leads not_leads_complain
      · rintro ⟨impossible, -⟩
        cases impossible
  | ok value =>
      simp only [orComplain, leads_pure, Except.ok.injEq]

/-! ## Code -/

/-- The assembler is changed alone. -/
theorem leads_assemble {change : Assembler → Assembler} {result : Unit} :
    Leads context (assemble change) before result after ↔ after = before.assembling change :=
  leads_modify

theorem leads_emit {op : Opcode} {a b : UInt16} {result : Unit} :
    Leads context (emit op a b) before result after ↔ after = before.emit op a b :=
  leads_modify

theorem leads_emitJump {op : Opcode} {target : Label} {result : Unit} :
    Leads context (emitJump op target) before result after ↔ after = before.emitJump op target :=
  leads_modify

theorem leads_placeLabel {label : Label} {result : Unit} :
    Leads context (placeLabel label) before result after ↔ after = before.placeLabel label :=
  leads_modify

theorem leads_setDepth {depth : Int} {result : Unit} :
    Leads context (setDepth depth) before result after ↔ after = before.setDepth depth :=
  leads_modify

/-- A new label is the next one. -/
theorem leads_newLabel {label : Label} :
    Leads context newLabel before label after ↔
      label = before.nextLabel ∧ after = before.addLabel := by
  constructor
  · intro leads
    injection leads with same
    injection same with first second
    exact ⟨first.symm, second.symm⟩
  · rintro ⟨rfl, rfl⟩
    rfl

theorem leads_depth {depth : Int} :
    Leads context Compiling.depth before depth after ↔
      before.assembler.depth = depth ∧ before = after :=
  @leads_pure _ context before after before.assembler.depth depth

/-- At the top level no scope is open. -/
theorem leads_isTopLevel {result : Bool} :
    Leads context isTopLevel before result after ↔
      before.scopes.isEmpty = result ∧ before = after :=
  @leads_pure _ context before after before.scopes.isEmpty result

/-! ## Constants, globals and names -/

/-- A constant gets a place when its table has room for it. -/
theorem leads_constant {change : Nat → Compilation → Option UInt16 × Compilation}
    {complaint : Complaint} {span : Span} {index : UInt16} :
    Leads context (do
      let limit ← constantLimit
      match ← modifyGet (change limit) with
      | none => complain complaint span
      | some index => pure index) before index after ↔
        change context.limits.maxConstants before = (some index, after) := by
  simp only [constantLimit, leads_bind, leads_read, leads_pure, leads_modifyGet]
  constructor
  · rintro ⟨_, _, ⟨_, _, ⟨rfl, rfl⟩, rfl, rfl⟩, place, middle, added, leads⟩
    cases place with
    | none => exact absurd leads not_leads_complain
    | some found =>
        obtain ⟨rfl, rfl⟩ := leads_pure.mp leads
        exact added
  · intro added
    exact ⟨_, _, ⟨_, _, ⟨rfl, rfl⟩, rfl, rfl⟩, some index, after, added,
      leads_pure.mpr ⟨rfl, rfl⟩⟩

/-- A number is added to the numbers. -/
theorem leads_addNumber {value : Number} {span : Span} {index : UInt16} :
    Leads context (addNumber value span) before index after ↔
      ∃ numbers, before.numbers.add context.limits.maxConstants value = (some index, numbers) ∧
        after = { before with numbers } := by
  refine leads_constant.trans ⟨fun added => ?_, ?_⟩
  · obtain ⟨found, rfl⟩ := Prod.mk.inj added
    exact ⟨_, Prod.ext found rfl, rfl⟩
  · rintro ⟨numbers, added, rfl⟩
    rw [added]

/-- And a string to the strings. -/
theorem leads_addString {value : String} {span : Span} {index : UInt16} :
    Leads context (addString value span) before index after ↔
      ∃ strings, before.strings.add context.limits.maxConstants value = (some index, strings) ∧
        after = { before with strings } := by
  refine leads_constant.trans ⟨fun added => ?_, ?_⟩
  · obtain ⟨found, rfl⟩ := Prod.mk.inj added
    exact ⟨_, Prod.ext found rfl, rfl⟩
  · rintro ⟨strings, added, rfl⟩
    rw [added]

/-- A name that resolves may add captures to the scopes. -/
theorem leads_resolve {name : String} {span : Span} {place : Place} :
    Leads context (resolve name span) before place after ↔
      ∃ scopes,
        Scopes.resolve (max context.limits.maxLocals 1) name before.scopes = .ok (place, scopes) ∧
          after = { before with scopes } := by
  simp only [resolve, slotLimit, leads_bind, leads_read, leads_get, leads_pure, leads_orComplain,
    leads_modify]
  constructor
  · rintro ⟨_, _, ⟨_, _, ⟨rfl, rfl⟩, rfl, rfl⟩, _, _, ⟨rfl, rfl⟩, ⟨_, scopes⟩, _, ⟨found, rfl⟩, _, _,
      rfl, rfl, rfl⟩
    exact ⟨scopes, found, rfl⟩
  · rintro ⟨scopes, found, rfl⟩
    exact ⟨_, _, ⟨_, _, ⟨rfl, rfl⟩, rfl, rfl⟩, _, _, ⟨rfl, rfl⟩, (place, scopes), _, ⟨found, rfl⟩,
      ⟨⟩, _, rfl, rfl, rfl⟩

/-! ## Expressions -/

/-- A sequence whose first part has no result of its own. -/
theorem leads_seq {step : Compiling Unit} {next : Unit → Compiling β} {result : β} :
    Leads context (step >>= next) before result after ↔
      ∃ middle, Leads context step before () middle ∧
        Leads context (next ()) middle result after := by
  rw [leads_bind]
  exact ⟨fun ⟨_, middle, found⟩ => ⟨middle, found⟩, fun ⟨middle, found⟩ => ⟨(), middle, found⟩⟩

variable {done : Unit}

/-- A literal is one instruction. -/
theorem leads_literal {value : Literal} :
    Leads context (expr (.literal value)) before done after ↔
      after = before.emit (literal value) := by
  rw [expr, leads_emit]

/-- Loading a number: as a part of the instruction, or from the table of numbers. -/
theorem leads_number {value : Number} {span : Span} :
    Leads context (number value span) before done after ↔
      if value = Number.zero then after = before.emit .pushZero
      else if value.isIntegral ∧ 0 < value.truncated ∧ value.truncated ≤ 65535 then
        after = before.emit .pushInt (UInt16.ofNat value.wholePart)
      else
        ∃ index numbers,
          before.numbers.add context.limits.maxConstants value = (some index, numbers) ∧
            after = Compilation.emit { before with numbers } .pushNumber index := by
  unfold number
  split
  · exact leads_emit
  · split
    · exact leads_emit
    · simp only [leads_bind, leads_addNumber, leads_emit]
      constructor
      · rintro ⟨index, _, ⟨numbers, added, rfl⟩, rfl⟩
        exact ⟨index, numbers, added, rfl⟩
      · rintro ⟨index, numbers, added, rfl⟩
        exact ⟨index, _, ⟨numbers, added, rfl⟩, rfl⟩

/-- An instruction that refers to a string constant. -/
theorem leads_named {value : String} {span : Span} {op : Opcode} :
    Leads context (addString value span >>= fun index => emit op index) before done after ↔
      ∃ index strings,
        before.strings.add context.limits.maxConstants value = (some index, strings) ∧
          after = Compilation.emit { before with strings } op index := by
  simp only [leads_bind, leads_addString, leads_emit]
  constructor
  · rintro ⟨index, _, ⟨strings, added, rfl⟩, rfl⟩
    exact ⟨index, strings, added, rfl⟩
  · rintro ⟨index, strings, added, rfl⟩
    exact ⟨index, _, ⟨strings, added, rfl⟩, rfl⟩

/-- A string constant is added and pushed. -/
theorem leads_string {value : String} {span : Span} :
    Leads context (string value span) before done after ↔
      ∃ index strings,
        before.strings.add context.limits.maxConstants value = (some index, strings) ∧
          after = Compilation.emit { before with strings } .pushString index :=
  leads_named

/-- Loading a variable from its place. -/
theorem leads_load {place : Place} {name : String} {span : Span} :
    Leads context (load place name span) before done after ↔
      match place with
      | .slot index => after = before.emit .loadLocal index
      | .capture index => after = before.emit .loadUpvalue index
      | .global =>
          ∃ index strings,
            before.strings.add context.limits.maxConstants name = (some index, strings) ∧
              after = Compilation.emit { before with strings } .loadGlobal index := by
  cases place with
  | slot index => exact leads_emit
  | capture index => exact leads_emit
  | global => exact leads_named

/-- Storing into a variable at its place. -/
theorem leads_store {place : Place} {name : String} {span : Span}
    (leads : Leads context (store place name span) before done after) :
    match place with
    | .slot index => after = before.emit .storeLocal index
    | .capture index => after = before.emit .storeUpvalue index
    | .global =>
        ∃ index strings,
          before.strings.add context.limits.maxConstants name = (some index, strings) ∧
            after = Compilation.emit { before with strings } .storeGlobal index := by
  cases place with
  | slot index => exact leads_emit.mp leads
  | capture index => exact leads_emit.mp leads
  | global =>
      simp only [store] at leads
      obtain ⟨_, _, got, rest⟩ := leads_bind.mp leads
      obtain ⟨_, rfl⟩ := leads_get.mp got
      obtain ⟨_, _, got, rest⟩ := leads_bind.mp rest
      obtain ⟨_, rfl⟩ := leads_read.mp got
      split at rest
      · exact leads_named.mp rest
      · exact absurd rest not_leads_complain

/-- A name is resolved and loaded. -/
theorem leads_name {ident : String} {span : Span} :
    Leads context (expr (.name ident span)) before done after ↔
      ∃ place middle, Leads context (resolve ident span) before place middle ∧
        Leads context (load place ident span) middle done after := by
  rw [expr, leads_bind]

/-- An operation follows its operand. -/
theorem leads_unary {op : UnaryOp} {operand : Expr} :
    Leads context (expr (.unary op operand)) before done after ↔
      ∃ middle, Leads context (expr operand) before () middle ∧ after = middle.emit op.opcode := by
  simp only [expr, leads_seq, leads_emit]

/-- Or both of its operands. -/
theorem leads_binary {op : BinaryOp} {left right : Expr} :
    Leads context (expr (.binary op left right)) before done after ↔
      ∃ first, Leads context (expr left) before () first ∧
        ∃ second, Leads context (expr right) first () second ∧
          after = second.emit op.opcode := by
  simp only [expr, leads_seq, leads_emit]

/-- The right operand of a logical operator is jumped over. -/
theorem leads_logical {op : LogicalOp} {left right : Expr} :
    Leads context (expr (.logical op left right)) before done after ↔
      ∃ first, Leads context (expr left) before () first ∧
        ∃ second,
          Leads context (expr right) (first.addLabel.emitJump op.jump first.nextLabel) () second ∧
            after = second.placeLabel first.nextLabel := by
  simp only [expr, leads_seq, @leads_bind Label, leads_newLabel, leads_emitJump,
    leads_placeLabel]
  constructor
  · rintro ⟨first, left, _, _, ⟨rfl, rfl⟩, _, rfl, second, right, rfl⟩
    exact ⟨first, left, second, right, rfl⟩
  · rintro ⟨first, left, second, right, rfl⟩
    exact ⟨first, left, _, _, ⟨rfl, rfl⟩, _, rfl, second, right, rfl⟩

/-- The state behind the test of a conditional expression: two labels, and a jump to the first. -/
def forked (tested : Compilation) : Compilation :=
  tested.addLabel.addLabel.emitJump .jumpIfFalse tested.nextLabel

/-- The state between the branches of a conditional expression. -/
def between (tested first : Compilation) : Compilation :=
  ((first.emitJump .jump tested.addLabel.nextLabel).placeLabel tested.nextLabel).setDepth
    (forked tested).assembler.depth

theorem leads_conditional {condition whenTrue whenFalse : Expr} :
    Leads context (expr (.conditional condition whenTrue whenFalse)) before done after ↔
      ∃ tested, Leads context (expr condition) before () tested ∧
        ∃ first, Leads context (expr whenTrue) (forked tested) () first ∧
          ∃ second, Leads context (expr whenFalse) (between tested first) () second ∧
            after = second.placeLabel tested.addLabel.nextLabel := by
  simp only [expr, leads_seq, @leads_bind Label, @leads_bind Int, leads_newLabel, leads_emitJump,
    leads_placeLabel, leads_depth, leads_setDepth]
  constructor
  · rintro ⟨tested, condition, _, _, ⟨rfl, rfl⟩, _, _, ⟨rfl, rfl⟩, _, rfl, _, _, ⟨rfl, rfl⟩, first,
      true_, _, rfl, _, rfl, _, rfl, second, false_, rfl⟩
    exact ⟨tested, condition, first, true_, second, false_, rfl⟩
  · rintro ⟨tested, condition, first, true_, second, false_, rfl⟩
    exact ⟨tested, condition, _, _, ⟨rfl, rfl⟩, _, _, ⟨rfl, rfl⟩, _, rfl, _, _, ⟨rfl, rfl⟩, first,
      true_, _, rfl, _, rfl, _, rfl, second, false_, rfl⟩

theorem leads_assignName {ident : String} {span : Span} {value : Expr} :
    Leads context (expr (.assignName ident span none value)) before done after ↔
      ∃ place first, Leads context (resolve ident span) before place first ∧
        ∃ second, Leads context (expr value) first () second ∧
          Leads context (store place ident span) second done after := by
  simp only [expr, @leads_bind Place, leads_seq]

/-- With an operator it is also loaded before. -/
theorem leads_updateName {ident : String} {span : Span} {op : BinaryOp} {value : Expr} :
    Leads context (expr (.assignName ident span (some op) value)) before done after ↔
      ∃ place first, Leads context (resolve ident span) before place first ∧
        ∃ loaded, Leads context (load place ident span) first () loaded ∧
          ∃ second, Leads context (expr value) loaded () second ∧
            Leads context (store place ident span) (second.emit op.opcode) done after := by
  simp only [expr, @leads_bind Place, leads_seq, leads_emit, exists_eq_left]

theorem leads_element {container key : Expr} :
    Leads context (expr (.element container key)) before done after ↔
      ∃ first, Leads context (expr container) before () first ∧
        ∃ second, Leads context (expr key) first () second ∧ after = second.emit .getElem := by
  simp only [expr, leads_seq, leads_emit]

theorem leads_assignElement {container key value : Expr} :
    Leads context (expr (.assignElement container key none value)) before done after ↔
      ∃ first, Leads context (expr container) before () first ∧
        ∃ second, Leads context (expr key) first () second ∧
          ∃ third, Leads context (expr value) second () third ∧ after = third.emit .setElem := by
  simp only [expr, leads_seq, leads_emit]

/-- With an operator the element is loaded in between. -/
theorem leads_updateElement {container key value : Expr} {op : BinaryOp} :
    Leads context (expr (.assignElement container key (some op) value)) before done after ↔
      ∃ first, Leads context (expr container) before () first ∧
        ∃ second, Leads context (expr key) first () second ∧
          ∃ third, Leads context (expr value) ((second.emit .dup2).emit .getElem) () third ∧
            after = (third.emit op.opcode).emit .setElem := by
  simp only [expr, leads_seq, leads_emit, exists_eq_left]

theorem leads_call {callee : Expr} {args : List Expr} {span : Span} :
    Leads context (expr (.call callee args span)) before done after ↔
      ∃ first, Leads context (expr callee) before () first ∧
        ∃ second, Leads context (exprs args) first () second ∧
          args.length ≤ context.limits.maxLocals ∧
            after = second.emit .call (UInt16.ofNat args.length) := by
  simp only [expr, leads_seq, @leads_bind CompileContext, leads_read]
  constructor
  · rintro ⟨first, callee, second, args, _, _, ⟨rfl, rfl⟩, leads⟩
    split at leads
    · exact absurd leads not_leads_complain
    · exact ⟨first, callee, second, args, by omega, leads_emit.mp leads⟩
  · rintro ⟨first, callee, second, args, few, same⟩
    refine ⟨first, callee, second, args, _, _, ⟨rfl, rfl⟩, ?_⟩
    rw [if_neg (by omega), leads_emit]
    exact same

/-- An array has at most 65535 elements. -/
theorem leads_array {elements : List Expr} {span : Span} :
    Leads context (expr (.array elements span)) before done after ↔
      ∃ middle, Leads context (exprs elements) before () middle ∧ elements.length ≤ 65535 ∧
        after = middle.emit .makeArray (UInt16.ofNat elements.length) := by
  simp only [expr, leads_seq]
  constructor
  · rintro ⟨middle, elements, leads⟩
    split at leads
    · exact absurd leads not_leads_complain
    · exact ⟨middle, elements, by omega, leads_emit.mp leads⟩
  · rintro ⟨middle, elements, few, same⟩
    refine ⟨middle, elements, ?_⟩
    rw [if_neg (by omega), leads_emit]
    exact same

theorem leads_object {properties : List Entry} {span : Span} :
    Leads context (expr (.object properties span)) before done after ↔
      ∃ middle, Leads context (entries properties) before () middle ∧
        properties.length ≤ 32767 ∧
          after = middle.emit .makeObject (UInt16.ofNat properties.length) := by
  simp only [expr, leads_seq]
  constructor
  · rintro ⟨middle, properties, leads⟩
    split at leads
    · exact absurd leads not_leads_complain
    · exact ⟨middle, properties, by omega, leads_emit.mp leads⟩
  · rintro ⟨middle, properties, few, same⟩
    refine ⟨middle, properties, ?_⟩
    rw [if_neg (by omega), leads_emit]
    exact same

theorem leads_exprs_cons {first : Expr} {rest : List Expr} :
    Leads context (exprs (first :: rest)) before done after ↔
      ∃ middle, Leads context (expr first) before () middle ∧
        Leads context (exprs rest) middle done after := by
  rw [exprs, leads_seq]

theorem leads_exprs_nil :
    Leads context (exprs []) before done after ↔ before = after := by
  simp only [exprs, leads_pure, true_and]

theorem leads_entries_nil :
    Leads context (entries []) before done after ↔ before = after := by
  simp only [entries, leads_pure, true_and]

theorem leads_entries_cons {key : String} {span : Span} {value : Expr} {rest : List Entry} :
    Leads context (entries (.property key span value :: rest)) before done after ↔
      ∃ named, Leads context (string key span) before () named ∧
        ∃ middle, Leads context (expr value) named () middle ∧
          Leads context (entries rest) middle done after := by
  simp only [entries, entry, leads_seq]
  constructor
  · rintro ⟨middle, ⟨named, key, value⟩, rest⟩
    exact ⟨named, key, middle, value, rest⟩
  · rintro ⟨named, key, middle, value, rest⟩
    exact ⟨middle, ⟨named, key, value⟩, rest⟩

end Compiling

theorem leads_of_compile {bytes : List UInt8} {limits : CompileLimits}
    {isKnownGlobal : String → Bool} {program : Program}
    (compiled : compile bytes limits isKnownGlobal = .ok program) :
    ∃ done, Compiling.Leads { limits, isKnownGlobal }
        (Compiling.unit (UnitTree.ofTokens limits.maxExprDepth (TokenStream.ofBytes bytes)))
        .start () done ∧
      program = ⟨done.numbers.items, done.strings.items, done.functions⟩ := by
  unfold compile at compiled
  simp only [bind, Except.bind] at compiled
  split at compiled
  · cases compiled
  · rename_i pair ran
    exact ⟨pair.2, ran, (Except.ok.inj compiled).symm⟩

end PocketScript
