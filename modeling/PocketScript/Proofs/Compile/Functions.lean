import PocketScript.Proofs.Compile.Expressions

/-!
# Compiled statements have their shape

What the compilation of a statement adds to a state (`Compilation.StmtShape`), and from there what
that of a function does: the code of its body stays by itself, and becomes an entry of the table of
functions when it is complete (`Compilation.FunctionShape.of_parts`).
-/

namespace PocketScript

namespace Compilation

variable {context : CompileContext} {before first second third middle after state : Compilation}
  {code : CompleteCode}

/-- What the compilation of a statement does to a state at least. -/
structure Extends (before after : Compilation) : Prop where
  grows : Grows before after
  functions : FunctionsGrow before after
  scopes : Scopes.Grows before.scopes after.scopes

/-- What only adds code also extends the state. -/
theorem Adds.extends (adds : Adds before after) : Extends before after :=
  ⟨adds.grows, adds.functions, adds.steady.grows⟩

/-- Nothing has to be done. -/
theorem Extends.refl (state : Compilation) : Extends state state := (Adds.refl state).extends

/-- One extension may follow another. -/
theorem Extends.trans (one : Extends before middle) (two : Extends middle after) :
    Extends before after :=
  ⟨one.grows.trans two.grows, one.functions.trans two.functions, one.scopes.trans two.scopes⟩

/-- Code may be added to what was extended. -/
theorem Extends.adds (extended : Extends before middle) (added : Adds middle after) :
    Extends before after :=
  extended.trans added.extends

/-- An instruction may be emitted behind it. -/
theorem Extends.emit (extended : Extends before after) (op : Opcode) (a : UInt16 := 0)
    (b : UInt16 := 0) : Extends before (after.emit op a b) :=
  extended.adds ((Adds.refl after).emit op a b)

/-- And so may a jump, wherever it goes. -/
theorem Extends.emitJump (extended : Extends before after) (op : Opcode) (target : Label) :
    Extends before (after.emitJump op target) :=
  extended.adds ((Adds.refl after).emitJump op target)

/-- A new label extends the state. -/
theorem Extends.addLabel (extended : Extends before after) : Extends before after.addLabel :=
  extended.adds (Adds.refl after).addLabel

/-- To correct the depth of the stack changes no code. -/
theorem Extends.setDepth (extended : Extends before after) (depth : Int) :
    Extends before (after.setDepth depth) :=
  extended.adds ((Adds.refl after).setDepth depth)

/-- Only a label that is new since then may be placed, as others may stand already. -/
theorem Extends.placeLabel {label : Label} (extended : Extends before after)
    (new : before.assembler.labels.size ≤ label.index) :
    Extends before (after.placeLabel label) :=
  ⟨extended.grows.placeLabel new, extended.functions, extended.scopes⟩

/-- What is done within a loop extends what was there before the loop. -/
theorem Extends.leaving {labels : LoopLabels} (extended : Extends (before.entering labels) after) :
    Extends before (after.leaving before) :=
  ⟨extended.grows.leaving, extended.functions, extended.scopes⟩

/-- A state that is a part of some complete code whose operands may refer to anything. -/
structure Covered (state : Compilation) (code : CompleteCode) : Prop where
  within : Within state code
  free : ∀ ident place, code.resolves ident place
  small : code.assembler.pending.size ≤ 65535

/-- Code that covers a state fits what the state has collected. -/
theorem Covered.fits (covered : Covered state code) : Fits state code :=
  ⟨covered.within, fun ident place _ => covered.free ident place, covered.small⟩

/-- Code that covers a later state covers an earlier one. -/
theorem Covered.of_grows (covered : Covered after code) (grows : Grows before after) :
    Covered before code :=
  ⟨covered.within.of_grows grows, covered.free, covered.small⟩

/-- And so before an instruction. -/
theorem Covered.of_emit {op : Opcode} {a b : UInt16} (covered : Covered (state.emit op a b) code) :
    Covered state code :=
  covered.of_grows (grows_emit _ _ _ _)

/-- Before a jump. -/
theorem Covered.of_emitJump {op : Opcode} {target : Label}
    (covered : Covered (state.emitJump op target) code) : Covered state code :=
  covered.of_grows (grows_emitJump _ _ _)

/-- Before the depth is corrected. -/
theorem Covered.of_setDepth {depth : Int} (covered : Covered (state.setDepth depth) code) :
    Covered state code :=
  covered.of_grows (grows_setDepth _ _)

/-- Before a label is added. -/
theorem Covered.of_addLabel (covered : Covered state.addLabel code) : Covered state code :=
  covered.of_grows (grows_addLabel _)

/-- And within the loop that is left. -/
theorem Covered.of_leaving {outer : Compilation} (covered : Covered (state.leaving outer) code) :
    Covered state code :=
  ⟨covered.within.of_leaving, covered.free, covered.small⟩

/-- The code holds an instruction where it was emitted. -/
theorem Covered.holds {op : Opcode} {a b : UInt16} (covered : Covered (state.emit op a b) code) :
    code.Holds state.size op a b :=
  covered.within.emitted.1

/-- It holds a jump where that was emitted, to wherever the label is placed. -/
theorem Covered.jumpsTo {op : Opcode} {target : Label}
    (covered : Covered (state.emitJump op target) code) : code.JumpsTo state.size op target :=
  covered.within.emittedJump

/-- It has a label where that was placed, if nobody had placed the label before. -/
theorem Covered.placed {label : Label} (covered : Covered (state.placeLabel label) code)
    (awaits : Awaits state label) : Covered state code ∧ code.Places label state.size := by
  obtain ⟨within, places⟩ := covered.within.placed awaits
  exact ⟨⟨within, covered.free, covered.small⟩, places⟩

/-- The compilation of a statement adds code of the shape of the statement, which leaves no operand.
-/
structure StmtShape (tree : Stmt) (before after : Compilation) : Prop where
  extended : Extends before after
  layout : ∀ code, Covered after code → before.assembler.depth = 0 → after.assembler.depth = 0 ∧
    ∃ flow, code.StmtAt before.loops tree flow before.size after.size

/-- Likewise for statements, one behind the other. -/
structure StmtsShape (trees : List Stmt) (before after : Compilation) : Prop where
  extended : Extends before after
  layout : ∀ code, Covered after code → before.assembler.depth = 0 → after.assembler.depth = 0 ∧
    ∃ flow, code.StmtsAt before.loops trees flow before.size after.size

/-- Likewise for a declarator. -/
structure DeclaratorShape (tree : Declarator) (before after : Compilation) : Prop where
  extended : Extends before after
  layout : ∀ code, Covered after code → before.assembler.depth = 0 → after.assembler.depth = 0 ∧
    ∃ flow, code.DeclaratorAt tree flow before.size after.size

/-- Likewise for declarators. -/
structure DeclaratorsShape (trees : List Declarator) (before after : Compilation) : Prop where
  extended : Extends before after
  layout : ∀ code, Covered after code → before.assembler.depth = 0 → after.assembler.depth = 0 ∧
    ∃ flow, code.DeclaratorsAt trees flow before.size after.size

/-- Likewise for what a `for` loop starts with. -/
structure ForStartShape (tree : ForStart) (before after : Compilation) : Prop where
  extended : Extends before after
  layout : ∀ code, Covered after code → before.assembler.depth = 0 → after.assembler.depth = 0 ∧
    ∃ flow, code.ForStartAt tree flow before.size after.size

/-- No statements add nothing. -/
theorem StmtsShape.nil (state : Compilation) : StmtsShape [] state state :=
  ⟨.refl state, fun _ _ start => ⟨start, _, .nil⟩⟩

/-- A statement stands in front of those that follow it. -/
theorem StmtsShape.cons {tree : Stmt} {trees : List Stmt} (one : StmtShape tree before middle)
    (rest : StmtsShape trees middle after) : StmtsShape (tree :: trees) before after where
  extended := one.extended.trans rest.extended
  layout code covered start := by
    obtain ⟨depthOne, flow, atOne⟩ :=
      one.layout code (covered.of_grows rest.extended.grows) start
    obtain ⟨depthRest, flows, atRest⟩ := rest.layout code covered depthOne
    rw [one.extended.grows.loops] at atRest
    exact ⟨depthRest, _, .cons atOne atRest⟩

/-- No variables add nothing. -/
theorem DeclaratorsShape.nil (state : Compilation) : DeclaratorsShape [] state state :=
  ⟨.refl state, fun _ _ start => ⟨start, _, .nil⟩⟩

/-- A variable stands in front of those that follow it. -/
theorem DeclaratorsShape.cons {tree : Declarator} {trees : List Declarator}
    (one : DeclaratorShape tree before middle) (rest : DeclaratorsShape trees middle after) :
    DeclaratorsShape (tree :: trees) before after where
  extended := one.extended.trans rest.extended
  layout code covered start := by
    obtain ⟨depthOne, flow, atOne⟩ :=
      one.layout code (covered.of_grows rest.extended.grows) start
    obtain ⟨depthRest, flows, atRest⟩ := rest.layout code covered depthOne
    exact ⟨depthRest, _, .cons atOne atRest⟩

/-! ## Values and where they go -/

/-- Putting a value somewhere takes its operand. -/
theorem sink_shape (state : Compilation) (sink : Sink) :
    Adds state (state.sinking sink) ∧
      (state.assembler.depth = 1 → (state.sinking sink).assembler.depth = 0) ∧
        ∀ code, Covered (state.sinking sink) code →
          code.SinkAt sink state.size (state.sinking sink).size := by
  cases sink with
  | drop =>
      refine ⟨(Adds.refl state).emit _, fun start => ?_, fun code covered => ?_⟩
      · rw [sinking, depth_emit, start]
        rfl
      · exact ⟨size_emit _ _ _ _, covered.holds⟩
  | slot slot =>
      refine ⟨((Adds.refl state).emit _ _).emit _, fun start => ?_, fun code covered => ?_⟩
      · rw [sinking, depth_emit, depth_emit, start]
        rfl
      · have last := covered.holds
        rw [size_emit] at last
        exact ⟨by rw [sinking, size_emit, size_emit], covered.of_emit.holds, last⟩
  | global name =>
      refine ⟨(Adds.refl state).emit _ _, fun start => ?_, fun code covered => ?_⟩
      · rw [sinking, depth_emit, start]
        rfl
      · exact ⟨size_emit _ _ _ _, covered.holds⟩

variable {value : Expr}

/-- The code of a value, which lies somewhere, and of where the value goes. -/
theorem sunk {sink : Sink} (lies : CompleteCode → Nat → Nat → Nat → Prop)
    (extended : Extends before first) (assembler : first.assembler = before.assembler)
    (adds : Adds first second)
    (layout : ∀ code, Fits second code → ∀ depth : Nat, first.assembler.depth = depth →
      second.assembler.depth = (depth + 1 : Nat) ∧ lies code depth first.size second.size) :
    Extends before (second.sinking sink) ∧
      ∀ code, Covered (second.sinking sink) code → before.assembler.depth = 0 →
        (second.sinking sink).assembler.depth = 0 ∧ lies code 0 before.size second.size ∧
          code.SinkAt sink second.size (second.sinking sink).size := by
  obtain ⟨sunken, depth, sinkAt⟩ := sink_shape second sink
  refine ⟨(extended.adds adds).adds sunken, fun code covered start => ?_⟩
  have fits := (covered.of_grows sunken.grows).fits
  obtain ⟨depthInner, at_⟩ := layout code fits 0 (by rw [assembler, start]; rfl)
  rw [size_of_assembler assembler] at at_
  exact ⟨depth depthInner, at_, sinkAt code covered⟩

/-- The value of an expression goes where the sink says, and the stack is as before. -/
theorem StmtShape.expression {sink : Sink} (inner : ExprShape value before middle) :
    StmtShape (.expression value) before (middle.sinking sink) := by
  obtain ⟨extended, layout⟩ := sunk (·.ExprAt · value) (.refl before) rfl inner.adds inner.layout
  refine ⟨extended, fun code covered start => ?_⟩
  obtain ⟨depth, at_, sinkAt⟩ := layout code covered start
  exact ⟨depth, _, .expression at_ sinkAt⟩

/-- A declaration is made of its variables. -/
theorem StmtShape.declare {names : List Declarator} (inner : DeclaratorsShape names before after) :
    StmtShape (.declare names) before after := by
  refine ⟨inner.extended, fun code covered start => ?_⟩
  obtain ⟨depth, flow, at_⟩ := inner.layout code covered start
  exact ⟨depth, flow, .declare at_⟩

/-- A function definition is a function whose value goes to the place of its name. -/
theorem StmtShape.define {name : String} {span : Span} {body : Definition} {sink : Sink}
    (extended : Extends before first) (assembler : first.assembler = before.assembler)
    (inner : FunctionShape first second) :
    StmtShape (.define name span body) before (second.sinking sink) := by
  obtain ⟨extended, layout⟩ := sunk (·.FunctionAt ·) extended assembler inner.adds inner.layout
  refine ⟨extended, fun code covered start => ?_⟩
  obtain ⟨depth, at_, sinkAt⟩ := layout code covered start
  exact ⟨depth, _, .define at_ sinkAt⟩

/-- A block is made of its statements. -/
theorem StmtShape.block {body : List Stmt} (inner : StmtsShape body before after) :
    StmtShape (.block body) before after := by
  refine ⟨inner.extended, fun code covered start => ?_⟩
  obtain ⟨depth, flow, at_⟩ := inner.layout code covered start
  exact ⟨depth, flow, .block at_⟩

/-- Giving a name a slot changes nothing but the scopes. -/
theorem extends_declareSlot {name : String} {span : Span} {slot : UInt16}
    (leads : Compiling.Leads context (Compiling.declareSlot name span) before slot after) :
    Extends before after ∧ after.assembler = before.assembler ∧ after.loops = before.loops := by
  have declared := Compiling.leads_declareSlot.mp leads
  split at declared
  · obtain ⟨-, rfl⟩ := declared
    exact ⟨.refl after, rfl, rfl⟩
  · rename_i scope outer listed
    obtain ⟨scope', -, rfl⟩ := declared
    refine ⟨⟨grows_scopes _ _, .of_eq rfl, ?_⟩, rfl, rfl⟩
    rw [listed]
    exact ⟨_, _, rfl, .refl outer⟩

/-- A new string constant adds no code. -/
theorem extends_addString {value : String} {span : Span} {index : UInt16}
    (leads : Compiling.Leads context (Compiling.addString value span) before index after) :
    Extends before after ∧ after.assembler = before.assembler ∧ after.loops = before.loops := by
  obtain ⟨strings, added, rfl⟩ := Compiling.leads_addString.mp leads
  exact ⟨(adds_addString added).extends, rfl, rfl⟩

/-- Nor does a new global. -/
theorem extends_addGlobal (state : Compilation) (name : String) :
    Extends state (state.addGlobal name) :=
  ⟨grows_addGlobal _ _, .of_eq rfl, (Scopes.Steady.refl _).grows⟩

/-- So the place of a name adds none. -/
theorem extends_placed {name : String} {span : Span} {sink : Sink}
    (places : Compiling.Placed context name span before sink middle) :
    Extends before middle ∧ middle.assembler = before.assembler := by
  cases places with
  | global _ added =>
      obtain ⟨extended, assembler, -⟩ := extends_addString added
      exact ⟨extended.trans (extends_addGlobal _ name), assembler⟩
  | slot _ declared =>
      obtain ⟨extended, assembler, -⟩ := extends_declareSlot declared
      exact ⟨extended, assembler⟩

/-- A local variable without a value has no code. -/
theorem DeclaratorShape.empty {name : String} {span : Span} (extended : Extends before after)
    (assembler : after.assembler = before.assembler) :
    DeclaratorShape (.variable name span none) before after := by
  refine ⟨extended, fun code covered start => ⟨by rw [assembler, start], .nothing, ?_⟩⟩
  rw [size_of_assembler assembler]
  exact .empty

/-- A global without a value is declared by one instruction. -/
theorem DeclaratorShape.declared {name : String} {span : Span} {index : UInt16}
    (extended : Extends before middle) (assembler : middle.assembler = before.assembler) :
    DeclaratorShape (.variable name span none) before (middle.emit .declareGlobal index) := by
  refine ⟨extended.emit _ _, fun code covered start => ⟨?_, .declare index, ?_⟩⟩
  · rw [depth_emit, assembler, start]
    rfl
  · have holds := covered.holds
    rw [size_of_assembler assembler] at holds
    rw [size_emit, size_of_assembler assembler]
    exact .declared holds

/-- The value of a variable goes to its place. -/
theorem DeclaratorShape.bound {name : String} {span : Span} {sink : Sink}
    (extended : Extends before first) (assembler : first.assembler = before.assembler)
    (inner : ExprShape value first second) :
    DeclaratorShape (.variable name span (some value)) before (second.sinking sink) := by
  obtain ⟨extended, layout⟩ := sunk (·.ExprAt · value) extended assembler inner.adds inner.layout
  refine ⟨extended, fun code covered start => ?_⟩
  obtain ⟨depth, at_, sinkAt⟩ := layout code covered start
  exact ⟨depth, _, .value at_ sinkAt⟩

/-! ## Branches -/

variable {condition : Expr} {whenTrue whenFalse : Stmt}

/-- The state behind a test that a label is jumped to from when it fails. -/
theorem guarded_shape (one : ExprShape condition before first) :
    Extends before (Compiling.guarded first) ∧
      Awaits (Compiling.guarded first) first.nextLabel ∧
        (Compiling.guarded first).size = first.size + 1 ∧
          (Compiling.guarded first).loops = before.loops ∧
            ∀ code, Covered (Compiling.guarded first) code → before.assembler.depth = 0 →
              (Compiling.guarded first).assembler.depth = 0 ∧
                code.ExprAt 0 condition before.size first.size ∧
                  code.JumpsTo first.size .jumpIfFalse first.nextLabel := by
  refine ⟨one.adds.extends.addLabel.emitJump _ _,
    (awaits_addLabel first).mono (grows_emitJump _ _ _), size_emitJump _ _ _,
    one.adds.grows.loops, fun code covered start => ?_⟩
  obtain ⟨depthOne, atOne⟩ :=
    one.layout code covered.of_emitJump.of_addLabel.fits 0 (by rw [start]; rfl)
  refine ⟨?_, atOne, covered.jumpsTo⟩
  rw [Compiling.guarded, depth_emitJump, depth_addLabel, depthOne]
  rfl

/-- Without an `else` a failing test jumps behind the branch. -/
theorem StmtShape.branch (one : ExprShape condition before first)
    (two : StmtShape whenTrue (Compiling.guarded first) second) :
    StmtShape (.branch condition whenTrue none) before (second.placeLabel first.nextLabel) := by
  obtain ⟨extended, awaits, size, loops, guarded⟩ := guarded_shape one
  refine ⟨(extended.trans two.extended).placeLabel one.adds.new, fun code covered start => ?_⟩
  obtain ⟨coveredTwo, places⟩ := covered.placed (awaits.mono two.extended.grows)
  obtain ⟨depthOne, atOne, jumps⟩ :=
    guarded code (coveredTwo.of_grows two.extended.grows) start
  obtain ⟨depthTwo, flow, atTwo⟩ := two.layout code coveredTwo depthOne
  rw [size, loops] at atTwo
  exact ⟨depthTwo, _, .branch atOne ⟨_, jumps, places⟩ atTwo⟩

/-- With an `else` a failing test jumps to it, and the first branch jumps behind it. -/
theorem StmtShape.branchElse (one : ExprShape condition before first)
    (two : StmtShape whenTrue (Compiling.guarded first) second)
    (three : StmtShape whenFalse (Compiling.otherwise first second) third) :
    StmtShape (.branch condition whenTrue (some whenFalse)) before
      (third.placeLabel second.nextLabel) := by
  obtain ⟨extended, awaits, size, loops, guarded⟩ := guarded_shape one
  have upToTwo := extended.trans two.extended
  have upToJump := upToTwo.addLabel.emitJump .jump second.nextLabel
  have upToThree := (upToJump.placeLabel one.adds.new).trans three.extended
  refine ⟨upToThree.placeLabel upToTwo.grows.labelCount_le, fun code covered start => ?_⟩
  have toJump : Grows second (second.addLabel.emitJump .jump second.nextLabel) :=
    (grows_addLabel _).trans (grows_emitJump _ _ _)
  -- The label of the other branch is older than the one behind both.
  have older : second.nextLabel.index ≠ first.nextLabel.index := by
    have guardedLabels := two.extended.grows.labelCount_le
    have : (Compiling.guarded first).assembler.labels.size = first.assembler.labels.size + 1 :=
      labelCount_addLabel first
    rw [index_nextLabel, index_nextLabel]
    omega
  have doneAwaits : Awaits (Compiling.otherwise first second) second.nextLabel :=
    (labels_placeLabel _ _ _ older).trans
      ((awaits_addLabel second).mono (grows_emitJump _ .jump second.nextLabel))
  obtain ⟨coveredThree, donePlace⟩ := covered.placed (doneAwaits.mono three.extended.grows)
  obtain ⟨coveredJump, otherPlace⟩ := (coveredThree.of_grows three.extended.grows).placed
    ((awaits.mono two.extended.grows).mono toJump)
  have coveredTwo := coveredJump.of_grows toJump
  obtain ⟨depthOne, atOne, jumps⟩ := guarded code (coveredTwo.of_grows two.extended.grows) start
  obtain ⟨depthTwo, flow, atTwo⟩ := two.layout code coveredTwo depthOne
  have depthOther : (Compiling.otherwise first second).assembler.depth = 0 := by
    rw [Compiling.otherwise, depth_placeLabel, depth_emitJump, depth_addLabel, depthTwo]
    rfl
  obtain ⟨depthThree, flow', atThree⟩ := three.layout code coveredThree depthOther
  have loopsThree : (Compiling.otherwise first second).loops = before.loops :=
    two.extended.grows.loops.trans loops
  have sizeThree : (Compiling.otherwise first second).size = second.size + 1 := size_emitJump _ _ _
  rw [size, loops] at atTwo
  rw [sizeThree, loopsThree] at atThree
  rw [size_emitJump, size_addLabel] at otherPlace
  exact ⟨depthThree, _, .branchElse atOne ⟨_, jumps, otherPlace⟩ atTwo
    ⟨_, coveredJump.jumpsTo, donePlace⟩ atThree⟩

/-! ## Jumps out of loops and functions -/

/-- A `break` jumps to the end of the innermost loop. -/
theorem StmtShape.breakLoop {labels : LoopLabels} {outer : List LoopLabels} {span : Span}
    (inside : before.loops = labels :: outer) :
    StmtShape (.breakLoop span) before
      ((before.emitJump .jump labels.breakTo).setDepth before.assembler.depth) := by
  refine ⟨((Extends.refl before).emitJump _ _).setDepth _, fun code covered start => ?_⟩
  refine ⟨start, .breakLoop, ?_⟩
  rw [inside, size_setDepth, size_emitJump]
  exact .breakLoop covered.of_setDepth.jumpsTo

/-- A `continue` jumps to where its next round begins. -/
theorem StmtShape.continueLoop {labels : LoopLabels} {outer : List LoopLabels} {span : Span}
    (inside : before.loops = labels :: outer) :
    StmtShape (.continueLoop span) before
      ((before.emitJump .jump labels.continueTo).setDepth before.assembler.depth) := by
  refine ⟨((Extends.refl before).emitJump _ _).setDepth _, fun code covered start => ?_⟩
  refine ⟨start, .continueLoop, ?_⟩
  rw [inside, size_setDepth, size_emitJump]
  exact .continueLoop covered.of_setDepth.jumpsTo

/-- Without a value a `return` is one instruction. -/
theorem StmtShape.returnNothing :
    StmtShape (.return_ none) before
      ((before.emit .retUndefined).setDepth before.assembler.depth) := by
  refine ⟨((Extends.refl before).emit _).setDepth _, fun code covered start => ?_⟩
  refine ⟨start, .return_ none, ?_⟩
  rw [size_setDepth, size_emit]
  exact .returnNothing covered.of_setDepth.holds

/-- With a value it returns what was evaluated. -/
theorem StmtShape.return_ (inner : ExprShape value before middle) :
    StmtShape (.return_ (some value)) before
      ((middle.emit .ret).setDepth before.assembler.depth) := by
  refine ⟨(inner.adds.extends.emit _).setDepth _, fun code covered start => ?_⟩
  obtain ⟨-, at_⟩ :=
    inner.layout code covered.of_setDepth.of_emit.fits 0 (by rw [start]; rfl)
  refine ⟨start, .return_ (some ⟨before.size, middle.size⟩), ?_⟩
  rw [size_setDepth, size_emit]
  exact .return_ at_ covered.of_setDepth.holds

/-! ## Loops -/

/-- The state in front of the test of a loop. -/
theorem looping_shape (state : Compilation) :
    Extends state (Compiling.looping state) ∧
      Awaits (Compiling.looping state) (Compiling.endLabel state) ∧
        (Compiling.looping state).assembler.depth = state.assembler.depth ∧
          state.assembler.labels.size ≤ (Compiling.endLabel state).index ∧
            ∀ code, Covered (Compiling.looping state) code →
              Covered state code ∧ code.Places state.nextLabel state.size := by
  have later : (Compiling.endLabel state).index = state.assembler.labels.size + 1 :=
    labelCount_addLabel state
  refine ⟨(Extends.refl state).addLabel.addLabel.placeLabel (Nat.le_refl _), ?_, rfl, by omega,
    fun code covered => ?_⟩
  · have other : (Compiling.endLabel state).index ≠ state.nextLabel.index := by
      rw [later, index_nextLabel]
      omega
    exact (labels_placeLabel _ _ _ other).trans (awaits_addLabel state.addLabel)
  · obtain ⟨covered, places⟩ :=
      covered.placed ((awaits_addLabel state).mono (grows_addLabel _))
    exact ⟨covered.of_addLabel.of_addLabel, places⟩

/-- What the test of a loop adds. -/
structure TestShape (tree : Option Expr) (started tested : Compilation) : Prop where
  adds : Adds (Compiling.looping started) tested
  layout : ∀ code, Covered tested code → started.assembler.depth = 0 →
    tested.assembler.depth = 0 ∧ ∀ done, code.Places (Compiling.endLabel started) done →
      ∃ test, code.TestAt done tree test started.size tested.size

/-- A loop without a test goes on right away. -/
theorem TestShape.none (started : Compilation) :
    TestShape none started (Compiling.looping started) :=
  ⟨.refl _, fun _ _ start => ⟨start, fun _ _ => ⟨_, .none⟩⟩⟩

/-- A loop with a test ends where it fails. -/
theorem TestShape.some {started : Compilation}
    (inner : ExprShape condition (Compiling.looping started) first) :
    TestShape (some condition) started
      (first.emitJump .jumpIfFalse (Compiling.endLabel started)) := by
  refine ⟨inner.adds.emitJump _ _, fun code covered start => ?_⟩
  obtain ⟨depth, at_⟩ := inner.layout code covered.of_emitJump.fits 0 (by
    rw [(looping_shape started).2.2.1, start]
    rfl)
  refine ⟨?_, fun done places => ⟨.some ⟨started.size, first.size⟩, ?_⟩⟩
  · rw [depth_emitJump, depth]
    rfl
  · rw [size_emitJump]
    exact .some at_ ⟨_, covered.jumpsTo, places⟩

/-- What the step clause of a loop adds, and the label that `continue` leads to. -/
structure StepShape (tree : Option Expr) (started tested stepped : Compilation) (next : Label) :
    Prop where
  adds : Adds tested stepped
  layout : ∀ code, Covered stepped code → tested.assembler.depth = 0 →
    stepped.assembler.depth = 0 ∧ ∀ test, code.Places started.nextLabel test →
      ∃ clause nextIndex, code.Places next nextIndex ∧
        code.StepAt test tree clause nextIndex tested.size stepped.size

/-- Without a step the next round begins with the test. -/
theorem StepShape.none (started tested : Compilation) :
    StepShape none started tested tested started.nextLabel :=
  ⟨.refl _, fun _ _ start => ⟨start, fun test places => ⟨_, test, places, .none⟩⟩⟩

/-- With a step the next round begins there, and the step jumps back to the test. The first round
skips it. -/
theorem StepShape.some {started tested stepped : Compilation} {step : Expr}
    (inner : ExprShape step (Compiling.skipping tested) stepped) :
    StepShape (some step) started tested
      (((stepped.emit .pop).emitJump .jump started.nextLabel).placeLabel tested.nextLabel)
      tested.addLabel.nextLabel := by
  have later : tested.addLabel.nextLabel.index ≠ tested.nextLabel.index := by
    rw [index_nextLabel, index_nextLabel, labelCount_addLabel]
    omega
  have new : tested.assembler.labels.size ≤ tested.addLabel.nextLabel.index := by
    rw [index_nextLabel, labelCount_addLabel]
    omega
  have toSkipping := (((Adds.refl tested).addLabel.addLabel.emitJump .jump
    tested.nextLabel).placeLabel new).trans inner.adds
  refine ⟨((toSkipping.emit _).emitJump _ _).placeLabel (Nat.le_refl _),
    fun code covered start => ?_⟩
  have firstAwaits : Awaits (Compiling.skipping tested) tested.nextLabel := by
    refine (labels_placeLabel _ _ _ (Ne.symm later)).trans ?_
    exact (awaits_addLabel tested).mono ((grows_addLabel _).trans (grows_emitJump _ _ _))
  obtain ⟨coveredJump, firstPlace⟩ := covered.placed (firstAwaits.mono
    ((inner.adds.grows.trans (grows_emit _ _ _ _)).trans (grows_emitJump _ _ _)))
  have coveredStep := coveredJump.of_emitJump.of_emit
  obtain ⟨coveredSkip, nextPlace⟩ := (coveredStep.of_grows inner.adds.grows).placed
    ((awaits_addLabel tested.addLabel).mono (grows_emitJump _ .jump tested.nextLabel))
  have depthSkip : (Compiling.skipping tested).assembler.depth = (0 : Nat) := by
    rw [Compiling.skipping, depth_placeLabel, depth_emitJump, depth_addLabel, depth_addLabel, start]
    rfl
  obtain ⟨depthStep, at_⟩ := inner.layout code coveredStep.fits 0 depthSkip
  refine ⟨?_, fun test testPlace => ?_⟩
  · rw [depth_placeLabel, depth_emitJump, depth_emit, depthStep]
    rfl
  · have sizeSkip : (Compiling.skipping tested).size = tested.size + 1 := size_emitJump _ _ _
    rw [sizeSkip] at at_
    rw [size_emitJump, size_addLabel, size_addLabel] at nextPlace
    rw [size_emitJump, size_emit] at firstPlace
    have back := coveredJump.jumpsTo
    rw [size_emit] at back
    refine ⟨.some ⟨tested.size + 1, stepped.size⟩, _, nextPlace, ?_⟩
    rw [size_placeLabel, size_emitJump, size_emit]
    exact .some ⟨_, coveredSkip.jumpsTo, firstPlace⟩ at_ coveredJump.of_emitJump.holds
      ⟨_, back, testPlace⟩

/-- A `while` loop jumps back to its test behind the body. -/
theorem StmtShape.whileLoop {body : Stmt}
    (one : ExprShape condition (Compiling.looping before) first)
    (two : StmtShape body
      ((first.emitJump .jumpIfFalse (Compiling.endLabel before)).entering
        ⟨Compiling.endLabel before, before.nextLabel⟩) second) :
    StmtShape (.whileLoop condition body) before
      (((second.leaving first).emitJump .jump before.nextLabel).placeLabel
        (Compiling.endLabel before)) := by
  obtain ⟨toTest, awaits, depthTest, new, startCovered⟩ := looping_shape before
  have leaving : Extends (first.emitJump .jumpIfFalse (Compiling.endLabel before))
      (second.leaving first) := two.extended.leaving
  have upToTest := (toTest.adds one.adds).emitJump .jumpIfFalse (Compiling.endLabel before)
  refine ⟨((upToTest.trans leaving).emitJump _ _).placeLabel new, fun code covered start => ?_⟩
  have doneAwaits : Awaits ((second.leaving first).emitJump .jump before.nextLabel)
      (Compiling.endLabel before) :=
    awaits.mono (((one.adds.grows.trans (grows_emitJump _ _ _)).trans leaving.grows).trans
      (grows_emitJump _ _ _))
  obtain ⟨coveredBack, donePlace⟩ := covered.placed doneAwaits
  have coveredBody := coveredBack.of_emitJump.of_leaving
  have coveredTest := coveredBack.of_emitJump.of_grows leaving.grows
  obtain ⟨-, startPlace⟩ := startCovered code (coveredTest.of_emitJump.of_grows one.adds.grows)
  obtain ⟨depthOne, atOne⟩ :=
    one.layout code coveredTest.of_emitJump.fits 0 (by rw [depthTest, start]; rfl)
  have depthBody : ((first.emitJump .jumpIfFalse (Compiling.endLabel before)).entering
      ⟨Compiling.endLabel before, before.nextLabel⟩).assembler.depth = 0 := by
    change (first.emitJump .jumpIfFalse (Compiling.endLabel before)).assembler.depth = 0
    rw [depth_emitJump, depthOne]
    rfl
  obtain ⟨depthTwo, flow, atTwo⟩ := two.layout code coveredBody depthBody
  have sizeBody : ((first.emitJump .jumpIfFalse (Compiling.endLabel before)).entering
      ⟨Compiling.endLabel before, before.nextLabel⟩).size = first.size + 1 := size_emitJump _ _ _
  have loopsBody : ((first.emitJump .jumpIfFalse (Compiling.endLabel before)).entering
      ⟨Compiling.endLabel before, before.nextLabel⟩).loops =
        ⟨Compiling.endLabel before, before.nextLabel⟩ :: before.loops := by
    change _ :: first.loops = _
    rw [one.adds.grows.loops]
    rfl
  rw [sizeBody, loopsBody] at atTwo
  rw [size_emitJump, size_leaving] at donePlace
  refine ⟨?_, .loop (.some ⟨before.size, first.size⟩) .none flow, ?_⟩
  · rw [depth_placeLabel, depth_emitJump]
    change second.assembler.depth + _ = _
    rw [depthTwo]
    rfl
  · rw [size_placeLabel, size_emitJump, size_leaving]
    exact .whileLoop atOne ⟨_, coveredTest.jumpsTo, donePlace⟩ donePlace startPlace atTwo
      ⟨_, coveredBack.jumpsTo, startPlace⟩

/-- A `for` loop has its clauses in front of the body, and jumps to where the next round begins. -/
theorem StmtShape.forLoop {begin : ForStart} {test step : Option Expr} {body : Stmt}
    {started tested stepped repeated : Compilation} {next : Label}
    (zero : ForStartShape begin before started) (one : TestShape test started tested)
    (two : StepShape step started tested stepped next)
    (three : StmtShape body (stepped.entering ⟨Compiling.endLabel started, next⟩) repeated) :
    StmtShape (.forLoop begin test step body) before
      (((repeated.leaving stepped).emitJump .jump next).placeLabel
        (Compiling.endLabel started)) := by
  obtain ⟨toTest, awaits, depthTest, new, startCovered⟩ := looping_shape started
  have leaving : Extends stepped (repeated.leaving stepped) := three.extended.leaving
  have upToStep := ((zero.extended.trans toTest).adds one.adds).adds two.adds
  have newer : before.assembler.labels.size ≤ (Compiling.endLabel started).index :=
    Nat.le_trans zero.extended.grows.labelCount_le new
  refine ⟨((upToStep.trans leaving).emitJump _ _).placeLabel newer, fun code covered start => ?_⟩
  have doneAwaits : Awaits ((repeated.leaving stepped).emitJump .jump next)
      (Compiling.endLabel started) :=
    awaits.mono (((one.adds.grows.trans two.adds.grows).trans leaving.grows).trans
      (grows_emitJump _ _ _))
  obtain ⟨coveredBack, donePlace⟩ := covered.placed doneAwaits
  have coveredBody := coveredBack.of_emitJump.of_leaving
  have coveredStep := coveredBack.of_emitJump.of_grows leaving.grows
  have coveredTest := coveredStep.of_grows two.adds.grows
  obtain ⟨coveredStart, testPlace⟩ := startCovered code (coveredTest.of_grows one.adds.grows)
  obtain ⟨depthStart, first, atStart⟩ := zero.layout code coveredStart start
  obtain ⟨depthTested, atTest⟩ := one.layout code coveredTest depthStart
  obtain ⟨clause, atTest⟩ := atTest _ donePlace
  obtain ⟨depthStepped, atStep⟩ := two.layout code coveredStep depthTested
  obtain ⟨stepClause, nextIndex, nextPlace, atStep⟩ := atStep _ testPlace
  obtain ⟨depthBody, flow, atBody⟩ := three.layout code coveredBody depthStepped
  have loopsBody : (stepped.entering ⟨Compiling.endLabel started, next⟩).loops =
      ⟨Compiling.endLabel started, next⟩ :: before.loops := by
    change _ :: stepped.loops = _
    rw [upToStep.grows.loops]
  rw [size_entering, loopsBody] at atBody
  rw [size_emitJump, size_leaving] at donePlace atTest
  refine ⟨?_, .sequence first (.loop clause stepClause flow), ?_⟩
  · rw [depth_placeLabel, depth_emitJump]
    change repeated.assembler.depth + _ = _
    rw [depthBody]
    rfl
  · rw [size_placeLabel, size_emitJump, size_leaving]
    exact .forLoop atStart atTest atStep donePlace nextPlace atBody
      ⟨_, coveredBack.jumpsTo, nextPlace⟩

/-- A loop may start with nothing. -/
theorem ForStartShape.nothing (state : Compilation) : ForStartShape .nothing state state :=
  ⟨.refl state, fun _ _ start => ⟨start, _, .nothing⟩⟩

/-- Or with variables. -/
theorem ForStartShape.declare {names : List Declarator}
    (inner : DeclaratorsShape names before after) :
    ForStartShape (.declare names) before after := by
  refine ⟨inner.extended, fun code covered start => ?_⟩
  obtain ⟨depth, flow, at_⟩ := inner.layout code covered start
  exact ⟨depth, flow, .declare at_⟩

/-- Or with an expression, whose value is dropped. -/
theorem ForStartShape.evaluate (inner : ExprShape value before middle) :
    ForStartShape (.evaluate value) before (middle.emit .pop) := by
  refine ⟨inner.adds.extends.emit _, fun code covered start => ?_⟩
  obtain ⟨depth, at_⟩ := inner.layout code covered.of_emit.fits 0 (by rw [start]; rfl)
  refine ⟨?_, .evaluate ⟨before.size, middle.size⟩ .drop, ?_⟩
  · rw [depth_emit, depth]
    rfl
  · rw [size_emit]
    exact .evaluate at_ covered.holds

end Compilation

end PocketScript
