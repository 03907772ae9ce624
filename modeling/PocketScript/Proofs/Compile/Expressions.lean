import PocketScript.Proofs.Compile.Shape

/-!
# Compiled expressions have their shape

What the compilation of an expression adds to a state (`Compilation.ExprShape`): it keeps all that
was there, and the instructions it adds have the shape of the expression in every complete code that
they become a part of. One lemma for each form of expression puts the shapes of its parts together.
-/

namespace PocketScript

attribute [grind =] Opcode.stackEffect

theorem UnaryOp.stackEffect_opcode (op : UnaryOp) (a b : UInt16) : op.opcode.stackEffect a b = 0 := by
  cases op <;> rfl

theorem BinaryOp.stackEffect_opcode (op : BinaryOp) (a b : UInt16) :
    op.opcode.stackEffect a b = -1 := by
  cases op <;> rfl

theorem LogicalOp.stackEffect_jump (op : LogicalOp) (a b : UInt16) :
    op.jump.stackEffect a b = -1 := by
  cases op <;> rfl

namespace Compilation

variable {before first second third middle after state : Compilation} {code : CompleteCode}

/-- Functions stay in the table, and those added are complete and have their shape. -/
def FunctionsGrow (before after : Compilation) : Prop :=
  (∀ (index : Nat) function, before.functions[index]? = some function →
    after.functions[index]? = some function) ∧
    ∀ (index : Nat) function, before.functions.size ≤ index →
      after.functions[index]? = some function → function.IsShaped

/-- The table of functions may stay the same. -/
theorem FunctionsGrow.of_eq (same : after.functions = before.functions) :
    FunctionsGrow before after := by
  refine ⟨fun index function found => by rw [same]; exact found, fun index function new found => ?_⟩
  rw [same, Array.getElem?_eq_none new] at found
  cases found

/-- It may grow step by step. -/
theorem FunctionsGrow.trans (one : FunctionsGrow before middle)
    (two : FunctionsGrow middle after) : FunctionsGrow before after := by
  refine ⟨fun index function found => two.1 _ _ (one.1 _ _ found),
    fun index function new found => ?_⟩
  by_cases inside : index < middle.functions.size
  · have there := two.1 _ _ (Array.getElem?_eq_getElem inside)
    rw [there] at found
    injection found with same
    exact one.2 index function new (same ▸ Array.getElem?_eq_getElem inside)
  · exact two.2 index function (by omega) found

/-- What the compilation of an expression does to a state at least. -/
structure Adds (before after : Compilation) : Prop where
  grows : Grows before after
  functions : FunctionsGrow before after
  steady : Scopes.Steady before.scopes after.scopes

/-- Nothing has to be added. -/
theorem Adds.refl (state : Compilation) : Adds state state :=
  ⟨.refl state, .of_eq rfl, .refl _⟩

/-- Code may be added step by step. -/
theorem Adds.trans (one : Adds before middle) (two : Adds middle after) : Adds before after :=
  ⟨one.grows.trans two.grows, one.functions.trans two.functions, one.steady.trans two.steady⟩

theorem Adds.emit (adds : Adds before after) (op : Opcode) (a : UInt16 := 0) (b : UInt16 := 0) :
    Adds before (after.emit op a b) :=
  adds.trans ⟨grows_emit _ _ _ _, .of_eq rfl, .refl _⟩

theorem Adds.emitJump (adds : Adds before after) (op : Opcode) (target : Label) :
    Adds before (after.emitJump op target) :=
  adds.trans ⟨grows_emitJump _ _ _, .of_eq rfl, .refl _⟩

/-- A new label is no code. -/
theorem Adds.addLabel (adds : Adds before after) : Adds before after.addLabel :=
  adds.trans ⟨grows_addLabel _, .of_eq rfl, .refl _⟩

/-- Nor is a correction of the depth. -/
theorem Adds.setDepth (adds : Adds before after) (depth : Int) : Adds before (after.setDepth depth) :=
  adds.trans ⟨grows_setDepth _ _, .of_eq rfl, .refl _⟩

theorem Adds.placeLabel {label : Label} (adds : Adds before after)
    (new : before.assembler.labels.size ≤ label.index) : Adds before (after.placeLabel label) :=
  ⟨adds.grows.placeLabel new, adds.functions, adds.steady⟩

/-- A new label is one more. -/
theorem labelCount_addLabel (state : Compilation) :
    state.addLabel.assembler.labels.size = state.assembler.labels.size + 1 :=
  Array.size_push _

theorem index_nextLabel (state : Compilation) :
    state.nextLabel.index = state.assembler.labels.size := rfl

theorem Adds.new (adds : Adds before after) :
    before.assembler.labels.size ≤ after.nextLabel.index :=
  adds.grows.labelCount_le

/-- A state that is a part of some complete code, whose size fits 16 bits and whose names denote
what they denote in the state. -/
structure Fits (state : Compilation) (code : CompleteCode) : Prop where
  within : Within state code
  names : ∀ ident place, state.scopes.Knows ident place → code.resolves ident place
  small : code.assembler.pending.size ≤ 65535

theorem Fits.of_adds (fits : Fits after code) (adds : Adds before after) : Fits before code :=
  ⟨fits.within.of_grows adds.grows,
    fun ident place known => fits.names ident place (known.mono adds.steady), fits.small⟩

theorem Fits.of_emit {op : Opcode} {a b : UInt16} (fits : Fits (state.emit op a b) code) :
    Fits state code :=
  fits.of_adds ((Adds.refl state).emit op a b)

/-- Before a jump. -/
theorem Fits.of_emitJump {op : Opcode} {target : Label}
    (fits : Fits (state.emitJump op target) code) : Fits state code :=
  fits.of_adds ((Adds.refl state).emitJump op target)

/-- Before the depth is corrected. -/
theorem Fits.of_setDepth {depth : Int} (fits : Fits (state.setDepth depth) code) :
    Fits state code :=
  fits.of_adds ((Adds.refl state).setDepth depth)

theorem Fits.placed {label : Label} (fits : Fits (state.placeLabel label) code)
    (awaits : Awaits state label) : Fits state code ∧ code.Places label state.size := by
  obtain ⟨within, places⟩ := fits.within.placed awaits
  exact ⟨⟨within, fits.names, fits.small⟩, places⟩

theorem Fits.holds {op : Opcode} {a b : UInt16} (fits : Fits (state.emit op a b) code) :
    code.Holds state.size op a b :=
  fits.within.emitted.1

/-- There is room for the operands behind an emitted instruction. -/
theorem Fits.hasRoom {op : Opcode} {a b : UInt16} {depth : Nat}
    (fits : Fits (state.emit op a b) code)
    (same : state.assembler.depth + op.stackEffect a b = depth) : code.HasRoom depth := by
  have room := fits.within.emitted.2
  rw [same] at room
  exact room

/-- The compilation of an expression adds code of the shape of the expression, which leaves one more
operand. -/
structure ExprShape (tree : Expr) (before after : Compilation) : Prop where
  adds : Adds before after
  size : before.size < after.size
  layout : ∀ code, Fits after code → ∀ depth : Nat, before.assembler.depth = depth →
    after.assembler.depth = (depth + 1 : Nat) ∧ code.ExprAt depth tree before.size after.size

/-- Likewise for several expressions, one behind the other. -/
structure ExprsShape (trees : List Expr) (before after : Compilation) : Prop where
  adds : Adds before after
  size : before.size + trees.length ≤ after.size
  layout : ∀ code, Fits after code → ∀ depth : Nat, before.assembler.depth = depth →
    after.assembler.depth = (depth + trees.length : Nat) ∧
      code.ExprsAt depth trees before.size after.size

/-- Likewise for the keys and values of an object literal. -/
structure EntriesShape (entries : List Entry) (before after : Compilation) : Prop where
  adds : Adds before after
  size : before.size + 2 * entries.length ≤ after.size
  layout : ∀ code, Fits after code → ∀ depth : Nat, before.assembler.depth = depth →
    after.assembler.depth = (depth + 2 * entries.length : Nat) ∧
      code.EntriesAt depth entries before.size after.size

/-- Likewise for a function value. -/
structure FunctionShape (before after : Compilation) : Prop where
  adds : Adds before after
  size : before.size < after.size
  layout : ∀ code, Fits after code → ∀ depth : Nat, before.assembler.depth = depth →
    after.assembler.depth = (depth + 1 : Nat) ∧ code.FunctionAt depth before.size after.size

/-! ## Leaves -/

theorem size_of_assembler (same : middle.assembler = before.assembler) :
    middle.size = before.size :=
  congrArg (·.pending.size) same

/-- An expression whose code is one instruction, added to a state with the same code. -/
theorem ExprShape.leaf {tree : Expr} {op : Opcode} {a : UInt16} (adds : Adds before middle)
    (assembler : middle.assembler = before.assembler) (effect : op.stackEffect a 0 = 1)
    (shape : ∀ code, Fits middle code → code.Holds before.size op a →
      ∀ depth, code.HasRoom (depth + 1) → code.ExprAt depth tree before.size (before.size + 1)) :
    ExprShape tree before (middle.emit op a) where
  adds := adds.emit op a
  size := by
    rw [size_emit, size_of_assembler assembler]
    exact Nat.lt_succ_self _
  layout code fits depth start := by
    have depthAfter : middle.assembler.depth + op.stackEffect a 0 = (depth + 1 : Nat) := by
      rw [assembler, start, effect]
      rfl
    have same := size_of_assembler assembler
    refine ⟨depthAfter, ?_⟩
    rw [size_emit, same]
    exact shape code fits.of_emit (same ▸ fits.holds) depth (fits.hasRoom depthAfter)

/-- A number constant is no code. -/
theorem adds_addNumber {limit : Nat} {value : Number} {index : UInt16} {numbers}
    (added : state.numbers.add limit value = (some index, numbers)) :
    Adds state { state with numbers } :=
  ⟨grows_addNumber added, .of_eq rfl, .refl _⟩

/-- Nor is a string constant. -/
theorem adds_addString {limit : Nat} {value : String} {index : UInt16} {strings}
    (added : state.strings.add limit value = (some index, strings)) :
    Adds state { state with strings } :=
  ⟨grows_addString added, .of_eq rfl, .refl _⟩

/-- What resolving a name does, and what the name denotes from then on. -/
theorem adds_resolve {context : CompileContext} {name : String} {span : Span} {place : Place}
    (leads : Compiling.Leads context (Compiling.resolve name span) before place after) :
    Adds before after ∧ after.scopes.Knows name place ∧ after.assembler = before.assembler := by
  obtain ⟨scopes, resolved, rfl⟩ := Compiling.leads_resolve.mp leads
  obtain ⟨steady, known⟩ := Scopes.knows_resolve resolved
  exact ⟨⟨grows_scopes _ _, .of_eq rfl, steady⟩, known, rfl⟩

/-- The instruction that loads a variable. -/
theorem adds_load {context : CompileContext} {place : Place} {name : String} {span : Span}
    (leads : Compiling.Leads context (Compiling.load place name span) before () after) :
    Adds before after ∧ after.size = before.size + 1 ∧
      after.assembler.depth = before.assembler.depth + 1 ∧
        ∀ code, Fits after code → code.LoadAt place name before.size ∧
          before.assembler.depth + 1 ≤ code.assembler.maxDepth := by
  have loaded := Compiling.leads_load.mp leads
  cases place with
  | slot index =>
      obtain rfl : after = _ := loaded
      exact ⟨(Adds.refl _).emit _ _, size_emit _ _ _ _, rfl, fun code fits =>
        ⟨fits.holds, fits.within.emitted.2⟩⟩
  | capture index =>
      obtain rfl : after = _ := loaded
      exact ⟨(Adds.refl _).emit _ _, size_emit _ _ _ _, rfl, fun code fits =>
        ⟨fits.holds, fits.within.emitted.2⟩⟩
  | global =>
      obtain ⟨index, strings, added, rfl⟩ := loaded
      exact ⟨(adds_addString added).emit _ _, size_emit _ _ _ _, rfl, fun code fits =>
        ⟨⟨index, fits.holds, fits.of_emit.within.strings _ _ (places_add added).1⟩,
          fits.within.emitted.2⟩⟩

/-- The instruction that stores into a variable. -/
theorem adds_store {context : CompileContext} {place : Place} {name : String} {span : Span}
    (leads : Compiling.Leads context (Compiling.store place name span) before () after) :
    Adds before after ∧ after.size = before.size + 1 ∧
      after.assembler.depth = before.assembler.depth ∧
        ∀ code, Fits after code → code.StoreAt place name before.size := by
  have stored := Compiling.leads_store leads
  cases place with
  | slot index =>
      obtain rfl : after = _ := stored
      exact ⟨(Adds.refl _).emit _ _, size_emit _ _ _ _, Int.add_zero _, fun code fits => fits.holds⟩
  | capture index =>
      obtain rfl : after = _ := stored
      exact ⟨(Adds.refl _).emit _ _, size_emit _ _ _ _, Int.add_zero _, fun code fits => fits.holds⟩
  | global =>
      obtain ⟨index, strings, added, rfl⟩ := stored
      exact ⟨(adds_addString added).emit _ _, size_emit _ _ _ _, Int.add_zero _, fun code fits =>
        ⟨index, fits.holds, fits.of_emit.within.strings _ _ (places_add added).1⟩⟩

/-! ## Operators -/

variable {left right operand condition whenTrue whenFalse container key value : Expr}

/-- A unary operation follows its operand. -/
theorem ExprShape.unary {op : UnaryOp} (inner : ExprShape operand before middle) :
    ExprShape (.unary op operand) before (middle.emit op.opcode) where
  adds := inner.adds.emit _
  size := by
    have := inner.size
    rw [size_emit]
    omega
  layout code fits depth start := by
    obtain ⟨depthInner, at_⟩ := inner.layout code fits.of_emit depth start
    refine ⟨?_, size_emit middle _ _ _ ▸ .unary at_ fits.holds⟩
    rw [depth_emit, depthInner, op.stackEffect_opcode, Int.add_zero]

/-- A binary operation follows its operands. -/
theorem ExprShape.binary {op : BinaryOp} (one : ExprShape left before first)
    (two : ExprShape right first second) :
    ExprShape (.binary op left right) before (second.emit op.opcode) where
  adds := (one.adds.trans two.adds).emit _
  size := by
    have := one.size
    have := two.size
    rw [size_emit]
    omega
  layout code fits depth start := by
    obtain ⟨depthOne, atOne⟩ := one.layout code (fits.of_emit.of_adds two.adds) depth start
    obtain ⟨depthTwo, atTwo⟩ := two.layout code fits.of_emit (depth + 1) depthOne
    refine ⟨?_, size_emit second _ _ _ ▸ .binary atOne atTwo fits.holds⟩
    rw [depth_emit, depthTwo, op.stackEffect_opcode]
    omega

theorem ExprShape.logical {op : LogicalOp} (one : ExprShape left before first)
    (two : ExprShape right (first.addLabel.emitJump op.jump first.nextLabel) second) :
    ExprShape (.logical op left right) before (second.placeLabel first.nextLabel) where
  adds := ((one.adds.addLabel.emitJump _ _).trans two.adds).placeLabel one.adds.new
  size := by
    have := one.size
    have inner := two.size
    rw [size_emitJump, size_addLabel] at inner
    rw [size_placeLabel]
    omega
  layout code fits depth start := by
    have awaits := (awaits_addLabel first).mono
      ((grows_emitJump first.addLabel op.jump first.nextLabel).trans two.adds.grows)
    obtain ⟨fitsTwo, places⟩ := fits.placed awaits
    have fitsJump := fitsTwo.of_adds two.adds
    obtain ⟨depthOne, atOne⟩ :=
      one.layout code (fitsJump.of_emitJump.of_adds (Adds.refl first).addLabel) depth start
    have depthJump : (first.addLabel.emitJump op.jump first.nextLabel).assembler.depth = depth := by
      rw [depth_emitJump, depth_addLabel, depthOne, op.stackEffect_jump]
      omega
    obtain ⟨depthTwo, atTwo⟩ := two.layout code fitsTwo depth depthJump
    rw [size_emitJump, size_addLabel] at atTwo
    refine ⟨depthTwo, .logical atOne ⟨_, ?_, places⟩ atTwo⟩
    exact fitsJump.within.emittedJump

/-- A conditional jumps over one of its two values. -/
theorem ExprShape.conditional (one : ExprShape condition before first)
    (two : ExprShape whenTrue (Compiling.forked first) second)
    (three : ExprShape whenFalse (Compiling.between first second) third) :
    ExprShape (.conditional condition whenTrue whenFalse) before
      (third.placeLabel first.addLabel.nextLabel) where
  adds := by
    have new := one.adds.addLabel.new
    have upToTwo := (one.adds.addLabel.addLabel.emitJump .jumpIfFalse first.nextLabel).trans two.adds
    have upToThree := (((upToTwo.emitJump .jump first.addLabel.nextLabel).placeLabel
      one.adds.new).setDepth (Compiling.forked first).assembler.depth).trans three.adds
    exact upToThree.placeLabel new
  size := by
    have := one.size
    have inner := two.size
    have last := three.size
    rw [Compiling.forked, size_emitJump, size_addLabel, size_addLabel] at inner
    rw [Compiling.between, size_setDepth, size_placeLabel, size_emitJump] at last
    rw [size_placeLabel]
    omega
  layout code fits depth start := by
    -- Both labels wait until the code that they are jumped to from is complete.
    have toForked : Grows first.addLabel.addLabel (Compiling.forked first) := grows_emitJump _ _ _
    have toSecond := (toForked.trans two.adds.grows).trans
      (grows_emitJump second .jump first.addLabel.nextLabel)
    have otherAwaits : Awaits (second.emitJump .jump first.addLabel.nextLabel) first.nextLabel :=
      ((awaits_addLabel first).mono (grows_addLabel _)).mono toSecond
    have doneAwaits : Awaits third first.addLabel.nextLabel := by
      have early := (awaits_addLabel first.addLabel).mono toSecond
      have placed : Awaits (Compiling.between first second) first.addLabel.nextLabel := by
        have other : first.addLabel.nextLabel.index ≠ first.nextLabel.index := by
          rw [index_nextLabel, index_nextLabel, labelCount_addLabel]
          omega
        exact (labels_placeLabel _ _ _ other).trans early
      exact placed.mono three.adds.grows
    obtain ⟨fitsThree, donePlace⟩ := fits.placed doneAwaits
    have fitsBetween := fitsThree.of_adds three.adds
    obtain ⟨fitsJump, otherPlace⟩ := fitsBetween.of_setDepth.placed otherAwaits
    have fitsTwo := fitsJump.of_emitJump
    have fitsForked := fitsTwo.of_adds two.adds
    have fitsOne := fitsForked.of_emitJump.of_adds ((Adds.refl first).addLabel.addLabel)
    obtain ⟨depthOne, atOne⟩ := one.layout code fitsOne depth start
    have depthForked : (Compiling.forked first).assembler.depth = depth := by
      rw [Compiling.forked, depth_emitJump, depth_addLabel, depth_addLabel, depthOne]
      simp only [Opcode.stackEffect]
      omega
    obtain ⟨depthTwo, atTwo⟩ := two.layout code fitsTwo depth depthForked
    have depthBetween : (Compiling.between first second).assembler.depth = depth := by
      rw [Compiling.between, depth_setDepth, depthForked]
    obtain ⟨depthThree, atThree⟩ := three.layout code fitsThree depth depthBetween
    rw [Compiling.forked, size_emitJump, size_addLabel, size_addLabel] at atTwo
    rw [Compiling.between, size_setDepth, size_placeLabel, size_emitJump] at atThree
    rw [size_emitJump] at otherPlace
    exact ⟨depthThree, .conditional atOne ⟨_, fitsForked.within.emittedJump, otherPlace⟩ atTwo
      ⟨_, fitsJump.within.emittedJump, donePlace⟩ atThree⟩

/-! ## Assignments and elements -/

/-- An assignment to a name evaluates the value and stores it. -/
theorem ExprShape.assignName {context : CompileContext} {ident : String} {span : Span}
    {place : Place}
    (resolved : Compiling.Leads context (Compiling.resolve ident span) before place first)
    (inner : ExprShape value first second)
    (stored : Compiling.Leads context (Compiling.store place ident span) second () after) :
    ExprShape (.assignName ident span none value) before after := by
  obtain ⟨addsFirst, known, assembler⟩ := adds_resolve resolved
  obtain ⟨addsStore, sizeStore, depthStore, storeAt⟩ := adds_store stored
  have sameSize := size_of_assembler assembler
  refine ⟨(addsFirst.trans inner.adds).trans addsStore, ?_, fun code fits depth start => ?_⟩
  · have := inner.size
    omega
  · have fitsInner := fits.of_adds addsStore
    obtain ⟨depthInner, at_⟩ := inner.layout code fitsInner depth (by rw [assembler, start])
    refine ⟨by rw [depthStore, depthInner], ?_⟩
    rw [sizeStore]
    rw [sameSize] at at_
    have names := (fitsInner.of_adds inner.adds).names _ _ known
    exact .assignName names at_ (storeAt code fits)

/-- With an operator it loads the name first. -/
theorem ExprShape.updateName {context : CompileContext} {ident : String} {span : Span}
    {place : Place} {op : BinaryOp} {loaded : Compilation}
    (resolved : Compiling.Leads context (Compiling.resolve ident span) before place first)
    (read : Compiling.Leads context (Compiling.load place ident span) first () loaded)
    (inner : ExprShape value loaded second)
    (stored :
      Compiling.Leads context (Compiling.store place ident span) (second.emit op.opcode) () after) :
    ExprShape (.assignName ident span (some op) value) before after := by
  obtain ⟨addsFirst, known, assembler⟩ := adds_resolve resolved
  obtain ⟨addsLoad, sizeLoad, depthLoad, loadAt⟩ := adds_load read
  obtain ⟨addsStore, sizeStore, depthStore, storeAt⟩ := adds_store stored
  have sameSize := size_of_assembler assembler
  refine ⟨(((addsFirst.trans addsLoad).trans inner.adds).emit _).trans addsStore, ?_,
    fun code fits depth start => ?_⟩
  · have := inner.size
    rw [size_emit] at sizeStore
    omega
  · have fitsOp := fits.of_adds addsStore
    have fitsLoad := fitsOp.of_emit.of_adds inner.adds
    obtain ⟨load, room⟩ := loadAt code fitsLoad
    rw [assembler, start] at room
    have depthLoaded : loaded.assembler.depth = (depth + 1 : Nat) := by
      rw [depthLoad, assembler, start]
      rfl
    obtain ⟨depthInner, at_⟩ := inner.layout code fitsOp.of_emit (depth + 1) depthLoaded
    have names := (fitsLoad.of_adds addsLoad).names _ _ known
    refine ⟨?_, ?_⟩
    · rw [depthStore, depth_emit, depthInner, op.stackEffect_opcode]
      omega
    · rw [sizeStore, size_emit]
      rw [sizeLoad, sameSize] at at_
      rw [sameSize] at load
      have store := storeAt code fits
      rw [size_emit] at store
      exact .updateName names load room at_ fitsOp.holds store

/-- An access follows its container and its key. -/
theorem ExprShape.element (one : ExprShape container before first)
    (two : ExprShape key first second) :
    ExprShape (.element container key) before (second.emit .getElem) where
  adds := (one.adds.trans two.adds).emit _
  size := by
    have := one.size
    have := two.size
    rw [size_emit]
    omega
  layout code fits depth start := by
    obtain ⟨depthOne, atOne⟩ := one.layout code (fits.of_emit.of_adds two.adds) depth start
    obtain ⟨depthTwo, atTwo⟩ := two.layout code fits.of_emit (depth + 1) depthOne
    refine ⟨?_, size_emit second _ _ _ ▸ .element atOne atTwo fits.holds⟩
    rw [depth_emit, depthTwo]
    simp only [Opcode.stackEffect]
    omega

theorem ExprShape.assignElement (one : ExprShape container before first)
    (two : ExprShape key first second) (three : ExprShape value second third) :
    ExprShape (.assignElement container key none value) before (third.emit .setElem) where
  adds := ((one.adds.trans two.adds).trans three.adds).emit _
  size := by
    have := one.size
    have := two.size
    have := three.size
    rw [size_emit]
    omega
  layout code fits depth start := by
    have fitsTwo := fits.of_emit.of_adds three.adds
    obtain ⟨depthOne, atOne⟩ := one.layout code (fitsTwo.of_adds two.adds) depth start
    obtain ⟨depthTwo, atTwo⟩ := two.layout code fitsTwo (depth + 1) depthOne
    obtain ⟨depthThree, atThree⟩ := three.layout code fits.of_emit (depth + 2) depthTwo
    refine ⟨?_, size_emit third _ _ _ ▸ .assignElement atOne atTwo atThree fits.holds⟩
    rw [depth_emit, depthThree]
    simp only [Opcode.stackEffect]
    omega

theorem ExprShape.updateElement {op : BinaryOp} (one : ExprShape container before first)
    (two : ExprShape key first second)
    (three : ExprShape value ((second.emit .dup2).emit .getElem) third) :
    ExprShape (.assignElement container key (some op) value) before
      ((third.emit op.opcode).emit .setElem) where
  adds := ((((one.adds.trans two.adds).emit _).emit _).trans three.adds).emit _ |>.emit _
  size := by
    have := one.size
    have := two.size
    have inner := three.size
    simp only [size_emit] at inner ⊢
    omega
  layout code fits depth start := by
    have fitsRead := fits.of_emit.of_emit.of_adds three.adds
    have fitsTwo := fitsRead.of_emit.of_emit
    obtain ⟨depthOne, atOne⟩ := one.layout code (fitsTwo.of_adds two.adds) depth start
    obtain ⟨depthTwo, atTwo⟩ := two.layout code fitsTwo (depth + 1) depthOne
    have depthDup : second.assembler.depth + Opcode.stackEffect .dup2 0 0 = (depth + 4 : Nat) := by
      rw [depthTwo]
      simp only [Opcode.stackEffect]
      omega
    have depthRead : ((second.emit .dup2).emit .getElem).assembler.depth = (depth + 3 : Nat) := by
      rw [depth_emit, depth_emit, depthDup]
      simp only [Opcode.stackEffect]
      omega
    obtain ⟨depthThree, atThree⟩ := three.layout code fits.of_emit.of_emit (depth + 3) depthRead
    have read := fitsRead.holds
    have written := fits.holds
    rw [size_emit] at read written
    rw [size_emit, size_emit] at atThree ⊢
    refine ⟨?_, .updateElement atOne atTwo fitsRead.of_emit.holds
      (fitsRead.of_emit.hasRoom depthDup) read atThree fits.of_emit.holds written⟩
    rw [depth_emit, depth_emit, depthThree, op.stackEffect_opcode]
    simp only [Opcode.stackEffect]
    omega

/-! ## Lists of expressions -/

/-- No expressions add nothing. -/
theorem ExprsShape.nil (state : Compilation) : ExprsShape [] state state :=
  ⟨.refl state, Nat.le_refl _, fun _ _ _ start => ⟨start, .nil⟩⟩

theorem ExprsShape.cons {tree : Expr} {trees : List Expr} (one : ExprShape tree before middle)
    (rest : ExprsShape trees middle after) : ExprsShape (tree :: trees) before after where
  adds := one.adds.trans rest.adds
  size := by
    have := one.size
    have := rest.size
    rw [List.length_cons]
    omega
  layout code fits depth start := by
    obtain ⟨depthOne, atOne⟩ := one.layout code (fits.of_adds rest.adds) depth start
    obtain ⟨depthRest, atRest⟩ := rest.layout code fits (depth + 1) depthOne
    refine ⟨?_, .cons atOne atRest⟩
    rw [depthRest, List.length_cons]
    omega

/-- No properties add nothing. -/
theorem EntriesShape.nil (state : Compilation) : EntriesShape [] state state :=
  ⟨.refl state, Nat.le_refl _, fun _ _ _ start => ⟨start, .nil⟩⟩

/-- The key of a property is pushed before its value. -/
theorem EntriesShape.cons {context : CompileContext} {name : String} {span : Span}
    {entries : List Entry} {named : Compilation}
    (pushed : Compiling.Leads context (Compiling.string name span) before () named)
    (one : ExprShape value named middle) (rest : EntriesShape entries middle after) :
    EntriesShape (.property name span value :: entries) before after := by
  obtain ⟨index, strings, added, rfl⟩ := Compiling.leads_string.mp pushed
  refine ⟨(((adds_addString added).emit _ _).trans one.adds).trans rest.adds, ?_,
    fun code fits depth start => ?_⟩
  · have inner := one.size
    have last := rest.size
    rw [size_emit] at inner
    rw [List.length_cons]
    change before.size + 1 < middle.size at inner
    omega
  · have fitsOne := fits.of_adds rest.adds
    have fitsName := fitsOne.of_adds one.adds
    have depthName : (Compilation.emit { before with strings } .pushString index).assembler.depth =
        (depth + 1 : Nat) := by
      rw [depth_emit]
      change before.assembler.depth + _ = _
      rw [start]
      rfl
    obtain ⟨depthOne, atOne⟩ := one.layout code fitsOne (depth + 1) depthName
    obtain ⟨depthRest, atRest⟩ := rest.layout code fits (depth + 2) depthOne
    rw [size_emit] at atOne
    refine ⟨?_, .cons fitsName.holds ?_ atOne atRest⟩
    · rw [depthRest, List.length_cons]
      omega
    · exact fitsName.of_emit.within.strings _ _ (places_add added).1

/-- A call follows the callee and the arguments. -/
theorem ExprShape.call {callee : Expr} {args : List Expr} {span : Span}
    (one : ExprShape callee before first) (rest : ExprsShape args first second) :
    ExprShape (.call callee args span) before
      (second.emit .call (UInt16.ofNat args.length)) where
  adds := (one.adds.trans rest.adds).emit _ _
  size := by
    have := one.size
    have := rest.size
    rw [size_emit]
    omega
  layout code fits depth start := by
    -- Every argument has an instruction, and these are few.
    have few : args.length ≤ 65535 := by
      have inside := fits.of_emit.within.size_le
      have := rest.size
      have := fits.small
      omega
    obtain ⟨depthOne, atOne⟩ := one.layout code (fits.of_emit.of_adds rest.adds) depth start
    obtain ⟨depthRest, atRest⟩ := rest.layout code fits.of_emit (depth + 1) depthOne
    refine ⟨?_, size_emit second _ _ _ ▸ .call atOne atRest few fits.holds⟩
    rw [depth_emit, depthRest]
    simp only [Opcode.stackEffect, toNat_ofNat_of_le few]
    omega

theorem ExprShape.array {elements : List Expr} {span : Span}
    (inner : ExprsShape elements before middle) (few : elements.length ≤ 65535) :
    ExprShape (.array elements span) before
      (middle.emit .makeArray (UInt16.ofNat elements.length)) where
  adds := inner.adds.emit _ _
  size := by
    have := inner.size
    rw [size_emit]
    omega
  layout code fits depth start := by
    obtain ⟨depthInner, at_⟩ := inner.layout code fits.of_emit depth start
    have depthAfter : middle.assembler.depth +
        Opcode.stackEffect .makeArray (UInt16.ofNat elements.length) 0 = (depth + 1 : Nat) := by
      rw [depthInner]
      simp only [Opcode.stackEffect, toNat_ofNat_of_le few]
      omega
    exact ⟨depthAfter,
      size_emit middle _ _ _ ▸ .array at_ few fits.holds (fits.hasRoom depthAfter)⟩

/-- An object is made of its keys and values. -/
theorem ExprShape.object {properties : List Entry} {span : Span}
    (inner : EntriesShape properties before middle) (few : properties.length ≤ 32767) :
    ExprShape (.object properties span) before
      (middle.emit .makeObject (UInt16.ofNat properties.length)) where
  adds := inner.adds.emit _ _
  size := by
    have := inner.size
    rw [size_emit]
    omega
  layout code fits depth start := by
    obtain ⟨depthInner, at_⟩ := inner.layout code fits.of_emit depth start
    have depthAfter : middle.assembler.depth +
        Opcode.stackEffect .makeObject (UInt16.ofNat properties.length) 0 = (depth + 1 : Nat) := by
      rw [depthInner]
      simp only [Opcode.stackEffect, toNat_ofNat_of_le (show properties.length ≤ 65535 by omega)]
      omega
    exact ⟨depthAfter,
      size_emit middle _ _ _ ▸ .object at_ few fits.holds (fits.hasRoom depthAfter)⟩

/-- A function has its own shape. -/
theorem ExprShape.function {body : Definition} (inner : FunctionShape before after) :
    ExprShape (.function body) before after where
  adds := inner.adds
  size := inner.size
  layout code fits depth start := by
    obtain ⟨depthAfter, at_⟩ := inner.layout code fits depth start
    exact ⟨depthAfter, .function at_⟩

end Compilation

end PocketScript
