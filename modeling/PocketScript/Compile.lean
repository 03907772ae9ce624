import Std.Data.HashMap
import Std.Data.HashMap.Lemmas
import Std.Data.HashSet
import PocketScript.Code.Assembler
import PocketScript.Scope
import PocketScript.Tree.Parser

/-!
# Compiling trees

A tree is walked once in source order; each node leaves its instructions in the code of the function
around it. An expression leaves one operand on the stack, a statement none. Names are resolved and
constants get their places in the same order, and the first objection ends the compilation.
-/

namespace PocketScript

/-- A table of constants without repetitions. -/
structure ConstantTable (α : Type) [BEq α] [Hashable α] where
  items : Array α := #[]
  places : Std.HashMap α UInt16 := {}
  /-- A constant has its place exactly where it stands. -/
  places_iff : ∀ (item : α) (index : UInt16),
    places[item]? = some index ↔ items[index.toNat]? = some item := by simp
  /-- Places have 16 bits. -/
  size_le : items.size ≤ 65536 := by simp

namespace ConstantTable

variable {α : Type} [BEq α] [LawfulBEq α] [Hashable α]

/-- A new constant stands behind all others, which stay at their places. -/
theorem places_iff_push (table : ConstantTable α) {item : α} (missing : table.places[item]? = none)
    (small : table.items.size ≤ 65535) (other : α) (index : UInt16) :
    (table.places.insert item (UInt16.ofNat table.items.size))[other]? = some index ↔
      (table.items.push item)[index.toNat]? = some other := by
  have size : (UInt16.ofNat table.items.size).toNat = table.items.size := by
    rw [UInt16.toNat_ofNat', Nat.mod_eq_of_lt (by omega)]
  rw [Std.HashMap.getElem?_insert, Array.getElem?_push]
  split
  · rename_i same
    rw [← eq_of_beq same]
    constructor
    · intro found
      injection found with place
      rw [← place, size, if_pos rfl]
    · intro found
      split at found
      · rename_i last
        rw [← UInt16.toNat_inj.mp (size.trans last.symm)]
      · rw [(table.places_iff item index).mpr found] at missing
        cases missing
  · rename_i different
    rw [table.places_iff]
    split
    · rename_i last
      rw [last, Array.getElem?_eq_none (Nat.le_refl _)]
      constructor
      · intro found
        cases found
      · intro found
        injection found with same
        exact absurd (beq_iff_eq.mpr same) different
    · exact Iff.rfl

/-- The place of a constant, which is added unless the table has it; none when it is missing and the
table holds `limit` others. Places have 16 bits. -/
def add (limit : Nat) (table : ConstantTable α) (item : α) : Option UInt16 × ConstantTable α :=
  match missing : table.places[item]? with
  | some index => (some index, table)
  | none =>
      if full : limit ≤ table.items.size ∨ 65535 < table.items.size then (none, table)
      else
        let index := UInt16.ofNat table.items.size
        (some index,
          { items := table.items.push item
            places := table.places.insert item index
            places_iff := table.places_iff_push missing (by omega)
            size_le := by rw [Array.size_push]; omega })

end ConstantTable

/-- Where `break` and `continue` lead. -/
structure LoopLabels where
  breakTo : Label
  continueTo : Label
  deriving Repr

/-- What a compilation has produced so far. -/
structure Compilation where
  scopes : Scopes := []
  /-- The code of the innermost function. -/
  assembler : Assembler := {}
  /-- The loops around the current statement in that function, the innermost first. -/
  loops : List LoopLabels := []
  numbers : ConstantTable Number := {}
  strings : ConstantTable String := {}
  /-- The functions in the order in which they start; those not complete yet hold no code. -/
  functions : Array FunctionDef := #[]
  /-- The global names the unit declares. -/
  globals : Std.HashSet String := {}

/-- What a compilation takes for granted. -/
structure CompileContext where
  limits : CompileLimits
  /-- The global names that exist before the unit runs. -/
  isKnownGlobal : String → Bool

/-- A step of a compilation. -/
abbrev Compiling := ReaderT CompileContext (StateT Compilation (Except CompileError))

namespace Compiling

def complain {α : Type} (complaint : Complaint) (span : Span) : Compiling α :=
  throw { complaint, span }

/-- A result, or the complaint in its place, about a span. -/
def orComplain {α : Type} (span : Span) : Except Complaint α → Compiling α
  | .ok result => pure result
  | .error complaint => complain complaint span

/-- Applies a change to the code of the current function. -/
def assemble (change : Assembler → Assembler) : Compiling Unit :=
  modify fun state => { state with assembler := change state.assembler }

def emit (op : Opcode) (a : UInt16 := 0) (b : UInt16 := 0) : Compiling Unit :=
  assemble (·.emit op a b)

def emitJump (op : Opcode) (target : Label) : Compiling Unit :=
  assemble (·.emitJump op target)

def newLabel : Compiling Label := do
  let (label, assembler) := (← get).assembler.newLabel
  modify fun state => { state with assembler }
  pure label

def placeLabel (label : Label) : Compiling Unit := assemble (·.placeLabel label)

def depth : Compiling Int := return (← get).assembler.depth

def setDepth (depth : Int) : Compiling Unit := assemble (·.setDepth depth)

def isTopLevel : Compiling Bool := return (← get).scopes.isEmpty

/-- The number of slots, and of captures, a function may have. -/
def slotLimit : Compiling Nat := return max (← read).limits.maxLocals 1

/-- The number of constants of one kind a program may have. -/
def constantLimit : Compiling Nat := return (← read).limits.maxConstants

def addNumber (value : Number) (span : Span) : Compiling UInt16 := do
  let limit ← constantLimit
  let place ← modifyGet fun state =>
    let (place, numbers) := state.numbers.add limit value
    (place, { state with numbers })
  match place with
  | none => complain .tooManyNumbers span
  | some index => pure index

/-- The place of a text; names of globals and of properties are texts too. -/
def addString (value : String) (span : Span) : Compiling UInt16 := do
  let limit ← constantLimit
  let place ← modifyGet fun state =>
    let (place, strings) := state.strings.add limit value
    (place, { state with strings })
  match place with
  | none => complain .tooManyStrings span
  | some index => pure index

def addGlobal (name : String) : Compiling Unit :=
  modify fun state => { state with globals := state.globals.insert name }

def resolve (name : String) (span : Span) : Compiling Place := do
  let (place, scopes) ← orComplain span (Scopes.resolve (← slotLimit) name (← get).scopes)
  modify fun state => { state with scopes }
  pure place

/-- Gives a name a slot in the current function. -/
def declareSlot (name : String) (span : Span) : Compiling UInt16 := do
  match (← get).scopes with
  | [] => pure 0
  | scope :: outer =>
      let (index, scope) ← orComplain span (scope.declare (← slotLimit) name)
      modify fun state => { state with scopes := scope :: outer }
      pure index

/-- Gives each parameter of the current function its slot. -/
def declareParams : List (String × Span) → Compiling Unit
  | [] => pure ()
  | (name, span) :: rest => do
      match (← get).scopes with
      | [] => pure ()
      | scope :: outer =>
          let (_, scope) ← orComplain span (scope.declareParameter (← slotLimit) name)
          modify fun state => { state with scopes := scope :: outer }
      declareParams rest

/-- Gives names their slots before the statements that declare them. -/
def declareAhead : List (String × Span) → Compiling Unit
  | [] => pure ()
  | (name, span) :: rest => do
      discard (declareSlot name span)
      declareAhead rest

def literal : Literal → Opcode
  | .true_ => .pushTrue
  | .false_ => .pushFalse
  | .undefined => .pushUndefined
  | .nan => .pushNaN

/-- Loads a number: zero and small positive whole numbers are part of the instruction. -/
def number (value : Number) (span : Span) : Compiling Unit := do
  if value = Number.zero then emit .pushZero
  else if value.isIntegral ∧ 0 < value.truncated ∧ value.truncated ≤ 65535 then
    emit .pushInt (UInt16.ofNat value.wholePart)
  else emit .pushNumber (← addNumber value span)

def string (value : String) (span : Span) : Compiling Unit := do
  emit .pushString (← addString value span)

/-- Loads the value of a variable. -/
def load (place : Place) (name : String) (span : Span) : Compiling Unit :=
  match place with
  | .slot index => emit .loadLocal index
  | .capture index => emit .loadUpvalue index
  | .global => do emit .loadGlobal (← addString name span)

/-- Stores the operand on top into a variable and keeps it. A global variable has to be declared by
the unit or to exist already. -/
def store (place : Place) (name : String) (span : Span) : Compiling Unit :=
  match place with
  | .slot index => emit .storeLocal index
  | .capture index => emit .storeUpvalue index
  | .global => do
      if (← get).globals.contains name || (← read).isKnownGlobal name then
        emit .storeGlobal (← addString name span)
      else complain (.undeclaredAssignment name) span

/-- Starts a function with an empty scope and empty code. Returned are its place in the table and
the code and the loops that it interrupts. -/
def openFunction (span : Span) : Compiling (Nat × Assembler × List LoopLabels) := do
  let index := (← get).functions.size
  if 65535 < index then complain .tooManyFunctions span
  else
    modifyGet fun state =>
      ((index, state.assembler, state.loops),
        { state with
          functions := state.functions.push default
          scopes := {} :: state.scopes
          assembler := {}
          loops := [] })

/-- Pushes what a new closure captures. -/
def pushCaptures : List CaptureSource → Compiling Unit
  | [] => pure ()
  | .outerSlot index :: rest => do
      emit .pushCell index
      pushCaptures rest
  | .outerCapture index :: rest => do
      emit .pushUpvalue index
      pushCaptures rest

/-- Completes the function with a place in the table, goes on with the code and the loops that it
interrupted, and creates the function value there. -/
def closeFunction (span : Span) (index : Nat) (assembler : Assembler) (loops : List LoopLabels) :
    Compiling Unit := do
  let scope := (← get).scopes.headD {}
  let isClosure := !scope.captures.isEmpty
  let function ← orComplain span
    ((← get).assembler.finish scope.slots.size scope.argCount scope.captured isClosure)
  modify fun state =>
    { state with
      functions := state.functions.setIfInBounds index function
      scopes := state.scopes.tail
      assembler
      loops }
  if isClosure then
    pushCaptures scope.captures.toList
    emit .makeClosure (UInt16.ofNat index) (UInt16.ofNat scope.captures.size)
  else emit .pushFunction (UInt16.ofNat index)

/-- Jumps out of, or to the next round of, the innermost loop. -/
def loopJump (keyword : TokenKind) (target : LoopLabels → Label) (span : Span) :
    Compiling Unit := do
  match (← get).loops with
  | [] => complain (.jumpOutsideLoop keyword) span
  | labels :: _ =>
      let before ← depth
      emitJump .jump (target labels)
      setDepth before

/-- Runs a step with a loop around it. -/
def inLoop (labels : LoopLabels) (step : Compiling Unit) : Compiling Unit := do
  let outer := (← get).loops
  modify fun state => { state with loops := labels :: outer }
  step
  modify fun state => { state with loops := outer }

mutual

/-- The code of an expression. -/
def expr : Expr → Compiling Unit
  | .literal value => emit (literal value)
  | .number value span => number value span
  | .string value span => string value span
  | .name ident span => do
      let place ← resolve ident span
      load place ident span
  | .unary op operand => do
      expr operand
      emit op.opcode
  | .binary op left right => do
      expr left
      expr right
      emit op.opcode
  | .logical op left right => do
      expr left
      let decided ← newLabel
      emitJump op.jump decided
      expr right
      placeLabel decided
  | .conditional condition whenTrue whenFalse => do
      expr condition
      let otherwise ← newLabel
      let done ← newLabel
      emitJump .jumpIfFalse otherwise
      let before ← depth
      expr whenTrue
      emitJump .jump done
      placeLabel otherwise
      setDepth before
      expr whenFalse
      placeLabel done
  | .assignName ident span op value => do
      let place ← resolve ident span
      match op with
      | none => expr value
      | some op => do
          load place ident span
          expr value
          emit op.opcode
      store place ident span
  | .assignElement container key op value => do
      expr container
      expr key
      match op with
      | none => expr value
      | some op => do
          emit .dup2
          emit .getElem
          expr value
          emit op.opcode
      emit .setElem
  | .element container key => do
      expr container
      expr key
      emit .getElem
  | .call callee args span => do
      expr callee
      exprs args
      let limit := (← read).limits.maxLocals
      if limit < args.length then complain (.tooManyArguments limit) span
      else emit .call (UInt16.ofNat args.length)
  | .array elements span => do
      exprs elements
      if 65535 < elements.length then complain .arrayLiteralTooLarge span
      else emit .makeArray (UInt16.ofNat elements.length)
  | .object properties span => do
      entries properties
      if 32767 < properties.length then complain .objectLiteralTooLarge span
      else emit .makeObject (UInt16.ofNat properties.length)
  | .function body => definition body
  | .broken error => throw error

/-- The code of expressions, one after the other. -/
def exprs : List Expr → Compiling Unit
  | [] => pure ()
  | first :: rest => do
      expr first
      exprs rest

/-- The keys and values of an object literal, alternating. -/
def entries : List Entry → Compiling Unit
  | [] => pure ()
  | first :: rest => do
      entry first
      entries rest

def entry : Entry → Compiling Unit
  | .property key span value => do
      string key span
      expr value
  | .broken error => throw error

/-- The function value of a definition. -/
def definition : Definition → Compiling Unit
  | .mk span params declared body => do
      let (index, assembler, loops) ← openFunction span
      declareParams params
      declareAhead declared
      stmts body
      emit .retUndefined
      closeFunction span index assembler loops

/-- The code of declarators. At the top level a name is declared as a global variable. -/
def declarators : List Declarator → Compiling Unit
  | [] => pure ()
  | first :: rest => do
      declarator first
      declarators rest

def declarator : Declarator → Compiling Unit
  | .variable name span value => do
      if ← isTopLevel then
        let index ← addString name span
        addGlobal name
        match value with
        | some value => do
            expr value
            emit .defineGlobal index
        | none => emit .declareGlobal index
      else
        let slot ← declareSlot name span
        match value with
        | some value => do
            expr value
            emit .storeLocal slot
            emit .pop
        | none => pure ()
  | .broken error => throw error

/-- The code of a statement. At the top level the slot of the unit's result keeps the value of the
last expression statement. -/
def stmt : Stmt → Compiling Unit
  | .expression value => do
      expr value
      if ← isTopLevel then emit .storeLocal
      emit .pop
  | .declare names => declarators names
  | .define name span body => do
      if ← isTopLevel then
        let index ← addString name span
        addGlobal name
        definition body
        emit .defineGlobal index
      else
        let slot ← declareSlot name span
        definition body
        emit .storeLocal slot
        emit .pop
  | .branch condition whenTrue whenFalse => do
      expr condition
      let otherwise ← newLabel
      emitJump .jumpIfFalse otherwise
      stmt whenTrue
      match whenFalse with
      | none => placeLabel otherwise
      | some whenFalse => do
          let done ← newLabel
          emitJump .jump done
          placeLabel otherwise
          stmt whenFalse
          placeLabel done
  | .whileLoop condition body => do
      let start ← newLabel
      let done ← newLabel
      placeLabel start
      expr condition
      emitJump .jumpIfFalse done
      inLoop ⟨done, start⟩ (stmt body)
      emitJump .jump start
      placeLabel done
  | .forLoop start condition step body => do
      forStart start
      let test ← newLabel
      let done ← newLabel
      placeLabel test
      match condition with
      | none => pure ()
      | some condition => do
          expr condition
          emitJump .jumpIfFalse done
      let next ←
        match step with
        | none => pure test
        | some step => do
            let first ← newLabel
            let next ← newLabel
            emitJump .jump first
            placeLabel next
            expr step
            emit .pop
            emitJump .jump test
            placeLabel first
            pure next
      inLoop ⟨done, next⟩ (stmt body)
      emitJump .jump next
      placeLabel done
  | .breakLoop span => loopJump .kwBreak (·.breakTo) span
  | .continueLoop span => loopJump .kwContinue (·.continueTo) span
  | .return_ value => do
      let before ← depth
      match value with
      | none => emit .retUndefined
      | some value => do
          expr value
          emit .ret
      setDepth before
  | .block body => stmts body
  | .broken error => throw error

/-- The code of what a `for` loop starts with. -/
def forStart : ForStart → Compiling Unit
  | .nothing => pure ()
  | .declare names => declarators names
  | .evaluate value => do
      expr value
      emit .pop

/-- The code of statements, one after the other. -/
def stmts : List Stmt → Compiling Unit
  | [] => pure ()
  | first :: rest => do
      stmt first
      stmts rest

end

/-- Adds the global names that a unit declares. -/
def addGlobals : List (String × Span) → Compiling Unit
  | [] => pure ()
  | (name, _) :: rest => do
      addGlobal name
      addGlobals rest

/-- The code of a unit, whose top level has one slot for the result. -/
def unit (tree : UnitTree) : Compiling Unit := do
  addGlobals tree.declared
  stmts tree.body
  emit .loadLocal
  emit .ret
  let state ← get
  let main ← orComplain tree.ending (state.assembler.finish 1 0 #[] false)
  set { state with functions := state.functions.setIfInBounds 0 main }

end Compiling

/-- What the compilation of a unit starts from: its own function comes before the others. -/
def Compilation.start : Compilation := { functions := #[default] }

/-- Compiles a unit of program text. Assignments are accepted to variables that the unit declares
and to the globals known already. -/
def compile (bytes : List UInt8) (limits : CompileLimits) (isKnownGlobal : String → Bool) :
    Except CompileError Program := do
  let tree := UnitTree.ofTokens limits.maxExprDepth (TokenStream.ofBytes bytes)
  let (_, done) ← (Compiling.unit tree).run { limits, isKnownGlobal } |>.run .start
  pure
    { numbers := done.numbers.items
      strings := done.strings.items
      functions := done.functions }

end PocketScript
