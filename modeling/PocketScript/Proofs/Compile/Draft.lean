import PocketScript.Compile
import PocketScript.Proofs.Code.Draft
import PocketScript.Proofs.Scope.Draft

/-!
# Drafts of programs

A draft is what a unit would be compiled to if numbers had no bound. The tree is walked as the
compiler walks it, but operands, indices and counts are natural numbers, each of them the index or
the number of items that it stands for, and no limit ends the walk. Nothing is objected to either, so
only the drafts of units that compile are of interest.
-/

namespace PocketScript

/-- What a unit has been drafted to so far. -/
structure Draft where
  scopes : List Draft.Scope := []
  /-- The code of the innermost function. -/
  code : Draft.Code := {}
  /-- The loops around the current statement in that function, the innermost first. -/
  loops : List LoopLabels := []
  numbers : Array Number := #[]
  strings : Array String := #[]
  /-- The functions in the order in which they start; those not complete yet hold no code. -/
  functions : Array Draft.Function := #[]
  deriving Repr

/-- A step of a draft. -/
abbrev Drafting := StateM Draft

namespace Draft

/-- Applies a change to the code of the current function. -/
def assemble (change : Code → Code) : Drafting Unit :=
  modify fun draft => { draft with code := change draft.code }

def push (step : Step) : Drafting Unit := assemble (·.push step)

def emit (op : Opcode) (a : Nat := 0) (b : Nat := 0) : Drafting Unit := push ⟨op, a, b, none⟩

def emitJump (op : Opcode) (target : Label) : Drafting Unit := push ⟨op, 0, 0, some target⟩

def newLabel : Drafting Label :=
  modifyGet fun draft =>
    let (label, code) := draft.code.newLabel
    (label, { draft with code })

def placeLabel (label : Label) : Drafting Unit := assemble (·.placeLabel label)

def depth : Drafting Int := return (← get).code.depth

def setDepth (depth : Int) : Drafting Unit := assemble fun code => { code with depth }

def isTopLevel : Drafting Bool := return (← get).scopes.isEmpty

def addNumber (value : Number) : Drafting Nat :=
  modifyGet fun draft =>
    let (index, numbers) := enter draft.numbers value
    (index, { draft with numbers })

def addString (value : String) : Drafting Nat :=
  modifyGet fun draft =>
    let (index, strings) := enter draft.strings value
    (index, { draft with strings })

def resolve (name : String) : Drafting Spot :=
  modifyGet fun draft =>
    let (spot, scopes) := resolveIn name draft.scopes
    (spot, { draft with scopes })

/-- Gives a name a slot in the current function. -/
def declareSlot (name : String) : Drafting Nat :=
  modifyGet fun draft =>
    let (index, scopes) := declareIn name draft.scopes
    (index, { draft with scopes })

/-- Gives each parameter of the current function its slot. -/
def declareParams : List (String × Span) → Drafting Unit
  | [] => pure ()
  | (name, _) :: rest => do
      modify fun draft => { draft with scopes := declareParameterIn name draft.scopes }
      declareParams rest

/-- Gives names their slots before the statements that declare them. -/
def declareAhead : List (String × Span) → Drafting Unit
  | [] => pure ()
  | (name, _) :: rest => do
      discard (declareSlot name)
      declareAhead rest

/-- Loads a number: zero and small positive whole numbers are part of the instruction. -/
def number (value : Number) : Drafting Unit := do
  if value = Number.zero then emit .pushZero
  else if value.isIntegral ∧ 0 < value.truncated ∧ value.truncated ≤ 65535 then
    emit .pushInt value.wholePart
  else emit .pushNumber (← addNumber value)

def string (value : String) : Drafting Unit := do
  emit .pushString (← addString value)

/-- Loads the value of a variable. -/
def load (spot : Spot) (name : String) : Drafting Unit :=
  match spot with
  | .slot index => emit .loadLocal index
  | .capture index => emit .loadUpvalue index
  | .global => do emit .loadGlobal (← addString name)

/-- Stores the operand on top into a variable and keeps it. -/
def store (spot : Spot) (name : String) : Drafting Unit :=
  match spot with
  | .slot index => emit .storeLocal index
  | .capture index => emit .storeUpvalue index
  | .global => do emit .storeGlobal (← addString name)

/-- Starts a function with an empty scope and empty code. Returned are its place in the table and
the code and the loops that it interrupts. -/
def openFunction : Drafting (Nat × Code × List LoopLabels) :=
  modifyGet fun draft =>
    ((draft.functions.size, draft.code, draft.loops),
      { draft with
        functions := draft.functions.push {}
        scopes := {} :: draft.scopes
        code := {}
        loops := [] })

/-- The instruction that pushes what a new closure captures. -/
def pushing : Source → Step
  | .outerSlot index => ⟨.pushCell, index, 0, none⟩
  | .outerCapture index => ⟨.pushUpvalue, index, 0, none⟩

/-- The draft in which a function is complete, and the code that it interrupted goes on. -/
def closed (draft : Draft) (index : Nat) (code : Code) (loops : List LoopLabels) : Draft :=
  let scope := draft.scopes.headD {}
  let function :=
    draft.code.finish scope.slots.size scope.argCount scope.captured (!scope.captures.isEmpty)
  { draft with
    functions := draft.functions.setIfInBounds index function
    scopes := draft.scopes.tail
    code
    loops }

/-- Creates the value of a completed function: a closure when it captures anything. -/
def create (scope : Scope) (index : Nat) : Drafting Unit := do
  if !scope.captures.isEmpty then
    scope.captures.toList.forM fun source => push (pushing source)
    emit .makeClosure index scope.captures.size
  else emit .pushFunction index

/-- Completes the function with a place in the table, goes on with the code and the loops that it
interrupted, and creates the function value there. -/
def closeFunction (index : Nat) (code : Code) (loops : List LoopLabels) : Drafting Unit := do
  let draft ← get
  set (draft.closed index code loops)
  create (draft.scopes.headD {}) index

/-- Jumps out of, or to the next round of, the innermost loop. -/
def loopJump (target : LoopLabels → Label) : Drafting Unit := do
  match (← get).loops with
  | [] => pure ()
  | labels :: _ =>
      let before ← depth
      emitJump .jump (target labels)
      setDepth before

/-- Runs a step with a loop around it. -/
def inLoop (labels : LoopLabels) (step : Drafting Unit) : Drafting Unit := do
  let outer := (← get).loops
  modify fun draft => { draft with loops := labels :: outer }
  step
  modify fun draft => { draft with loops := outer }

mutual

/-- The draft of an expression. -/
def expr : Expr → Drafting Unit
  | .literal value => emit (Compiling.literal value)
  | .number value _ => number value
  | .string value _ => string value
  | .name ident _ => do
      let spot ← resolve ident
      load spot ident
  | .unary op operand => do
      expr operand
      emit op.opcode
  | .binary op left right => do
      expr left
      expr right
      emit op.opcode
  | .logical op left right => do
      expr left
      let decided ← newLabel
      emitJump op.jump decided
      expr right
      placeLabel decided
  | .conditional condition whenTrue whenFalse => do
      expr condition
      let otherwise ← newLabel
      let done ← newLabel
      emitJump .jumpIfFalse otherwise
      let before ← depth
      expr whenTrue
      emitJump .jump done
      placeLabel otherwise
      setDepth before
      expr whenFalse
      placeLabel done
  | .assignName ident _ op value => do
      let spot ← resolve ident
      match op with
      | none => expr value
      | some op => do
          load spot ident
          expr value
          emit op.opcode
      store spot ident
  | .assignElement container key op value => do
      expr container
      expr key
      match op with
      | none => expr value
      | some op => do
          emit .dup2
          emit .getElem
          expr value
          emit op.opcode
      emit .setElem
  | .element container key => do
      expr container
      expr key
      emit .getElem
  | .call callee args _ => do
      expr callee
      exprs args
      emit .call args.length
  | .array elements _ => do
      exprs elements
      emit .makeArray elements.length
  | .object properties _ => do
      entries properties
      emit .makeObject properties.length
  | .function body => definition body
  | .broken _ => pure ()

/-- The draft of expressions, one after the other. -/
def exprs : List Expr → Drafting Unit
  | [] => pure ()
  | first :: rest => do
      expr first
      exprs rest

/-- The keys and values of an object literal, alternating. -/
def entries : List Entry → Drafting Unit
  | [] => pure ()
  | first :: rest => do
      entry first
      entries rest

def entry : Entry → Drafting Unit
  | .property key _ value => do
      string key
      expr value
  | .broken _ => pure ()

/-- The function value of a definition. -/
def definition : Definition → Drafting Unit
  | .mk _ params declared body => do
      let (index, code, loops) ← openFunction
      declareParams params
      declareAhead declared
      stmts body
      emit .retUndefined
      closeFunction index code loops

def declarators : List Declarator → Drafting Unit
  | [] => pure ()
  | first :: rest => do
      declarator first
      declarators rest

/-- At the top level a name is declared as a global variable. -/
def declarator : Declarator → Drafting Unit
  | .variable name _ value => do
      if ← isTopLevel then
        let index ← addString name
        match value with
        | some value => do
            expr value
            emit .defineGlobal index
        | none => emit .declareGlobal index
      else
        let slot ← declareSlot name
        match value with
        | some value => do
            expr value
            emit .storeLocal slot
            emit .pop
        | none => pure ()
  | .broken _ => pure ()

/-- The draft of a statement. At the top level the slot of the unit's result keeps the value of the
last expression statement. -/
def stmt : Stmt → Drafting Unit
  | .expression value => do
      expr value
      if ← isTopLevel then emit .storeLocal
      emit .pop
  | .declare names => declarators names
  | .define name _ body => do
      if ← isTopLevel then
        let index ← addString name
        definition body
        emit .defineGlobal index
      else
        let slot ← declareSlot name
        definition body
        emit .storeLocal slot
        emit .pop
  | .branch condition whenTrue whenFalse => do
      expr condition
      let otherwise ← newLabel
      emitJump .jumpIfFalse otherwise
      stmt whenTrue
      match whenFalse with
      | none => placeLabel otherwise
      | some whenFalse => do
          let done ← newLabel
          emitJump .jump done
          placeLabel otherwise
          stmt whenFalse
          placeLabel done
  | .whileLoop condition body => do
      let start ← newLabel
      let done ← newLabel
      placeLabel start
      expr condition
      emitJump .jumpIfFalse done
      inLoop ⟨done, start⟩ (stmt body)
      emitJump .jump start
      placeLabel done
  | .forLoop start condition step body => do
      forStart start
      let test ← newLabel
      let done ← newLabel
      placeLabel test
      match condition with
      | none => pure ()
      | some condition => do
          expr condition
          emitJump .jumpIfFalse done
      let next ←
        match step with
        | none => pure test
        | some step => do
            let first ← newLabel
            let next ← newLabel
            emitJump .jump first
            placeLabel next
            expr step
            emit .pop
            emitJump .jump test
            placeLabel first
            pure next
      inLoop ⟨done, next⟩ (stmt body)
      emitJump .jump next
      placeLabel done
  | .breakLoop _ => loopJump (·.breakTo)
  | .continueLoop _ => loopJump (·.continueTo)
  | .return_ value => do
      let before ← depth
      match value with
      | none => emit .retUndefined
      | some value => do
          expr value
          emit .ret
      setDepth before
  | .block body => stmts body
  | .broken _ => pure ()

/-- What a `for` loop starts with. -/
def forStart : ForStart → Drafting Unit
  | .nothing => pure ()
  | .declare names => declarators names
  | .evaluate value => do
      expr value
      emit .pop

def stmts : List Stmt → Drafting Unit
  | [] => pure ()
  | first :: rest => do
      stmt first
      stmts rest

end

/-- The draft of a unit, whose top level has one slot for the result. -/
def unit (tree : UnitTree) : Drafting Unit := do
  stmts tree.body
  emit .loadLocal
  emit .ret
  modify fun draft =>
    { draft with functions := draft.functions.setIfInBounds 0 (draft.code.finish 1 0 #[] false) }

/-- What a unit would be compiled to. -/
def ofTree (tree : UnitTree) : Draft := ((unit tree).run { functions := #[{}] }).2

/-- What a program text would be compiled to. -/
def ofText (maxExprDepth : Nat) (bytes : List UInt8) : Draft :=
  ofTree (UnitTree.ofTokens maxExprDepth (TokenStream.ofBytes bytes))

/-- All numbers of a function have 16 bits. -/
structure Function.Fits (function : Function) : Prop where
  varCount : function.varCount ≤ 65535
  argCount : function.argCount ≤ 65535
  stackHigh : function.stackHigh ≤ 65535
  lines : ∀ line ∈ function.lines, line.offset ≤ 65535 ∧ line.a ≤ 65535 ∧ line.b ≤ 65535

/-- All numbers have 16 bits: the indices of constants and functions, and the numbers of each
function. -/
structure Fits (draft : Draft) : Prop where
  numbers : draft.numbers.size ≤ 65536
  strings : draft.strings.size ≤ 65536
  functions : draft.functions.size ≤ 65536
  each : ∀ function ∈ draft.functions, function.Fits

end Draft

/-- The numbers of a compiled function, and the lines that its code is listed as, are the drafted
ones. -/
structure FunctionDef.ReadsAs (function : FunctionDef) (drafted : Draft.Function) : Prop where
  varCount : function.varCount.toNat = drafted.varCount
  argCount : function.argCount.toNat = drafted.argCount
  stackHigh : function.stackHigh.toNat = drafted.stackHigh
  isClosure : function.isClosure = drafted.isClosure
  lines : ∃ listing, function.code.disassemble = .ok listing ∧
    listing.map Line.ofListed = drafted.lines

/-- A program has the constants of a draft, and its functions one by one. -/
structure Program.ReadsAs (program : Program) (draft : Draft) : Prop where
  numbers : program.numbers = draft.numbers
  strings : program.strings = draft.strings
  count : program.functions.size = draft.functions.size
  each : ∀ (index : Nat) function, program.functions[index]? = some function →
    ∃ drafted, draft.functions[index]? = some drafted ∧ function.ReadsAs drafted

end PocketScript
