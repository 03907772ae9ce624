import PocketScript.Proofs.Compile.Growth

/-!
# The shape of compiled code

How the code of an expression and of a statement is laid out in the complete code of a function:
which instructions stand where, and where the jumps among them lead. `ExprAt` and `StmtAt` follow the
constructors of the tree; a stretch of code runs from the index of its first instruction up to, not
including, another index. The code of statements is outlined by a `Flow`, in which expressions are
nothing but stretches of code.
-/

namespace PocketScript

/-- A stretch of code: the index of its first instruction, and the index behind its last one. -/
structure Stretch where
  start : Nat
  stop : Nat
  deriving DecidableEq, Repr

/-- The control flow of statements. -/
inductive Flow where
  | nothing
  /-- An expression is evaluated, and its value goes somewhere. -/
  | evaluate (value : Stretch) (sink : Sink)
  /-- The global that a string constant names is declared. -/
  | declare (name : UInt16)
  | sequence (first second : Flow)
  | branch (test : Stretch) (whenTrue whenFalse : Flow)
  /-- A loop, also one without a test; a step clause is evaluated between the rounds. -/
  | loop (test step : Option Stretch) (body : Flow)
  | breakLoop
  | continueLoop
  | return_ (value : Option Stretch)
  deriving DecidableEq, Repr

namespace CompleteCode

variable (code : CompleteCode)

/-- The instruction that loads a variable. -/
def LoadAt (place : Place) (name : String) (index : Nat) : Prop :=
  match place with
  | .slot slot => code.Holds index .loadLocal slot
  | .capture capture => code.Holds index .loadUpvalue capture
  | .global => ∃ constant, code.Holds index .loadGlobal constant ∧ code.isString constant name

/-- The instruction that stores into a variable. -/
def StoreAt (place : Place) (name : String) (index : Nat) : Prop :=
  match place with
  | .slot slot => code.Holds index .storeLocal slot
  | .capture capture => code.Holds index .storeUpvalue capture
  | .global => ∃ constant, code.Holds index .storeGlobal constant ∧ code.isString constant name

/-- The instructions that create a function value when so many operands are on the stack. -/
inductive FunctionAt (depth : Nat) : Nat → Nat → Prop
  | plain {start index} :
      code.Holds start .pushFunction index → code.HasRoom (depth + 1) →
        FunctionAt depth start (start + 1)
  | closure {start index} (count : Nat) :
      count ≤ 65535 →
        (∀ position < count, ∃ op capture, code.Holds (start + position) op capture ∧
          (op = .pushCell ∨ op = .pushUpvalue)) →
          code.Holds (start + count) .makeClosure index (UInt16.ofNat count) →
            code.HasRoom (depth + count) → code.HasRoom (depth + 1) →
              FunctionAt depth start (start + count + 1)

mutual

/-- The code of an expression, which runs when so many operands are on the stack. -/
inductive ExprAt : Nat → Expr → Nat → Nat → Prop
  | literal {depth value start} :
      code.Holds start (Compiling.literal value) → code.HasRoom (depth + 1) →
        ExprAt depth (.literal value) start (start + 1)
  | zero {depth span start} :
      code.Holds start .pushZero → code.HasRoom (depth + 1) →
        ExprAt depth (.number Number.zero span) start (start + 1)
  | small {depth value span start} :
      value.isIntegral ∧ 0 < value.truncated ∧ value.truncated ≤ 65535 →
        code.Holds start .pushInt (UInt16.ofNat value.wholePart) → code.HasRoom (depth + 1) →
          ExprAt depth (.number value span) start (start + 1)
  | number {depth value span start index} :
      code.Holds start .pushNumber index → code.isNumber index value → code.HasRoom (depth + 1) →
        ExprAt depth (.number value span) start (start + 1)
  | string {depth value span start index} :
      code.Holds start .pushString index → code.isString index value → code.HasRoom (depth + 1) →
        ExprAt depth (.string value span) start (start + 1)
  | name {depth ident span start place} :
      code.resolves ident place → code.LoadAt place ident start → code.HasRoom (depth + 1) →
        ExprAt depth (.name ident span) start (start + 1)
  | unary {depth op operand start stop} :
      ExprAt depth operand start stop → code.Holds stop op.opcode →
        ExprAt depth (.unary op operand) start (stop + 1)
  | binary {depth op left right start middle stop} :
      ExprAt depth left start middle → ExprAt (depth + 1) right middle stop →
        code.Holds stop op.opcode → ExprAt depth (.binary op left right) start (stop + 1)
  | logical {depth op left right start middle stop} :
      ExprAt depth left start middle → code.Jumps middle op.jump stop →
        ExprAt depth right (middle + 1) stop → ExprAt depth (.logical op left right) start stop
  | conditional {depth condition whenTrue whenFalse start middle between stop} :
      ExprAt depth condition start middle → code.Jumps middle .jumpIfFalse (between + 1) →
        ExprAt depth whenTrue (middle + 1) between → code.Jumps between .jump stop →
          ExprAt depth whenFalse (between + 1) stop →
            ExprAt depth (.conditional condition whenTrue whenFalse) start stop
  | assignName {depth ident span value start stop place} :
      code.resolves ident place → ExprAt depth value start stop →
        code.StoreAt place ident stop →
          ExprAt depth (.assignName ident span none value) start (stop + 1)
  | updateName {depth ident span op value start stop place} :
      code.resolves ident place → code.LoadAt place ident start → code.HasRoom (depth + 1) →
        ExprAt (depth + 1) value (start + 1) stop → code.Holds stop op.opcode →
          code.StoreAt place ident (stop + 1) →
            ExprAt depth (.assignName ident span (some op) value) start (stop + 2)
  | element {depth container key start middle stop} :
      ExprAt depth container start middle → ExprAt (depth + 1) key middle stop →
        code.Holds stop .getElem → ExprAt depth (.element container key) start (stop + 1)
  | assignElement {depth container key value start first second stop} :
      ExprAt depth container start first → ExprAt (depth + 1) key first second →
        ExprAt (depth + 2) value second stop → code.Holds stop .setElem →
          ExprAt depth (.assignElement container key none value) start (stop + 1)
  | updateElement {depth container key op value start first second stop} :
      ExprAt depth container start first → ExprAt (depth + 1) key first second →
        code.Holds second .dup2 → code.HasRoom (depth + 4) → code.Holds (second + 1) .getElem →
          ExprAt (depth + 3) value (second + 2) stop → code.Holds stop op.opcode →
            code.Holds (stop + 1) .setElem →
              ExprAt depth (.assignElement container key (some op) value) start (stop + 2)
  | call {depth callee args span start middle stop} :
      ExprAt depth callee start middle → ExprsAt (depth + 1) args middle stop →
        args.length ≤ 65535 → code.Holds stop .call (UInt16.ofNat args.length) →
          ExprAt depth (.call callee args span) start (stop + 1)
  | array {depth elements span start stop} :
      ExprsAt depth elements start stop → elements.length ≤ 65535 →
        code.Holds stop .makeArray (UInt16.ofNat elements.length) → code.HasRoom (depth + 1) →
          ExprAt depth (.array elements span) start (stop + 1)
  | object {depth properties span start stop} :
      EntriesAt depth properties start stop → properties.length ≤ 32767 →
        code.Holds stop .makeObject (UInt16.ofNat properties.length) → code.HasRoom (depth + 1) →
          ExprAt depth (.object properties span) start (stop + 1)
  | function {depth body start stop} :
      FunctionAt code depth start stop → ExprAt depth (.function body) start stop

/-- The code of expressions, one behind the other. -/
inductive ExprsAt : Nat → List Expr → Nat → Nat → Prop
  | nil {depth start} : ExprsAt depth [] start start
  | cons {depth first rest start middle stop} :
      ExprAt depth first start middle → ExprsAt (depth + 1) rest middle stop →
        ExprsAt depth (first :: rest) start stop

/-- The code of the keys and values of an object literal. -/
inductive EntriesAt : Nat → List Entry → Nat → Nat → Prop
  | nil {depth start} : EntriesAt depth [] start start
  | cons {depth key span value rest start index middle stop} :
      code.Holds start .pushString index → code.isString index key →
        ExprAt (depth + 1) value (start + 1) middle → EntriesAt (depth + 2) rest middle stop →
          EntriesAt depth (.property key span value :: rest) start stop

end

/-- The instructions that put the value of an expression, which is the topmost operand, somewhere. -/
def SinkAt (sink : Sink) (index : Nat) : Nat → Prop :=
  match sink with
  | .drop => fun stop => stop = index + 1 ∧ code.Holds index .pop
  | .slot slot => fun stop =>
      stop = index + 2 ∧ code.Holds index .storeLocal slot ∧ code.Holds (index + 1) .pop
  | .global name => fun stop => stop = index + 1 ∧ code.Holds index .defineGlobal name

/-- The test of a loop, whose failure ends the loop. -/
inductive TestAt (done : Nat) : Option Expr → Option Stretch → Nat → Nat → Prop
  | none {start} : TestAt done none none start start
  | some {condition start stop} :
      ExprAt code 0 condition start stop → code.Jumps stop .jumpIfFalse done →
        TestAt done (some condition) (some ⟨start, stop⟩) start (stop + 1)

/-- The step clause of a loop whose test starts at an index. It is jumped over at first; the next
round starts with it, or with the test when there is none. -/
inductive StepAt (test : Nat) : Option Expr → Option Stretch → Nat → Nat → Nat → Prop
  | none {start} : StepAt test none none test start start
  | some {step start stop} :
      code.Jumps start .jump (stop + 2) → ExprAt code 0 step (start + 1) stop →
        code.Holds stop .pop → code.Jumps (stop + 1) .jump test →
          StepAt test (some step) (some ⟨start + 1, stop⟩) (start + 1) start (stop + 2)

/-- The code of a declarator. -/
inductive DeclaratorAt : Declarator → Flow → Nat → Nat → Prop
  | empty {name span start} : DeclaratorAt (.variable name span none) .nothing start start
  | declared {name span start constant} :
      code.Holds start .declareGlobal constant →
        DeclaratorAt (.variable name span none) (.declare constant) start (start + 1)
  | value {name span value start middle stop sink} :
      ExprAt code 0 value start middle → code.SinkAt sink middle stop →
        DeclaratorAt (.variable name span (some value)) (.evaluate ⟨start, middle⟩ sink) start stop

/-- The code of declarators. -/
inductive DeclaratorsAt : List Declarator → Flow → Nat → Nat → Prop
  | nil {start} : DeclaratorsAt [] .nothing start start
  | cons {first rest flow flows start middle stop} :
      DeclaratorAt code first flow start middle → DeclaratorsAt rest flows middle stop →
        DeclaratorsAt (first :: rest) (.sequence flow flows) start stop

/-- The code of what a `for` loop starts with. -/
inductive ForStartAt : ForStart → Flow → Nat → Nat → Prop
  | nothing {start} : ForStartAt .nothing .nothing start start
  | declare {names flow start stop} :
      DeclaratorsAt code names flow start stop → ForStartAt (.declare names) flow start stop
  | evaluate {value start stop} :
      ExprAt code 0 value start stop → code.Holds stop .pop →
        ForStartAt (.evaluate value) (.evaluate ⟨start, stop⟩ .drop) start (stop + 1)

mutual

/-- The code of a statement inside some loops, the innermost one first. -/
inductive StmtAt : List LoopLabels → Stmt → Flow → Nat → Nat → Prop
  | expression {loops value start middle stop sink} :
      ExprAt code 0 value start middle → code.SinkAt sink middle stop →
        StmtAt loops (.expression value) (.evaluate ⟨start, middle⟩ sink) start stop
  | declare {loops names flow start stop} :
      DeclaratorsAt code names flow start stop → StmtAt loops (.declare names) flow start stop
  | define {loops name span body start middle stop sink} :
      FunctionAt code 0 start middle → code.SinkAt sink middle stop →
        StmtAt loops (.define name span body) (.evaluate ⟨start, middle⟩ sink) start stop
  | branch {loops condition whenTrue flow start middle stop} :
      ExprAt code 0 condition start middle → code.Jumps middle .jumpIfFalse stop →
        StmtAt loops whenTrue flow (middle + 1) stop →
          StmtAt loops (.branch condition whenTrue none)
            (.branch ⟨start, middle⟩ flow .nothing) start stop
  | branchElse {loops condition whenTrue whenFalse flow flow' start middle between stop} :
      ExprAt code 0 condition start middle → code.Jumps middle .jumpIfFalse (between + 1) →
        StmtAt loops whenTrue flow (middle + 1) between → code.Jumps between .jump stop →
          StmtAt loops whenFalse flow' (between + 1) stop →
            StmtAt loops (.branch condition whenTrue (some whenFalse))
              (.branch ⟨start, middle⟩ flow flow') start stop
  | whileLoop {loops labels condition body flow start middle stop} :
      ExprAt code 0 condition start middle → code.Jumps middle .jumpIfFalse (stop + 1) →
        code.Places labels.breakTo (stop + 1) → code.Places labels.continueTo start →
          StmtAt (labels :: loops) body flow (middle + 1) stop → code.Jumps stop .jump start →
            StmtAt loops (.whileLoop condition body)
              (.loop (some ⟨start, middle⟩) none flow) start (stop + 1)
  | forLoop {loops labels begin condition step body first test clause flow start middle tested next
        entry stop} :
      ForStartAt code begin first start middle →
        TestAt code (stop + 1) condition test middle tested →
          StepAt code middle step clause next tested entry →
            code.Places labels.breakTo (stop + 1) → code.Places labels.continueTo next →
              StmtAt (labels :: loops) body flow entry stop → code.Jumps stop .jump next →
                StmtAt loops (.forLoop begin condition step body)
                  (.sequence first (.loop test clause flow)) start (stop + 1)
  | breakLoop {loops labels span start} :
      code.JumpsTo start .jump labels.breakTo →
        StmtAt (labels :: loops) (.breakLoop span) .breakLoop start (start + 1)
  | continueLoop {loops labels span start} :
      code.JumpsTo start .jump labels.continueTo →
        StmtAt (labels :: loops) (.continueLoop span) .continueLoop start (start + 1)
  | returnNothing {loops start} :
      code.Holds start .retUndefined →
        StmtAt loops (.return_ none) (.return_ none) start (start + 1)
  | return_ {loops value start stop} :
      ExprAt code 0 value start stop → code.Holds stop .ret →
        StmtAt loops (.return_ (some value)) (.return_ (some ⟨start, stop⟩)) start (stop + 1)
  | block {loops body flow start stop} :
      StmtsAt loops body flow start stop → StmtAt loops (.block body) flow start stop

/-- The code of statements, one behind the other. -/
inductive StmtsAt : List LoopLabels → List Stmt → Flow → Nat → Nat → Prop
  | nil {loops start} : StmtsAt loops [] .nothing start start
  | cons {loops first rest flow flows start middle stop} :
      StmtAt loops first flow start middle → StmtsAt loops rest flows middle stop →
        StmtsAt loops (first :: rest) (.sequence flow flows) start stop

end

/-- The end of a function's code: it returns undefined, or the top level the result of its unit. -/
inductive EndsAt : Nat → Prop
  | function {stop} :
      code.Holds stop .retUndefined → code.assembler.pending.size = stop + 1 → EndsAt stop
  | unit {stop} :
      code.Holds stop .loadLocal → code.Holds (stop + 1) .ret → code.HasRoom 1 →
        code.assembler.pending.size = stop + 2 → EndsAt stop

/-- The whole code of a function with a body. -/
def BodyAt (body : List Stmt) (flow : Flow) : Prop :=
  ∃ stop, StmtsAt code [] body flow 0 stop ∧ EndsAt code stop

/-! ## Bounds -/

variable {code} {depth start stop index : Nat}

theorem HasRoom.mono {more : Nat} (room : code.HasRoom more) (fewer : depth ≤ more) :
    code.HasRoom depth := by
  unfold HasRoom at room ⊢
  omega

theorem Holds.lt {op : Opcode} {a b : UInt16} (holds : code.Holds index op a b) :
    index < code.assembler.pending.size := by
  obtain ⟨inside, -⟩ := Array.getElem?_eq_some_iff.mp holds
  exact inside

theorem LoadAt.lt {place : Place} {name : String} (loads : code.LoadAt place name index) :
    index < code.assembler.pending.size := by
  cases place with
  | slot slot => exact Holds.lt loads
  | capture capture => exact Holds.lt loads
  | global =>
      obtain ⟨_, holds, -⟩ := loads
      exact holds.lt

theorem StoreAt.lt {place : Place} {name : String} (stores : code.StoreAt place name index) :
    index < code.assembler.pending.size := by
  cases place with
  | slot slot => exact Holds.lt stores
  | capture capture => exact Holds.lt stores
  | global =>
      obtain ⟨_, holds, -⟩ := stores
      exact holds.lt

theorem FunctionAt.bounds (function : code.FunctionAt depth start stop) :
    start < stop ∧ stop ≤ code.assembler.pending.size ∧ code.HasRoom (depth + 1) := by
  cases function with
  | plain holds room => exact ⟨Nat.lt_succ_self _, holds.lt, room⟩
  | closure count _ _ holds _ room => exact ⟨by omega, holds.lt, room⟩

mutual

/-- The code of an expression is not empty and lies within the code of its function, which has room
for its value. -/
theorem ExprAt.bounds {depth start stop : Nat} {tree : Expr}
    (layout : code.ExprAt depth tree start stop) :
    start < stop ∧ stop ≤ code.assembler.pending.size ∧ code.HasRoom (depth + 1) := by
  cases layout with
  | literal holds room => exact ⟨Nat.lt_succ_self _, holds.lt, room⟩
  | zero holds room => exact ⟨Nat.lt_succ_self _, holds.lt, room⟩
  | small _ holds room => exact ⟨Nat.lt_succ_self _, holds.lt, room⟩
  | number holds _ room => exact ⟨Nat.lt_succ_self _, holds.lt, room⟩
  | string holds _ room => exact ⟨Nat.lt_succ_self _, holds.lt, room⟩
  | name _ loads room => exact ⟨Nat.lt_succ_self _, loads.lt, room⟩
  | unary operand holds =>
      have inner := operand.bounds
      exact ⟨by omega, holds.lt, inner.2.2⟩
  | binary left right holds =>
      have first := left.bounds
      have second := right.bounds
      exact ⟨by omega, holds.lt, first.2.2⟩
  | logical left jumps right =>
      have first := left.bounds
      have second := right.bounds
      exact ⟨by omega, second.2.1, first.2.2⟩
  | conditional condition _ whenTrue _ whenFalse =>
      have test := condition.bounds
      have first := whenTrue.bounds
      have second := whenFalse.bounds
      exact ⟨by omega, second.2.1, test.2.2⟩
  | assignName _ value stores =>
      have inner := value.bounds
      exact ⟨by omega, stores.lt, inner.2.2⟩
  | updateName _ loads room value _ stores =>
      have inner := value.bounds
      exact ⟨by omega, stores.lt, room⟩
  | element container key holds =>
      have first := container.bounds
      have second := key.bounds
      exact ⟨by omega, holds.lt, first.2.2⟩
  | assignElement container key value holds =>
      have first := container.bounds
      have second := key.bounds
      have third := value.bounds
      exact ⟨by omega, holds.lt, first.2.2⟩
  | updateElement container key _ _ _ value _ holds =>
      have first := container.bounds
      have second := key.bounds
      have third := value.bounds
      exact ⟨by omega, holds.lt, first.2.2⟩
  | call callee args _ holds =>
      have first := callee.bounds
      have others := args.bounds
      exact ⟨by omega, holds.lt, first.2.2⟩
  | array items _ holds room =>
      have inner := items.bounds
      exact ⟨by omega, holds.lt, room⟩
  | object properties _ holds room =>
      have inner := properties.bounds
      exact ⟨by omega, holds.lt, room⟩
  | function body => exact body.bounds

theorem ExprsAt.bounds {depth start stop : Nat} {trees : List Expr}
    (layout : code.ExprsAt depth trees start stop) : start ≤ stop := by
  cases layout with
  | nil => exact Nat.le_refl _
  | cons first rest =>
      have one := first.bounds
      have others := rest.bounds
      omega

theorem EntriesAt.bounds {depth start stop : Nat} {entries : List Entry}
    (layout : code.EntriesAt depth entries start stop) : start ≤ stop := by
  cases layout with
  | nil => exact Nat.le_refl _
  | cons _ _ value rest =>
      have one := value.bounds
      have others := rest.bounds
      omega

end

end CompleteCode

/-- The function was completed from the code of some statements. -/
def FunctionDef.IsShaped (function : FunctionDef) : Prop :=
  ∃ (assembler : Assembler) (varCount : Nat) (argCount : UInt16) (captured : Array Bool)
    (isClosure : Bool) (body : List Stmt) (flow : Flow),
    assembler.finish varCount argCount captured isClosure = .ok function ∧
      (CompleteCode.plain assembler).BodyAt body flow

end PocketScript
