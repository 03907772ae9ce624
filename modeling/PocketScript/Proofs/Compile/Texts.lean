import PocketScript.Proofs.Compile.Shaped
import PocketScript.Proofs.Tree.Texts

/-!
# The string constants of compiled programs

A compilation stores nothing but texts of its tree as string constants: the values of string literals,
the names of properties, and the names of globals. Whatever these texts have in common the constants
have as well (`Compiling.keeps_unit`), so all string constants of a program that was compiled from a
program text can stand in an image (`compile_storable`).
-/

namespace PocketScript

/-- All string constants so far hold, and functions have numbers of 16 bits. -/
structure Compilation.Stores (holds : String → Prop) (state : Compilation) : Prop where
  texts : ∀ text ∈ state.strings.items, holds text
  few : state.functions.size ≤ 65536

/-- A table has no items but those before and the one that is added. -/
theorem ConstantTable.mem_items_add {α : Type} [BEq α] [LawfulBEq α] [Hashable α] {limit : Nat}
    {table after : ConstantTable α} {item other : α} {place : Option UInt16}
    (added : table.add limit item = (place, after)) (member : other ∈ after.items) :
    other ∈ table.items ∨ other = item := by
  unfold ConstantTable.add at added
  split at added
  · cases added
    exact .inl member
  · split at added
    · cases added
      exact .inl member
    · cases added
      exact Array.mem_push.mp member

namespace Compiling

variable {α β : Type} {holds : String → Prop}

/-- The step stores only string constants that hold. -/
def Keeps (holds : String → Prop) (step : Compiling α) : Prop :=
  ∀ context before result after, Leads context step before result after →
    before.Stores holds → after.Stores holds

/-- Steps in a row store nothing else when none of them does. -/
theorem keeps_bind {step : Compiling α} {next : α → Compiling β} (first : Keeps holds step)
    (second : ∀ result, Keeps holds (next result)) : Keeps holds (step >>= next) := by
  intro context before result after leads stores
  obtain ⟨_, _, one, two⟩ := leads_bind.mp leads
  exact second _ _ _ _ _ two (first _ _ _ _ one stores)

/-- And so a choice between two steps. -/
theorem keeps_ite {condition : Prop} [Decidable condition] {first second : Compiling α}
    (one : Keeps holds first) (two : Keeps holds second) :
    Keeps holds (if condition then first else second) := by
  split
  · exact one
  · exact two

/-- The step leaves the table of strings alone, and adds no function. -/
theorem keeps_of_same {step : Compiling α}
    (same : ∀ context before result after, Leads context step before result after →
      after.strings = before.strings ∧ after.functions.size = before.functions.size) :
    Keeps holds step := by
  intro context before result after leads stores
  obtain ⟨strings, functions⟩ := same _ _ _ _ leads
  exact ⟨strings ▸ stores.texts, functions ▸ stores.few⟩

/-- A step that leaves the state as it is stores nothing. -/
theorem keeps_of_eq {step : Compiling α}
    (same : ∀ context before result after, Leads context step before result after →
      before = after) : Keeps holds step :=
  fun context before result after leads stores => same context before result after leads ▸ stores

/-- To return a result stores nothing. -/
theorem keeps_pure (result : α) : Keeps holds (pure result) :=
  keeps_of_eq fun _ _ _ _ leads => (leads_pure.mp leads).2

/-- A step that fails never ends, so there is nothing to tell. -/
theorem keeps_throw (error : CompileError) : Keeps holds (throw error : Compiling α) :=
  fun _ _ _ _ leads => absurd leads not_leads_throw

/-- An objection is such a step. -/
theorem keeps_complain (complaint : Complaint) (span : Span) :
    Keeps holds (complain complaint span : Compiling α) := keeps_throw _

/-- To look at the state stores nothing. -/
theorem keeps_get : Keeps holds get := keeps_of_eq fun _ _ _ _ leads => (leads_get.mp leads).2

/-- Nor does a look at the context. -/
theorem keeps_read : Keeps holds read := keeps_of_eq fun _ _ _ _ leads => (leads_read.mp leads).2

/-- A change stores nothing if it leaves the strings alone and adds no function. -/
theorem keeps_modify {change : Compilation → Compilation}
    (same : ∀ state, (change state).strings = state.strings ∧
      (change state).functions.size = state.functions.size) :
    Keeps holds (modify change : Compiling Unit) :=
  keeps_of_same fun _ before _ _ leads => leads_modify.mp leads ▸ same before

/-- An outcome that may be objected to stores nothing. -/
theorem keeps_orComplain (span : Span) (outcome : Except Complaint α) :
    Keeps holds (orComplain span outcome) :=
  keeps_of_eq fun _ _ _ _ leads => (leads_orComplain.mp leads).2

/-! ## Code -/

/-- The assembler knows no texts. -/
theorem keeps_assemble (change : Assembler → Assembler) : Keeps holds (assemble change) :=
  keeps_modify fun _ => ⟨rfl, rfl⟩

/-- So an instruction stores nothing. -/
theorem keeps_emit (op : Opcode) (a b : UInt16) : Keeps holds (emit op a b) := keeps_assemble _

/-- Nor does a new label. -/
theorem keeps_newLabel : Keeps holds newLabel := by
  refine keeps_of_same fun _ _ _ _ leads => ?_
  obtain ⟨-, rfl⟩ := leads_newLabel.mp leads
  exact ⟨rfl, rfl⟩

/-- Nor a look at the depth of the stack. -/
theorem keeps_depth : Keeps holds depth :=
  keeps_of_eq fun _ _ _ _ leads => (leads_depth.mp leads).2

/-- Nor one at the scopes. -/
theorem keeps_isTopLevel : Keeps holds isTopLevel :=
  keeps_of_eq fun _ _ _ _ leads => (leads_isTopLevel.mp leads).2

/-! ## Constants and names -/

/-- Numbers have a table of their own. -/
theorem keeps_addNumber (value : Number) (span : Span) : Keeps holds (addNumber value span) := by
  refine keeps_of_same fun _ _ _ _ leads => ?_
  obtain ⟨_, -, rfl⟩ := leads_addNumber.mp leads
  exact ⟨rfl, rfl⟩

/-- A string is stored itself, so it has to hold. -/
theorem keeps_addString {value : String} (held : holds value) (span : Span) :
    Keeps holds (addString value span) := by
  intro context before result after leads stores
  obtain ⟨_, added, rfl⟩ := leads_addString.mp leads
  refine ⟨fun text member => ?_, stores.few⟩
  rcases ConstantTable.mem_items_add added member with old | rfl
  · exact stores.texts text old
  · exact held

/-- To resolve a name only adds captures. -/
theorem keeps_resolve (name : String) (span : Span) : Keeps holds (resolve name span) := by
  refine keeps_of_same fun _ _ _ _ leads => ?_
  obtain ⟨_, -, rfl⟩ := leads_resolve.mp leads
  exact ⟨rfl, rfl⟩

/-- The limit on slots is only looked at. -/
theorem keeps_slotLimit : Keeps holds slotLimit := keeps_bind keeps_read fun _ => keeps_pure _

/-- Names in scopes are no string constants. -/
theorem keeps_declareSlot (name : String) (span : Span) : Keeps holds (declareSlot name span) := by
  refine keeps_bind keeps_get fun state => ?_
  split
  · exact keeps_pure _
  · exact keeps_bind keeps_slotLimit fun _ => keeps_bind (keeps_orComplain _ _) fun _ =>
      keeps_bind (keeps_modify fun _ => ⟨rfl, rfl⟩) fun _ => keeps_pure _

/-- Neither are those of parameters. -/
theorem keeps_declareParams (names : List (String × Span)) : Keeps holds (declareParams names) := by
  induction names with
  | nil => exact keeps_pure _
  | cons first rest ih =>
      refine keeps_bind keeps_get fun state => ?_
      split
      · exact ih
      · exact keeps_bind keeps_slotLimit fun _ => keeps_bind (keeps_orComplain _ _) fun _ =>
          keeps_bind (keeps_modify fun _ => ⟨rfl, rfl⟩) fun _ => ih

/-- Nor those that are declared ahead. -/
theorem keeps_declareAhead (names : List (String × Span)) : Keeps holds (declareAhead names) := by
  induction names with
  | nil => exact keeps_pure _
  | cons first rest ih =>
      exact keeps_bind (keeps_bind (keeps_declareSlot _ _) fun _ => keeps_pure _) fun _ => ih

/-- To load a number stores no text. -/
theorem keeps_number (value : Number) (span : Span) : Keeps holds (number value span) := by
  unfold number
  split
  · exact keeps_emit _ _ _
  · split
    · exact keeps_emit _ _ _
    · exact keeps_bind (keeps_addNumber _ _) fun _ => keeps_emit _ _ _

/-- To load a string stores that string. -/
theorem keeps_string {value : String} (held : holds value) (span : Span) :
    Keeps holds (string value span) :=
  keeps_bind (keeps_addString held span) fun _ => keeps_emit _ _ _

/-- To load a name stores it if it is a global. -/
theorem keeps_load {name : String} (held : holds name) (place : Place) (span : Span) :
    Keeps holds (load place name span) := by
  cases place with
  | slot index => exact keeps_emit _ _ _
  | capture index => exact keeps_emit _ _ _
  | global => exact keeps_bind (keeps_addString held span) fun _ => keeps_emit _ _ _

/-- And so does an assignment to it. -/
theorem keeps_store {name : String} (held : holds name) (place : Place) (span : Span) :
    Keeps holds (store place name span) := by
  cases place with
  | slot index => exact keeps_emit _ _ _
  | capture index => exact keeps_emit _ _ _
  | global =>
      refine keeps_bind keeps_get fun _ => keeps_bind keeps_read fun _ => ?_
      split
      · exact keeps_bind (keeps_addString held span) fun _ => keeps_emit _ _ _
      · exact keeps_complain _ _

/-- The names of globals are kept beside the string constants. -/
theorem keeps_addGlobals (names : List (String × Span)) : Keeps holds (addGlobals names) := by
  induction names with
  | nil => exact keeps_pure _
  | cons first rest ih => exact keeps_bind (keeps_modify fun _ => ⟨rfl, rfl⟩) fun _ => ih

/-! ## Functions and loops -/

/-- A function gets a number as long as there are some of 16 bits left. -/
theorem keeps_openFunction (span : Span) : Keeps holds (openFunction span) := by
  intro context before result after leads stores
  obtain ⟨few, -, rfl⟩ := leads_openFunction.mp leads
  refine ⟨stores.texts, ?_⟩
  change (before.functions.push default).size ≤ 65536
  rw [Array.size_push]
  omega

/-- Captures are pushed by instructions. -/
theorem keeps_pushCaptures (sources : List CaptureSource) : Keeps holds (pushCaptures sources) := by
  induction sources with
  | nil => exact keeps_pure _
  | cons first rest ih => cases first <;> exact keeps_bind (keeps_emit _ _ _) fun _ => ih

/-- A function that is finished replaces the one that was opened. -/
theorem keeps_closeFunction (span : Span) (index : Nat) (assembler : Assembler)
    (loops : List LoopLabels) : Keeps holds (closeFunction span index assembler loops) := by
  refine keeps_bind keeps_get fun _ => keeps_bind keeps_get fun _ =>
    keeps_bind (keeps_orComplain _ _) fun _ =>
      keeps_bind (keeps_modify fun _ => ⟨rfl, Array.size_setIfInBounds⟩) fun _ => ?_
  split
  · exact keeps_bind (keeps_pushCaptures _) fun _ => keeps_emit _ _ _
  · exact keeps_emit _ _ _

/-- A jump out of a loop is an instruction. -/
theorem keeps_loopJump (keyword : TokenKind) (target : LoopLabels → Label) (span : Span) :
    Keeps holds (loopJump keyword target span) := by
  refine keeps_bind keeps_get fun state => ?_
  split
  · exact keeps_complain _ _
  · exact keeps_bind keeps_depth fun _ => keeps_bind (keeps_assemble _) fun _ => keeps_assemble _

/-- The labels of a loop are no texts. -/
theorem keeps_inLoop {step : Compiling Unit} (labels : LoopLabels) (keeps : Keeps holds step) :
    Keeps holds (inLoop labels step) :=
  keeps_bind keeps_get fun _ => keeps_bind (keeps_modify fun _ => ⟨rfl, rfl⟩) fun _ =>
    keeps_bind keeps fun _ => keeps_modify fun _ => ⟨rfl, rfl⟩

/-- A `for` loop stores what its clauses and its body do. -/
theorem keeps_forLoop {start : ForStart} {condition step : Option Expr} {body : Stmt}
    (first : Keeps holds (forStart start)) (test : ∀ tree ∈ condition, Keeps holds (expr tree))
    (between : ∀ tree ∈ step, Keeps holds (expr tree)) (rounds : Keeps holds (stmt body)) :
    Keeps holds (stmt (.forLoop start condition step body)) := by
  intro context before result after leads stores
  obtain ⟨started, begun, tested, tests, next, stepped, steps, repeated, ran, rfl⟩ :=
    leads_forLoop leads
  have here := first _ _ _ _ begun stores
  have behindTest : tested.Stores holds := by
    cases tests with
    | none => exact ⟨here.texts, here.few⟩
    | some evaluated =>
        have evaluated := test _ rfl _ _ _ _ evaluated ⟨here.texts, here.few⟩
        exact ⟨evaluated.texts, evaluated.few⟩
  have behindStep : stepped.Stores holds := by
    cases steps with
    | none => exact behindTest
    | some evaluated =>
        have evaluated := between _ rfl _ _ _ _ evaluated ⟨behindTest.texts, behindTest.few⟩
        exact ⟨evaluated.texts, evaluated.few⟩
  have repeats := rounds _ _ _ _ ran ⟨behindStep.texts, behindStep.few⟩
  exact ⟨repeats.texts, repeats.few⟩

/-! ## Trees -/

mutual

/-- An expression stores nothing but its texts. -/
theorem keeps_expr : {tree : Expr} → tree.Texts holds → Keeps holds (expr tree)
  | .literal _, _ => keeps_emit _ _ _
  | .number value span, _ => keeps_number value span
  | .string _ span, held => keeps_string held span
  | .name _ span, held =>
      keeps_bind (keeps_resolve _ _) fun place => keeps_load held place span
  | .unary _ _, held => keeps_bind (keeps_expr held) fun _ => keeps_emit _ _ _
  | .binary _ _ _, held =>
      keeps_bind (keeps_expr held.1) fun _ => keeps_bind (keeps_expr held.2) fun _ =>
        keeps_emit _ _ _
  | .logical _ _ _, held =>
      keeps_bind (keeps_expr held.1) fun _ => keeps_bind keeps_newLabel fun _ =>
        keeps_bind (keeps_assemble _) fun _ => keeps_bind (keeps_expr held.2) fun _ =>
          keeps_assemble _
  | .conditional _ _ _, held =>
      keeps_bind (keeps_expr held.1) fun _ => keeps_bind keeps_newLabel fun _ =>
        keeps_bind keeps_newLabel fun _ => keeps_bind (keeps_assemble _) fun _ =>
          keeps_bind keeps_depth fun _ => keeps_bind (keeps_expr held.2.1) fun _ =>
            keeps_bind (keeps_assemble _) fun _ => keeps_bind (keeps_assemble _) fun _ =>
              keeps_bind (keeps_assemble _) fun _ => keeps_bind (keeps_expr held.2.2) fun _ =>
                keeps_assemble _
  | .assignName _ span none _, held =>
      keeps_bind (keeps_resolve _ _) fun place => keeps_bind (keeps_expr held.2) fun _ =>
        keeps_store held.1 place span
  | .assignName _ span (some _) _, held =>
      keeps_bind (keeps_resolve _ _) fun place => keeps_bind (keeps_load held.1 place span) fun _ =>
        keeps_bind (keeps_expr held.2) fun _ => keeps_bind (keeps_emit _ _ _) fun _ =>
          keeps_store held.1 place span
  | .assignElement _ _ none _, held =>
      keeps_bind (keeps_expr held.1) fun _ => keeps_bind (keeps_expr held.2.1) fun _ =>
        keeps_bind (keeps_expr held.2.2) fun _ => keeps_emit _ _ _
  | .assignElement _ _ (some _) _, held =>
      keeps_bind (keeps_expr held.1) fun _ => keeps_bind (keeps_expr held.2.1) fun _ =>
        keeps_bind (keeps_emit _ _ _) fun _ => keeps_bind (keeps_emit _ _ _) fun _ =>
          keeps_bind (keeps_expr held.2.2) fun _ => keeps_bind (keeps_emit _ _ _) fun _ =>
            keeps_emit _ _ _
  | .element _ _, held =>
      keeps_bind (keeps_expr held.1) fun _ => keeps_bind (keeps_expr held.2) fun _ =>
        keeps_emit _ _ _
  | .call _ _ _, held =>
      keeps_bind (keeps_expr held.1) fun _ => keeps_bind (keeps_exprs held.2) fun _ =>
        keeps_bind keeps_read fun _ => keeps_ite (keeps_complain _ _) (keeps_emit _ _ _)
  | .array _ _, held =>
      keeps_bind (keeps_exprs held) fun _ => keeps_ite (keeps_complain _ _) (keeps_emit _ _ _)
  | .object _ _, held =>
      keeps_bind (keeps_entries held) fun _ => keeps_ite (keeps_complain _ _) (keeps_emit _ _ _)
  | .function _, held => keeps_definition held
  | .broken error, _ => keeps_throw error

/-- Nor does one that may be left out. -/
theorem keeps_ifAny :
    {tree : Option Expr} → Expr.TextsIfAny holds tree → ∀ value ∈ tree, Keeps holds (expr value)
  | none, _ => fun _ member => by cases member
  | some _, held => fun _ member => by
      cases member
      exact keeps_expr held

/-- Nor do expressions in a row. -/
theorem keeps_exprs : {trees : List Expr} → Expr.TextsOfAll holds trees → Keeps holds (exprs trees)
  | [], _ => keeps_pure _
  | _ :: _, held => keeps_bind (keeps_expr held.1) fun _ => keeps_exprs held.2

/-- Properties store their keys and what their values store. -/
theorem keeps_entries :
    {trees : List Entry} → Entry.TextsOfAll holds trees → Keeps holds (entries trees)
  | [], _ => keeps_pure _
  | _ :: _, held => keeps_bind (keeps_entry held.1) fun _ => keeps_entries held.2

/-- And so does each of them. -/
theorem keeps_entry : {tree : Entry} → tree.Texts holds → Keeps holds (entry tree)
  | .property _ span _, held => keeps_bind (keeps_string held.1 span) fun _ => keeps_expr held.2
  | .broken error, _ => keeps_throw error

/-- A function stores what its body does. -/
theorem keeps_definition : {tree : Definition} → tree.Texts holds → Keeps holds (definition tree)
  | .mk _ _ _ _, held =>
      keeps_bind (keeps_openFunction _) fun _ => keeps_bind (keeps_declareParams _) fun _ =>
        keeps_bind (keeps_declareAhead _) fun _ => keeps_bind (keeps_stmts held) fun _ =>
          keeps_bind (keeps_emit _ _ _) fun _ => keeps_closeFunction _ _ _ _

/-- Variables store their names and what their values store. -/
theorem keeps_declarators :
    {trees : List Declarator} → Declarator.TextsOfAll holds trees → Keeps holds (declarators trees)
  | [], _ => keeps_pure _
  | _ :: _, held => keeps_bind (keeps_declarator held.1) fun _ => keeps_declarators held.2

/-- And so does each of them. -/
theorem keeps_declarator : {tree : Declarator} → tree.Texts holds → Keeps holds (declarator tree)
  | .variable _ span none, held =>
      keeps_bind keeps_isTopLevel fun _ =>
        keeps_ite
          (keeps_bind (keeps_addString held.1 span) fun _ =>
            keeps_bind (keeps_modify fun _ => ⟨rfl, rfl⟩) fun _ => keeps_emit _ _ _)
          (keeps_bind (keeps_declareSlot _ _) fun _ => keeps_pure _)
  | .variable _ span (some _), held =>
      keeps_bind keeps_isTopLevel fun _ =>
        keeps_ite
          (keeps_bind (keeps_addString held.1 span) fun _ =>
            keeps_bind (keeps_modify fun _ => ⟨rfl, rfl⟩) fun _ => keeps_bind (keeps_expr held.2) fun _ =>
              keeps_emit _ _ _)
          (keeps_bind (keeps_declareSlot _ _) fun _ => keeps_bind (keeps_expr held.2) fun _ =>
            keeps_bind (keeps_emit _ _ _) fun _ => keeps_emit _ _ _)
  | .broken error, _ => keeps_throw error

/-- A statement stores nothing but its texts. -/
theorem keeps_stmt : {tree : Stmt} → tree.Texts holds → Keeps holds (stmt tree)
  | .expression _, held =>
      keeps_bind (keeps_expr held) fun _ => keeps_bind keeps_isTopLevel fun _ =>
        keeps_ite (keeps_bind (keeps_emit _ _ _) fun _ => keeps_emit _ _ _) (keeps_emit _ _ _)
  | .declare _, held => keeps_declarators held
  | .define _ span _, held =>
      keeps_bind keeps_isTopLevel fun _ =>
        keeps_ite
          (keeps_bind (keeps_addString held.1 span) fun _ =>
            keeps_bind (keeps_modify fun _ => ⟨rfl, rfl⟩) fun _ =>
              keeps_bind (keeps_definition held.2) fun _ => keeps_emit _ _ _)
          (keeps_bind (keeps_declareSlot _ _) fun _ => keeps_bind (keeps_definition held.2) fun _ =>
            keeps_bind (keeps_emit _ _ _) fun _ => keeps_emit _ _ _)
  | .branch _ _ none, held =>
      keeps_bind (keeps_expr held.1) fun _ => keeps_bind keeps_newLabel fun _ =>
        keeps_bind (keeps_assemble _) fun _ => keeps_bind (keeps_stmt held.2.1) fun _ =>
          keeps_assemble _
  | .branch _ _ (some _), held =>
      keeps_bind (keeps_expr held.1) fun _ => keeps_bind keeps_newLabel fun _ =>
        keeps_bind (keeps_assemble _) fun _ => keeps_bind (keeps_stmt held.2.1) fun _ =>
          keeps_bind keeps_newLabel fun _ => keeps_bind (keeps_assemble _) fun _ =>
            keeps_bind (keeps_assemble _) fun _ => keeps_bind (keeps_stmt held.2.2) fun _ =>
              keeps_assemble _
  | .whileLoop _ _, held =>
      keeps_bind keeps_newLabel fun _ => keeps_bind keeps_newLabel fun _ =>
        keeps_bind (keeps_assemble _) fun _ => keeps_bind (keeps_expr held.1) fun _ =>
          keeps_bind (keeps_assemble _) fun _ =>
            keeps_bind (keeps_inLoop _ (keeps_stmt held.2)) fun _ =>
              keeps_bind (keeps_assemble _) fun _ => keeps_assemble _
  | .forLoop _ _ _ _, held =>
      keeps_forLoop (keeps_forStart held.1) (keeps_ifAny held.2.1) (keeps_ifAny held.2.2.1)
        (keeps_stmt held.2.2.2)
  | .breakLoop _, _ => keeps_loopJump _ _ _
  | .continueLoop _, _ => keeps_loopJump _ _ _
  | .return_ none, _ =>
      keeps_bind keeps_depth fun _ => keeps_bind (keeps_emit _ _ _) fun _ => keeps_assemble _
  | .return_ (some _), held =>
      keeps_bind keeps_depth fun _ => keeps_bind (keeps_expr held) fun _ =>
        keeps_bind (keeps_emit _ _ _) fun _ => keeps_assemble _
  | .block _, held => keeps_stmts held
  | .broken error, _ => keeps_throw error

/-- Nor does what a loop starts with. -/
theorem keeps_forStart : {tree : ForStart} → tree.Texts holds → Keeps holds (forStart tree)
  | .nothing, _ => keeps_pure _
  | .declare _, held => keeps_declarators held
  | .evaluate _, held => keeps_bind (keeps_expr held) fun _ => keeps_emit _ _ _

/-- Nor do statements in a row. -/
theorem keeps_stmts : {trees : List Stmt} → Stmt.TextsOfAll holds trees → Keeps holds (stmts trees)
  | [], _ => keeps_pure _
  | _ :: _, held => keeps_bind (keeps_stmt held.1) fun _ => keeps_stmts held.2

end

/-- So all string constants of a unit are texts of its tree. -/
theorem keeps_unit {tree : UnitTree} (held : Stmt.TextsOfAll holds tree.body) :
    Keeps holds (unit tree) := by
  refine keeps_bind (keeps_addGlobals _) fun _ => keeps_bind (keeps_stmts held) fun _ =>
    keeps_bind (keeps_emit _ _ _) fun _ => keeps_bind (keeps_emit _ _ _) fun _ => ?_
  intro context before result after leads stores
  obtain ⟨_, _, got, leads⟩ := leads_bind.mp leads
  obtain ⟨rfl, rfl⟩ := leads_get.mp got
  obtain ⟨_, _, finished, leads⟩ := leads_bind.mp leads
  obtain ⟨-, rfl⟩ := leads_orComplain.mp finished
  cases leads
  exact ⟨stores.texts, Nat.le_trans (Nat.le_of_eq Array.size_setIfInBounds) stores.few⟩

end Compiling

variable {bytes : List UInt8} {limits : CompileLimits} {isKnownGlobal : String → Bool}
  {program : Program}

/-- The string constants of a compiled program have no NUL, and none is longer than the program
text. -/
theorem compile_storable (compiled : compile bytes limits isKnownGlobal = .ok program) :
    (∀ text ∈ program.strings, Storable bytes.length text) ∧ program.numbers.size ≤ 65536 ∧
      program.strings.size ≤ 65536 ∧ program.functions.size ≤ 65536 := by
  obtain ⟨done, leads, rfl⟩ := leads_of_compile compiled
  have held := UnitTree.texts_ofTokens limits.maxExprDepth (TokenStream.sound_ofBytes bytes)
  have start : Compilation.start.Stores (Storable bytes.length) :=
    ⟨fun text member => absurd member (Array.not_mem_empty text), by decide⟩
  have stores := Compiling.keeps_unit held _ _ _ _ leads start
  exact ⟨stores.texts, done.numbers.size_le, done.strings.size_le, stores.few⟩

/-- The code of a compiled function is addressed with 16 bits. -/
theorem size_code_le (compiled : compile bytes limits isKnownGlobal = .ok program)
    {function : FunctionDef} (member : function ∈ program.functions) :
    function.code.size ≤ 65535 := by
  obtain ⟨index, inside, found⟩ := Array.mem_iff_getElem.mp member
  obtain ⟨assembler, varCount, argCount, captured, isClosure, _, _, finished, -⟩ :=
    compile_shaped compiled (Array.getElem?_eq_some_iff.mpr ⟨inside, found⟩)
  obtain ⟨-, small, same⟩ := Assembler.finish_eq_ok finished
  have all := Assembler.sumOver_take_settled captured assembler assembler.pending.size
  rw [List.take_of_length_le (by simp)] at all
  rw [same, List.size_toArray, Instruction.length_flatMap_encode, all]
  exact small

/-- Compiled programs are small enough for images. -/
theorem compile_fits (compiled : compile bytes limits isKnownGlobal = .ok program)
    (small : bytes.length < Image.wordLimit) : program.Fits := by
  obtain ⟨texts, numbers, strings, functions⟩ := compile_storable compiled
  have limit : 65536 < Image.wordLimit := by decide
  refine ⟨by omega, by omega, by omega, fun text member => ?_, fun function member => ?_⟩
  · have short := (texts text member).short
    rw [Image.length_encode] at short
    omega
  · have := size_code_le compiled member
    omega

end PocketScript
