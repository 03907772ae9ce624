import PocketScript.CompileError
import PocketScript.Number
import PocketScript.Operator

/-!
# Program trees

The tree of a unit of program text. Spans are kept only where the compiler may still object. A text
that is no program has a tree too: it has a broken node at the place where reading failed, and
nothing behind that place. Whoever walks the tree in source order therefore meets every objection in
the order in which a single pass over the text would raise it.
-/

namespace PocketScript

/-- The literals that are reserved words. -/
inductive Literal where
  | true_
  | false_
  | undefined
  | nan
  deriving DecidableEq, Repr

mutual

inductive Expr where
  | literal (value : Literal)
  | number (value : Number) (span : Span)
  | string (value : String) (span : Span)
  | name (ident : String) (span : Span)
  | unary (op : UnaryOp) (operand : Expr)
  | binary (op : BinaryOp) (left right : Expr)
  | logical (op : LogicalOp) (left right : Expr)
  | conditional (condition whenTrue whenFalse : Expr)
  /-- Assigns to a variable; with an operator the old value is combined with the new one. -/
  | assignName (name : String) (span : Span) (op : Option BinaryOp) (value : Expr)
  /-- Assigns to an element or a property. -/
  | assignElement (container key : Expr) (op : Option BinaryOp) (value : Expr)
  | element (container key : Expr)
  | call (callee : Expr) (args : List Expr) (span : Span)
  | array (elements : List Expr) (span : Span)
  | object (entries : List Entry) (span : Span)
  | function (definition : Definition)
  | broken (error : CompileError)

/-- A property of an object literal. -/
inductive Entry where
  | property (key : String) (span : Span) (value : Expr)
  | broken (error : CompileError)

/-- A function: where it is defined, its parameters, the names its own statements declare anywhere,
and its body. -/
inductive Definition where
  | mk (span : Span) (params declared : List (String × Span)) (body : List Stmt)

inductive Declarator where
  | variable (name : String) (span : Span) (value : Option Expr)
  | broken (error : CompileError)

/-- What a `for` loop starts with. -/
inductive ForStart where
  | nothing
  | declare (declarators : List Declarator)
  | evaluate (value : Expr)

inductive Stmt where
  | expression (value : Expr)
  | declare (declarators : List Declarator)
  | define (name : String) (span : Span) (definition : Definition)
  | branch (condition : Expr) (whenTrue : Stmt) (whenFalse : Option Stmt)
  | whileLoop (condition : Expr) (body : Stmt)
  | forLoop (start : ForStart) (condition step : Option Expr) (body : Stmt)
  | breakLoop (span : Span)
  | continueLoop (span : Span)
  | return_ (value : Option Expr)
  | block (body : List Stmt)
  | broken (error : CompileError)

end

/-- A whole unit: the names its top level declares, its statements, and the place behind them. -/
structure UnitTree where
  declared : List (String × Span)
  body : List Stmt
  ending : Span

end PocketScript
