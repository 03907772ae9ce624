import PocketScript.Proofs.Tree.Declared

/-!
# Variables in program texts

A function owns a variable for each of its parameters and for each name that its own statements declare
anywhere. A name denotes the variable of the nearest function around it that owns one of the name, and
a global when there is none; the top level owns no variables. An outline of a function tells which
variables there are around its body, and which ones the body mentions, in the order in which the body is
compiled (`Outline`). It is taken from the tree alone.
-/

namespace PocketScript

/-- A mention of a variable: its value is read, or it is given another one. At the top level a global is
declared, unless it is there already, or the place is meant that keeps the result of the unit. -/
inductive Mention where
  | read (name : String)
  | write (name : String)
  | declare (name : String)
  | result
  deriving DecidableEq, Repr

/-- What a function says about variables. -/
structure Outline where
  /-- The names of the function's own variables, and those of the functions around it, the nearest one
  first; none at the top level. -/
  scopes : List (List String) := []
  params : List String := []
  mentions : List Mention := []
  deriving DecidableEq, Repr, Inhabited

/-- What a part of a program text says about variables, and the functions in it, in the order in which
they start. -/
structure Survey where
  mentions : List Mention := []
  outlines : List Outline := []
  deriving DecidableEq, Repr

namespace Survey

/-- A single mention. -/
def of (mention : Mention) : Survey := { mentions := [mention] }

instance : Append Survey := ⟨fun one two => ⟨one.mentions ++ two.mentions, one.outlines ++ two.outlines⟩⟩

@[simp]
theorem mentions_append (one two : Survey) : (one ++ two).mentions = one.mentions ++ two.mentions := rfl

@[simp]
theorem outlines_append (one two : Survey) : (one ++ two).outlines = one.outlines ++ two.outlines := rfl

@[simp]
theorem append_empty (survey : Survey) : survey ++ {} = survey :=
  congrArg₂ Survey.mk (List.append_nil _) (List.append_nil _)

@[simp]
theorem empty_append (survey : Survey) : ({} : Survey) ++ survey = survey := rfl

end Survey

/-- The names of a function's own variables. -/
def Definition.names : Definition → List String
  | .mk _ params _ body => params.map (·.1) ++ (Stmt.namesOfAll body).map (·.1)

mutual

/-- What an expression says about variables, among those of the functions around it. -/
def Expr.survey (around : List (List String)) : Expr → Survey
  | .literal _ | .number _ _ | .string _ _ | .broken _ => {}
  | .name ident _ => .of (.read ident)
  | .unary _ operand => operand.survey around
  | .binary _ left right => left.survey around ++ right.survey around
  | .logical _ left right => left.survey around ++ right.survey around
  | .conditional condition whenTrue whenFalse =>
      condition.survey around ++ (whenTrue.survey around ++ whenFalse.survey around)
  | .assignName name _ none value => value.survey around ++ .of (.write name)
  | .assignName name _ (some _) value =>
      .of (.read name) ++ (value.survey around ++ .of (.write name))
  | .assignElement container key _ value =>
      container.survey around ++ (key.survey around ++ value.survey around)
  | .element container key => container.survey around ++ key.survey around
  | .call callee args _ => callee.survey around ++ Expr.surveyOfAll around args
  | .array elements _ => Expr.surveyOfAll around elements
  | .object entries _ => Entry.surveyOfAll around entries
  | .function definition => definition.survey around

def Expr.surveyOfAll (around : List (List String)) : List Expr → Survey
  | [] => {}
  | first :: rest => first.survey around ++ Expr.surveyOfAll around rest

def Expr.surveyIfAny (around : List (List String)) : Option Expr → Survey
  | none => {}
  | some value => value.survey around

def Entry.survey (around : List (List String)) : Entry → Survey
  | .property _ _ value => value.survey around
  | .broken _ => {}

def Entry.surveyOfAll (around : List (List String)) : List Entry → Survey
  | [] => {}
  | first :: rest => first.survey around ++ Entry.surveyOfAll around rest

/-- A function says nothing where it is defined; its body is a matter of its own. -/
def Definition.survey (around : List (List String)) : Definition → Survey
  | .mk span params declared body =>
      let scopes := (Definition.mk span params declared body).names :: around
      let inner := Stmt.surveyOfAll scopes body
      { outlines := { scopes, params := params.map (·.1), mentions := inner.mentions } :: inner.outlines }

def Declarator.survey (around : List (List String)) : Declarator → Survey
  | .variable name _ (some value) => value.survey around ++ .of (.write name)
  | .variable name _ none => if around.isEmpty then .of (.declare name) else {}
  | .broken _ => {}

def Declarator.surveyOfAll (around : List (List String)) : List Declarator → Survey
  | [] => {}
  | first :: rest => first.survey around ++ Declarator.surveyOfAll around rest

def ForStart.survey (around : List (List String)) : ForStart → Survey
  | .nothing => {}
  | .declare declarators => Declarator.surveyOfAll around declarators
  | .evaluate value => value.survey around

/-- What a statement says about variables. The value of an expression statement of the top level is kept
as the result of the unit. -/
def Stmt.survey (around : List (List String)) : Stmt → Survey
  | .expression value => value.survey around ++ if around.isEmpty then .of .result else {}
  | .declare declarators => Declarator.surveyOfAll around declarators
  | .define name _ definition => definition.survey around ++ .of (.write name)
  | .branch condition whenTrue whenFalse =>
      condition.survey around ++ (whenTrue.survey around ++ Stmt.surveyIfAny around whenFalse)
  | .whileLoop condition body => condition.survey around ++ body.survey around
  | .forLoop start condition step body =>
      start.survey around ++ (Expr.surveyIfAny around condition ++
        (Expr.surveyIfAny around step ++ body.survey around))
  | .breakLoop _ | .continueLoop _ | .broken _ => {}
  | .return_ value => Expr.surveyIfAny around value
  | .block body => Stmt.surveyOfAll around body

def Stmt.surveyIfAny (around : List (List String)) : Option Stmt → Survey
  | none => {}
  | some stmt => stmt.survey around

def Stmt.surveyOfAll (around : List (List String)) : List Stmt → Survey
  | [] => {}
  | first :: rest => first.survey around ++ Stmt.surveyOfAll around rest

end

/-- The functions of a unit in the order in which they start, the top level first. -/
def UnitTree.outlines (tree : UnitTree) : List Outline :=
  let survey := Stmt.surveyOfAll [] tree.body ++ .of .result
  { mentions := survey.mentions } :: survey.outlines

end PocketScript
