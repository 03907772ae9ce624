import PocketScript.Proofs.Expression.Reading

/-!
# Phrases

The statements without functions, with terms for their expressions, and how they are written. Like a
term, a phrase knows no places in a text; `Phrase.Denotes` relates it to the trees that stand for it.

`Phrase.Spells` tells the tokens of a phrase in front of a token of some kind. The kind matters twice.
The semicolon behind a statement may be left out, but only in front of a token that would not go on
with the statement. And an `else` belongs to the nearest `if` that has none, so a branch without an
`else` does not stand in front of one, however many statements it is the last part of.
-/

namespace PocketScript

/-- What a `for` loop of a phrase starts with. -/
inductive Beginning where
  | nothing
  | declare (variables_ : List (String × Option Term))
  | evaluate (value : Term)

/-- A statement without functions, whose expressions are terms. -/
inductive Phrase where
  | evaluate (value : Term)
  /-- Declares variables, some of them with a first value. -/
  | declare (variables_ : List (String × Option Term))
  | branch (condition : Term) (whenTrue : Phrase)
  | branchElse (condition : Term) (whenTrue whenFalse : Phrase)
  | whileLoop (condition : Term) (body : Phrase)
  | forLoop (start : Beginning) (test step : Option Term) (body : Phrase)
  | breakLoop
  | continueLoop
  | return_ (value : Option Term)
  | block (body : List Phrase)

/-! ## The trees of phrases -/

namespace Term

/-- A tree stands for a term, where both may be left out. -/
inductive DenotesOption : Option Term → Option Expr → Prop
  | none : DenotesOption none none
  | some {term tree} : Denotes term tree → DenotesOption (some term) (some tree)

/-- A declarator stands for a variable. -/
inductive DenotesVariable : String × Option Term → Declarator → Prop
  | mk {name value span tree} :
      DenotesOption value tree → DenotesVariable (name, value) (.variable name span tree)

/-- Declarators stand for variables. -/
inductive DenotesVariables : List (String × Option Term) → List Declarator → Prop
  | nil : DenotesVariables [] []
  | cons {variable_ tree variables_ trees} :
      DenotesVariable variable_ tree → DenotesVariables variables_ trees →
        DenotesVariables (variable_ :: variables_) (tree :: trees)

end Term

/-- What a tree starts a loop with stands for what a phrase does. -/
inductive Beginning.Denotes : Beginning → ForStart → Prop
  | nothing : Denotes .nothing .nothing
  | declare {variables_ trees} :
      Term.DenotesVariables variables_ trees → Denotes (.declare variables_) (.declare trees)
  | evaluate {value tree} : value.Denotes tree → Denotes (.evaluate value) (.evaluate tree)

namespace Phrase

mutual

/-- A tree stands for a phrase. -/
inductive Denotes : Phrase → Stmt → Prop
  | evaluate {value tree} : value.Denotes tree → Denotes (.evaluate value) (.expression tree)
  | declare {variables_ trees} :
      Term.DenotesVariables variables_ trees → Denotes (.declare variables_) (.declare trees)
  | branch {condition whenTrue test first} :
      condition.Denotes test → Denotes whenTrue first →
        Denotes (.branch condition whenTrue) (.branch test first none)
  | branchElse {condition whenTrue whenFalse test first second} :
      condition.Denotes test → Denotes whenTrue first → Denotes whenFalse second →
        Denotes (.branchElse condition whenTrue whenFalse) (.branch test first (some second))
  | whileLoop {condition body test tree} :
      condition.Denotes test → Denotes body tree →
        Denotes (.whileLoop condition body) (.whileLoop test tree)
  | forLoop {start test step body startTree testTree stepTree tree} :
      start.Denotes startTree → Term.DenotesOption test testTree → Term.DenotesOption step stepTree →
        Denotes body tree →
          Denotes (.forLoop start test step body) (.forLoop startTree testTree stepTree tree)
  | breakLoop {span} : Denotes .breakLoop (.breakLoop span)
  | continueLoop {span} : Denotes .continueLoop (.continueLoop span)
  | return_ {value tree} : Term.DenotesOption value tree → Denotes (.return_ value) (.return_ tree)
  | block {body trees} : DenotesAll body trees → Denotes (.block body) (.block trees)

/-- Trees stand for phrases. -/
inductive DenotesAll : List Phrase → List Stmt → Prop
  | nil : DenotesAll [] []
  | cons {phrase tree phrases trees} :
      Denotes phrase tree → DenotesAll phrases trees →
        DenotesAll (phrase :: phrases) (tree :: trees)

end

end Phrase

/-! ## The tokens of phrases -/

namespace Term

/-- Tokens are a term, or none are where it is left out. -/
inductive SpellsOption : Option Term → List Token → Prop
  | none : SpellsOption none []
  | some {term tokens} : SpellsAt 0 term tokens → SpellsOption (some term) tokens

/-- Tokens are a variable, with an equal sign behind its name if it has a value. -/
inductive SpellsVariable : String × Option Term → List Token → Prop
  | name {text span} :
      SpellsVariable (Token.name ⟨.ident, text, span⟩, none) [⟨.ident, text, span⟩]
  | value {value text span text' span' tokens} :
      SpellsAt 0 value tokens →
        SpellsVariable (Token.name ⟨.ident, text, span⟩, some value)
          (⟨.ident, text, span⟩ :: ⟨.equal, text', span'⟩ :: tokens)

/-- Tokens are variables with commas between them. -/
inductive SpellsVariables : List (String × Option Term) → List Token → Prop
  | last {variable_ tokens} :
      SpellsVariable variable_ tokens → SpellsVariables [variable_] tokens
  | more {variable_ variables_ text span tokens rest} :
      SpellsVariable variable_ tokens → SpellsVariables variables_ rest →
        SpellsVariables (variable_ :: variables_) (tokens ++ ⟨.comma, text, span⟩ :: rest)

end Term

/-- Tokens are what a `for` loop starts with, in front of its first semicolon. -/
inductive Beginning.Spells : Beginning → List Token → Prop
  | nothing : Spells .nothing []
  | declare {variables_ text span tokens} :
      Term.SpellsVariables variables_ tokens →
        Spells (.declare variables_) (⟨.kwVar, text, span⟩ :: tokens)
  | evaluate {value tokens} : value.SpellsAt 0 tokens → Spells (.evaluate value) tokens

namespace Phrase

/-- The end of a statement in front of a token of a kind: a semicolon, or nothing if no semicolon
follows and the token does not go on with the statement. -/
inductive Closes (stops : TokenKind → Prop) (next : TokenKind) : List Token → Prop
  | semicolon {text span} : Closes stops next [⟨.semicolon, text, span⟩]
  | nothing : next ≠ .semicolon → stops next → Closes stops next []

/-- A token of the kind does not go on with a term. -/
def StopsTerm (kind : TokenKind) : Prop := Parser.continuing? kind = none

/-- A token of the kind does not go on with the variables of a declaration. -/
def StopsVariables (kind : TokenKind) : Prop := StopsTerm kind ∧ kind ≠ .comma

/-- The kind of the first of some tokens, or of the token behind them. -/
def firstKind (tokens : List Token) (next : TokenKind) : TokenKind :=
  match tokens with
  | [] => next
  | token :: _ => token.kind

mutual

/-- Tokens are a phrase in front of a token of a kind. -/
inductive Spells : TokenKind → Phrase → List Token → Prop
  /-- A statement that starts with a brace is a block. -/
  | evaluate {next value tokens closing} :
      value.SpellsAt 0 tokens → firstKind tokens next ≠ .openCurly → Closes StopsTerm next closing →
        Spells next (.evaluate value) (tokens ++ closing)
  | declare {next variables_ text span tokens closing} :
      Term.SpellsVariables variables_ tokens → Closes StopsVariables next closing →
        Spells next (.declare variables_) (⟨.kwVar, text, span⟩ :: (tokens ++ closing))
  | branch {next condition whenTrue text span text' span' text'' span'' tokens first} :
      condition.SpellsAt 0 tokens → Spells next whenTrue first → next ≠ .kwElse →
        Spells next (.branch condition whenTrue)
          (⟨.kwIf, text, span⟩ :: ⟨.openParen, text', span'⟩ ::
            (tokens ++ ⟨.closeParen, text'', span''⟩ :: first))
  | branchElse {next condition whenTrue whenFalse text span text' span' text'' span'' textElse
      spanElse tokens first second} :
      condition.SpellsAt 0 tokens → Spells .kwElse whenTrue first → Spells next whenFalse second →
        Spells next (.branchElse condition whenTrue whenFalse)
          (⟨.kwIf, text, span⟩ :: ⟨.openParen, text', span'⟩ ::
            (tokens ++ ⟨.closeParen, text'', span''⟩ ::
              (first ++ ⟨.kwElse, textElse, spanElse⟩ :: second)))
  | whileLoop {next condition body text span text' span' text'' span'' tokens more} :
      condition.SpellsAt 0 tokens → Spells next body more →
        Spells next (.whileLoop condition body)
          (⟨.kwWhile, text, span⟩ :: ⟨.openParen, text', span'⟩ ::
            (tokens ++ ⟨.closeParen, text'', span''⟩ :: more))
  | forLoop {next start test step body text span text' span' text'' span'' textTest spanTest textStep
      spanStep first second third more} :
      start.Spells first → Term.SpellsOption test second → Term.SpellsOption step third →
        Spells next body more →
          Spells next (.forLoop start test step body)
            (⟨.kwFor, text, span⟩ :: ⟨.openParen, text', span'⟩ ::
              (first ++ ⟨.semicolon, textTest, spanTest⟩ ::
                (second ++ ⟨.semicolon, textStep, spanStep⟩ ::
                  (third ++ ⟨.closeParen, text'', span''⟩ :: more))))
  | breakLoop {next text span closing} :
      Closes (fun _ => True) next closing →
        Spells next .breakLoop (⟨.kwBreak, text, span⟩ :: closing)
  | continueLoop {next text span closing} :
      Closes (fun _ => True) next closing →
        Spells next .continueLoop (⟨.kwContinue, text, span⟩ :: closing)
  /-- Without a value `return` needs a semicolon, or stands at the end. -/
  | returnNothing {next text span closing} :
      Closes (fun kind => kind = .closeCurly ∨ kind = .endOfInput) next closing →
        Spells next (.return_ none) (⟨.kwReturn, text, span⟩ :: closing)
  | return_ {next value text span tokens closing} :
      value.SpellsAt 0 tokens → Closes StopsTerm next closing →
        Spells next (.return_ (some value)) (⟨.kwReturn, text, span⟩ :: (tokens ++ closing))
  | empty {next text span} : Spells next (.block []) [⟨.semicolon, text, span⟩]
  | block {next body text span text' span' tokens} :
      SpellsAll .closeCurly body tokens →
        Spells next (.block body)
          (⟨.openCurly, text, span⟩ :: (tokens ++ [⟨.closeCurly, text', span'⟩]))

/-- Tokens are phrases, one behind the other, in front of a token of a kind. -/
inductive SpellsAll : TokenKind → List Phrase → List Token → Prop
  | nil {next} : SpellsAll next [] []
  | cons {next phrase phrases tokens more} :
      Spells (firstKind more next) phrase tokens → SpellsAll next phrases more →
        SpellsAll next (phrase :: phrases) (tokens ++ more)

end

/-- A loop for ever, but for a `break` that needs no semicolon at the end of the text. -/
example : (Phrase.forLoop .nothing none none .breakLoop).Spells .endOfInput
    ([.kwFor, .openParen, .semicolon, .semicolon, .closeParen, .kwBreak].map
      fun kind => ⟨kind, [], default⟩) :=
  .forLoop .nothing .none .none (.breakLoop (.nothing TokenKind.noConfusion trivial))

/-- Tokens are the names of parameters with commas between them. -/
inductive SpellsNames : List String → List Token → Prop
  | last {text span} : SpellsNames [Token.name ⟨.ident, text, span⟩] [⟨.ident, text, span⟩]
  | more {names text span text' span' rest} :
      SpellsNames names rest →
        SpellsNames (Token.name ⟨.ident, text, span⟩ :: names)
          (⟨.ident, text, span⟩ :: ⟨.comma, text', span'⟩ :: rest)

/-- Tokens are the parameters of a function, in parentheses. -/
inductive SpellsParams : List String → List Token → Prop
  | none {text span text' span'} :
      SpellsParams [] [⟨.openParen, text, span⟩, ⟨.closeParen, text', span'⟩]
  | some {names text span text' span' tokens} :
      SpellsNames names tokens →
        SpellsParams names (⟨.openParen, text, span⟩ :: (tokens ++ [⟨.closeParen, text', span'⟩]))

/-- Tokens are the parameters and the body of a function. -/
inductive SpellsFunction : List String → List Phrase → List Token → Prop
  | mk {names body text span text' span' params tokens} :
      SpellsParams names params → SpellsAll .closeCurly body tokens →
        SpellsFunction names body
          (params ++ ⟨.openCurly, text, span⟩ :: (tokens ++ [⟨.closeCurly, text', span'⟩]))

end Phrase

/-! ## How phrases start -/

namespace Parser

/-- The kinds of tokens that terms start with. -/
def startsTerm : TokenKind → Bool
  | .ident | .number | .string | .kwTrue | .kwFalse | .kwUndefined | .kwNaN | .minus | .exclamation
  | .tilde | .openParen | .openSquare | .openCurly => true
  | _ => false

/-- The tokens start with one of a kind that terms start with. -/
def OpensTerm (tokens : List Token) : Prop :=
  ∃ token more, tokens = token :: more ∧ startsTerm token.kind = true

variable {tokens : List Token}

theorem OpensTerm.append (opens : OpensTerm tokens) (more : List Token) :
    OpensTerm (tokens ++ more) := by
  obtain ⟨token, rest, rfl, starts⟩ := opens
  exact ⟨token, rest ++ more, rfl, starts⟩

mutual

theorem opensTerm_of_spells {term : Term} {tokens : List Token} (spells : term.Spells tokens) :
    OpensTerm tokens := by
  cases spells with
  | @literal value =>
      refine ⟨_, _, rfl, ?_⟩
      cases value <;> rfl
  | number | string | «variable» | emptyArray | emptyObject | array | object | assign =>
      exact ⟨_, _, rfl, rfl⟩
  | @unary op =>
      refine ⟨_, _, rfl, ?_⟩
      cases op <;> rfl
  | binary first | logical first | conditional first | element first | property first =>
      exact (opensTerm_of_spellsAt first).append _
  | assignElement _ target => exact (opensTerm_of_spells target).append _
termination_by (tokens.length, 0)
decreasing_by all_goals simp only [List.length_append, List.length_cons, List.length_nil]; omega

theorem opensTerm_of_spellsAt {wanted : Nat} {term : Term} {tokens : List Token}
    (spells : term.SpellsAt wanted tokens) : OpensTerm tokens :=
  match spells with
  | .plain _ spells => opensTerm_of_spells spells
  | .enclosed _ _ => ⟨_, _, rfl, rfl⟩
termination_by (tokens.length, 1)
decreasing_by exact Prod.Lex.right _ Nat.zero_lt_one

end

end Parser

end PocketScript
