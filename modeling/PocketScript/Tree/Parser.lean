import PocketScript.Program
import PocketScript.Token.Literal
import PocketScript.Tree
import PocketScript.Tree.Declarations

/-!
# From tokens to trees

The grammar, read one token ahead. Reading never fails: where the text is no program the tree gets a
broken node, and the tokens behind it are replaced by a stream that holds nothing but the same
objection, so that nothing read afterwards can raise an earlier one.

Every function takes the remaining fuel first; a unit of it is spent on each call, and
`UnitTree.ofTokens` provides more than the longest chain of calls over its tokens can spend.
-/

namespace PocketScript

/-- An expression whose last access is not decided yet: an assignment would write what a plain
expression reads. -/
inductive Access where
  | value (expr : Expr)
  | name (ident : String) (span : Span)
  | element (container key : Expr)

namespace Access

/-- The expression that reads. -/
def read : Access → Expr
  | .value expr => expr
  | .name ident span => .name ident span
  | .element container key => .element container key

/-- The expression whose reading stops at an error right behind the access, before the access
itself. -/
def stopBefore (error : CompileError) : Access → Expr
  | .value expr => .element expr (.broken error)
  | .name ident span => .assignName ident span none (.broken error)
  | .element container key => .assignElement container key none (.broken error)

/-- The expression that reads, given the tokens behind it. -/
def settle (access : Access) : TokenStream → Expr
  | .flawed error _ => access.stopBefore error
  | _ => access.read

end Access

namespace Parser

/-- The operators of one level of precedence. -/
inductive Infix where
  | binary (op : BinaryOp)
  | logical (op : LogicalOp)

/-- The tree of an infix operation. -/
def Infix.apply : Infix → Expr → Expr → Expr
  | binary op, left, right => .binary op left right
  | logical op, left, right => .logical op left right

/-- How many levels of infix operators there are. -/
def levelCount : Nat := 10

/-- The operator a token stands for on a level; the lowest level binds the least. -/
def infixAt? (level : Nat) (kind : TokenKind) : Option Infix :=
  match level, kind with
  | 0, .orOr => some (.logical .or)
  | 1, .andAnd => some (.logical .and)
  | 2, .bar => some (.binary .bitOr)
  | 3, .caret => some (.binary .bitXor)
  | 4, .ampersand => some (.binary .bitAnd)
  | 5, .equalEqual => some (.binary .eq)
  | 5, .notEqual => some (.binary .ne)
  | 6, .less => some (.binary .lt)
  | 6, .lessEqual => some (.binary .le)
  | 6, .greater => some (.binary .gt)
  | 6, .greaterEqual => some (.binary .ge)
  | 7, .shiftLeft => some (.binary .shl)
  | 7, .shiftRight => some (.binary .shr)
  | 8, .plus => some (.binary .add)
  | 8, .minus => some (.binary .sub)
  | 9, .star => some (.binary .mul)
  | 9, .slash => some (.binary .div)
  | 9, .percent => some (.binary .mod)
  | _, _ => none

def unaryOp? : TokenKind → Option UnaryOp
  | .minus => some .neg
  | .exclamation => some .not
  | .tilde => some .bitNot
  | _ => none

/-- The operator of an assignment, which is none for a plain one. -/
def assignment? : TokenKind → Option (Option BinaryOp)
  | .equal => some none
  | .plusEqual => some (some .add)
  | .minusEqual => some (some .sub)
  | .starEqual => some (some .mul)
  | .slashEqual => some (some .div)
  | .percentEqual => some (some .mod)
  | _ => none

/-- The error that a token is not of the wanted kind. -/
def unexpected (wanted : TokenKind) (token : Token) : CompileError :=
  { complaint := .expected wanted token.kind, span := token.span }

/-- Takes a token of the wanted kind. -/
def expect (wanted : TokenKind) (tokens : TokenStream) :
    Except CompileError (Token × TokenStream) := do
  let token ← tokens.peek
  if token.kind = wanted then pure (token, tokens.advance) else .error (unexpected wanted token)

/-- The objection that an expression is nested too deeply, unless a lexical error comes first. -/
def tooDeep (limit : Nat) (tokens : TokenStream) : CompileError :=
  match tokens.peek with
  | .ok token => { complaint := .expressionTooDeep limit, span := token.span }
  | .error error => error

/-- A broken expression, with nothing behind it. -/
def brokenExpr (error : CompileError) : Expr × TokenStream := (.broken error, .broken error)

/-- A broken access, with nothing behind it. -/
def brokenAccess (error : CompileError) : Access × TokenStream :=
  (.value (.broken error), .broken error)

/-- A broken statement, with nothing behind it. -/
def brokenStmt (error : CompileError) : Stmt × TokenStream := (.broken error, .broken error)

/-- The parameter names up to the closing parenthesis, which is taken too. -/
def params (read : List (String × Span)) :
    TokenStream → List (String × Span) × Except CompileError TokenStream
  | .token token rest =>
      if token.kind = .ident then
        let read := (token.name, token.span) :: read
        match rest with
        | .token ⟨.comma, _, _⟩ rest => params read rest
        | rest =>
            (read.reverse, (expect .closeParen rest).map (·.2))
      else (read.reverse, .error (unexpected .ident token))
  | tokens => (read.reverse, (expect .ident tokens).map (·.2))

/-- The parameter list of a function with its parentheses. -/
def paramList (tokens : TokenStream) :
    List (String × Span) × Except CompileError TokenStream :=
  match expect .openParen tokens with
  | .error error => ([], .error error)
  | .ok (_, tokens) =>
      match tokens with
      | .token ⟨.closeParen, _, _⟩ rest => ([], .ok rest)
      | tokens => params [] tokens

/-- A `return` in front of such a token returns no value. -/
def endsReturn : TokenKind → Bool
  | .semicolon | .closeCurly | .endOfInput => true
  | _ => false

/-- Passes over a semicolon that may follow a statement. A lexical error in its place breaks the
statement. -/
def optionalSemicolon (stmt : Stmt) (tokens : TokenStream) : Stmt × TokenStream :=
  match tokens with
  | .flawed error _ => (.block [stmt, .broken error], .broken error)
  | .token ⟨.semicolon, _, _⟩ rest => (stmt, rest)
  | tokens => (stmt, tokens)

mutual

/-- An expression; `depth` expressions are open around it and `limit` are allowed. -/
def assign (limit : Nat) : Nat → Nat → TokenStream → Expr × TokenStream
  | 0, _, tokens => brokenExpr (tooDeep limit tokens)
  | fuel + 1, depth, tokens =>
      let depth := depth + 1
      if limit < depth then brokenExpr (tooDeep limit tokens)
      else
        let (target, tokens) := ternary limit fuel depth tokens
        match tokens with
        | .token operator rest =>
            match assignment? operator.kind with
            | none => (target.read, tokens)
            | some op =>
                match target with
                | .value expr =>
                    let error : CompileError :=
                      { complaint := .cannotAssign operator.kind, span := operator.span }
                    (.element expr (.broken error), .broken error)
                | .name name span =>
                    let (value, tokens) := assign limit fuel depth rest
                    (.assignName name span op value, tokens)
                | .element container key =>
                    let (value, tokens) := assign limit fuel depth rest
                    (.assignElement container key op value, tokens)
        | tokens => (target.settle tokens, tokens)

/-- A conditional expression, or what its condition would be. -/
def ternary (limit : Nat) : Nat → Nat → TokenStream → Access × TokenStream
  | 0, _, tokens => brokenAccess (tooDeep limit tokens)
  | fuel + 1, depth, tokens =>
      let (condition, tokens) := infixes limit fuel depth 0 tokens
      match tokens with
      | .token ⟨.question, _, _⟩ rest =>
          let (whenTrue, tokens) := assign limit fuel depth rest
          match expect .colon tokens with
          | .error error =>
              (.value (.conditional condition.read whenTrue (.broken error)), .broken error)
          | .ok (_, tokens) =>
              let (whenFalse, tokens) := assign limit fuel depth tokens
              (.value (.conditional condition.read whenTrue whenFalse), tokens)
      | tokens => (condition, tokens)

/-- Operations of a level of precedence and of those that bind tighter. -/
def infixes (limit : Nat) : Nat → Nat → Nat → TokenStream → Access × TokenStream
  | 0, _, _, tokens => brokenAccess (tooDeep limit tokens)
  | fuel + 1, depth, level, tokens =>
      if levelCount ≤ level then unary limit fuel depth tokens
      else
        let (left, tokens) := infixes limit fuel depth (level + 1) tokens
        moreInfixes limit fuel depth level left tokens

/-- Further operands of a level, each joined to the left. -/
def moreInfixes (limit : Nat) : Nat → Nat → Nat → Access → TokenStream → Access × TokenStream
  | 0, _, _, _, tokens => brokenAccess (tooDeep limit tokens)
  | fuel + 1, depth, level, left, tokens =>
      match tokens with
      | .token operator rest =>
          match infixAt? level operator.kind with
          | none => (left, tokens)
          | some op =>
              let (right, tokens) := infixes limit fuel depth (level + 1) rest
              let joined := op.apply left.read (right.settle tokens)
              moreInfixes limit fuel depth level (.value joined) tokens
      | tokens => (left, tokens)

/-- An operand with its prefix operators; each of these counts as an open expression. -/
def unary (limit : Nat) : Nat → Nat → TokenStream → Access × TokenStream
  | 0, _, tokens => brokenAccess (tooDeep limit tokens)
  | fuel + 1, depth, tokens =>
      match tokens with
      | .token operator rest =>
          match unaryOp? operator.kind with
          | none => postfixes limit fuel depth tokens
          | some op =>
              if limit < depth + 1 then brokenAccess (tooDeep limit tokens)
              else
                let (operand, tokens) := unary limit fuel (depth + 1) rest
                (.value (.unary op (operand.settle tokens)), tokens)
      | tokens => postfixes limit fuel depth tokens

/-- A primary expression with the calls and accesses behind it. -/
def postfixes (limit : Nat) : Nat → Nat → TokenStream → Access × TokenStream
  | 0, _, tokens => brokenAccess (tooDeep limit tokens)
  | fuel + 1, depth, tokens =>
      let (subject, tokens) := primary limit fuel depth tokens
      morePostfixes limit fuel depth subject tokens

/-- Further calls and accesses. -/
def morePostfixes (limit : Nat) : Nat → Nat → Access → TokenStream → Access × TokenStream
  | 0, _, _, tokens => brokenAccess (tooDeep limit tokens)
  | fuel + 1, depth, subject, tokens =>
      match tokens with
      | .token ⟨.openParen, _, span⟩ rest =>
          let (args, tokens) := exprList limit fuel depth .closeParen false [] rest
          morePostfixes limit fuel depth (.value (.call subject.read args span)) tokens
      | .token ⟨.openSquare, _, _⟩ rest =>
          let (key, tokens) := assign limit fuel depth rest
          match expect .closeSquare tokens with
          | .error error =>
              (.value (.element (.element subject.read key) (.broken error)), .broken error)
          | .ok (_, tokens) => morePostfixes limit fuel depth (.element subject.read key) tokens
      | .token ⟨.dot, _, _⟩ rest =>
          match expect .ident rest with
          | .error error => (.value (.element subject.read (.broken error)), .broken error)
          | .ok (ident, tokens) =>
              let key := .string ident.name ident.span
              morePostfixes limit fuel depth (.element subject.read key) tokens
      | tokens => (subject, tokens)

/-- Expressions separated by commas up to a closing token, which is taken too. With `trailing` the
closing token may follow a comma. -/
def exprList (limit : Nat) :
    Nat → Nat → TokenKind → Bool → List Expr → TokenStream → List Expr × TokenStream
  | 0, _, _, _, _, tokens =>
      let error := tooDeep limit tokens
      ([.broken error], .broken error)
  | fuel + 1, depth, closing, trailing, read, tokens =>
      if tokens.nextKind? = some closing ∧ (trailing ∨ read.isEmpty) then
        (read.reverse, tokens.advance)
      else
        let (expr, tokens) := assign limit fuel depth tokens
        let read := expr :: read
        match tokens with
        | .token ⟨.comma, _, _⟩ rest => exprList limit fuel depth closing trailing read rest
        | tokens =>
            match expect closing tokens with
            | .error error => ((.broken error :: read).reverse, .broken error)
            | .ok (_, tokens) => (read.reverse, tokens)

/-- The properties of an object literal up to its closing brace, which is taken too. -/
def entries (limit : Nat) :
    Nat → Nat → List Entry → TokenStream → List Entry × TokenStream
  | 0, _, _, tokens =>
      let error := tooDeep limit tokens
      ([.broken error], .broken error)
  | fuel + 1, depth, read, tokens =>
      if tokens.nextKind? = some .closeCurly then (read.reverse, tokens.advance)
      else
        match propertyKey tokens with
        | .error error => ((.broken error :: read).reverse, .broken error)
        | .ok (key, span, tokens) =>
            match expect .colon tokens with
            | .error error =>
                ((.property key span (.broken error) :: read).reverse, .broken error)
            | .ok (_, tokens) =>
                let (value, tokens) := assign limit fuel depth tokens
                let read := .property key span value :: read
                match tokens with
                | .token ⟨.comma, _, _⟩ rest => entries limit fuel depth read rest
                | tokens =>
                    match expect .closeCurly tokens with
                    | .error error => ((.broken error :: read).reverse, .broken error)
                    | .ok (_, tokens) => (read.reverse, tokens)
where
  /-- The name of a property: a name, a number as it is written, or a string. -/
  propertyKey (tokens : TokenStream) : Except CompileError (String × Span × TokenStream) := do
    let token ← tokens.peek
    match token.kind with
    | .ident | .number => pure (token.name, token.span, tokens.advance)
    | .string => do
        let key ← Literal.string token
        pure (key, token.span, tokens.advance)
    | kind => .error { complaint := .expectedPropertyName kind, span := token.span }

/-- A primary expression. -/
def primary (limit : Nat) : Nat → Nat → TokenStream → Access × TokenStream
  | 0, _, tokens => brokenAccess (tooDeep limit tokens)
  | fuel + 1, depth, tokens =>
      match tokens.peek with
      | .error error => brokenAccess error
      | .ok token =>
          let rest := tokens.advance
          match token.kind with
          | .number =>
              match Literal.number? token.text with
              | none => brokenAccess { complaint := .invalidNumber, span := token.span }
              | some value => (.value (.number value token.span), rest)
          | .string =>
              match Literal.string token with
              | .error error => brokenAccess error
              | .ok value => (.value (.string value token.span), rest)
          | .kwTrue => (.value (.literal .true_), rest)
          | .kwFalse => (.value (.literal .false_), rest)
          | .kwUndefined => (.value (.literal .undefined), rest)
          | .kwNaN => (.value (.literal .nan), rest)
          | .ident => (.name token.name token.span, rest)
          | .openParen =>
              let (expr, tokens) := assign limit fuel depth rest
              match expect .closeParen tokens with
              | .error error => (.value (.element expr (.broken error)), .broken error)
              | .ok (_, tokens) => (.value expr, tokens)
          | .openSquare =>
              let (elements, tokens) := exprList limit fuel depth .closeSquare true [] rest
              (.value (.array elements token.span), tokens)
          | .openCurly =>
              let (properties, tokens) := entries limit fuel depth [] rest
              (.value (.object properties token.span), tokens)
          | .kwDef =>
              let (definition, tokens) := definition limit fuel depth token.span rest
              (.value (.function definition), tokens)
          | kind => brokenAccess { complaint := .expectedExpression kind, span := token.span }

/-- The parameters and the body of a function whose `def` keyword stands at `span`. -/
def definition (limit : Nat) : Nat → Nat → Span → TokenStream → Definition × TokenStream
  | 0, _, span, tokens =>
      let error := tooDeep limit tokens
      (.mk span [] [] [.broken error], .broken error)
  | fuel + 1, depth, span, tokens =>
      match paramList tokens with
      | (names, .error error) => (.mk span names [] [.broken error], .broken error)
      | (names, .ok tokens) =>
          let declared := Declarations.ofBody tokens
          match expect .openCurly tokens with
          | .error error => (.mk span names declared [.broken error], .broken error)
          | .ok (_, tokens) =>
              let (body, tokens) := statements limit fuel depth true [] tokens
              (.mk span names declared body, tokens)

/-- Statements up to the end of the text, or with `inBlock` up to a closing brace, which is taken
too. -/
def statements (limit : Nat) :
    Nat → Nat → Bool → List Stmt → TokenStream → List Stmt × TokenStream
  | 0, _, _, _, tokens =>
      let error := tooDeep limit tokens
      ([.broken error], .broken error)
  | fuel + 1, depth, inBlock, read, tokens =>
      match tokens with
      | .flawed error _ => ((.broken error :: read).reverse, .broken error)
      | .ended position =>
          if inBlock then
            let error : CompileError :=
              { complaint := .expected .closeCurly .endOfInput, span := ⟨position, position⟩ }
            ((.broken error :: read).reverse, .broken error)
          else (read.reverse, tokens)
      | .token token rest =>
          if inBlock ∧ token.kind = .closeCurly then (read.reverse, rest)
          else
            let (stmt, tokens) := statement limit fuel depth tokens
            statements limit fuel depth inBlock (stmt :: read) tokens

/-- The declarators of a `var` statement, its optional semicolon not included. -/
def declarators (limit : Nat) :
    Nat → Nat → List Declarator → TokenStream → List Declarator × TokenStream
  | 0, _, _, tokens =>
      let error := tooDeep limit tokens
      ([.broken error], .broken error)
  | fuel + 1, depth, read, tokens =>
      match expect .ident tokens with
      | .error error => ((.broken error :: read).reverse, .broken error)
      | .ok (ident, tokens) =>
          match tokens with
          | .flawed error _ => ((.broken error :: read).reverse, .broken error)
          | .token ⟨.equal, _, _⟩ rest =>
              let (value, tokens) := assign limit fuel depth rest
              let read := .variable ident.name ident.span (some value) :: read
              match tokens with
              | .token ⟨.comma, _, _⟩ rest => declarators limit fuel depth read rest
              | tokens => (read.reverse, tokens)
          | .token ⟨.comma, _, _⟩ rest =>
              declarators limit fuel depth (.variable ident.name ident.span none :: read) rest
          | tokens => ((.variable ident.name ident.span none :: read).reverse, tokens)

/-- A condition with its parentheses; when they are broken the second part says how. -/
def condition (limit : Nat) : Nat → Nat → TokenStream → Expr × Except CompileError TokenStream
  | 0, _, tokens => (.broken (tooDeep limit tokens), .error (tooDeep limit tokens))
  | fuel + 1, depth, tokens =>
      match expect .openParen tokens with
      | .error error => (.broken error, .error error)
      | .ok (_, tokens) =>
          let (expr, tokens) := assign limit fuel depth tokens
          (expr, (expect .closeParen tokens).map (·.2))

/-- One statement. -/
def statement (limit : Nat) : Nat → Nat → TokenStream → Stmt × TokenStream
  | 0, _, tokens => brokenStmt (tooDeep limit tokens)
  | fuel + 1, depth, tokens =>
      match tokens.peek with
      | .error error => brokenStmt error
      | .ok token =>
          let rest := tokens.advance
          match token.kind with
          | .kwVar =>
              let (read, tokens) := declarators limit fuel depth [] rest
              optionalSemicolon (.declare read) tokens
          | .kwDef =>
              match rest.peek with
              | .error error => brokenStmt error
              | .ok ident =>
                  if ident.kind = .ident then
                    let (definition, tokens) := definition limit fuel depth token.span rest.advance
                    (.define ident.name ident.span definition, tokens)
                  else
                    brokenStmt
                      { complaint := .expectedFunctionName ident.kind
                        span := ident.span
                        definedAt := some token.span }
          | .kwIf =>
              match condition limit fuel depth rest with
              | (test, .error error) => (.branch test (.broken error) none, .broken error)
              | (test, .ok tokens) =>
                  let (whenTrue, tokens) := statement limit fuel depth tokens
                  match tokens with
                  | .token ⟨.kwElse, _, _⟩ rest =>
                      let (whenFalse, tokens) := statement limit fuel depth rest
                      (.branch test whenTrue (some whenFalse), tokens)
                  | .flawed error _ =>
                      (.branch test whenTrue (some (.broken error)), .broken error)
                  | tokens => (.branch test whenTrue none, tokens)
          | .kwWhile =>
              match condition limit fuel depth rest with
              | (test, .error error) => (.whileLoop test (.broken error), .broken error)
              | (test, .ok tokens) =>
                  let (body, tokens) := statement limit fuel depth tokens
                  (.whileLoop test body, tokens)
          | .kwFor => forLoop limit fuel depth rest
          | .kwBreak => optionalSemicolon (.breakLoop token.span) rest
          | .kwContinue => optionalSemicolon (.continueLoop token.span) rest
          | .kwReturn =>
              match rest.peek with
              | .error error => brokenStmt error
              | .ok next =>
                  if endsReturn next.kind then optionalSemicolon (.return_ none) rest
                  else
                    let (value, tokens) := assign limit fuel depth rest
                    optionalSemicolon (.return_ (some value)) tokens
          | .openCurly =>
              let (body, tokens) := statements limit fuel depth true [] rest
              (.block body, tokens)
          | .semicolon => (.block [], rest)
          | _ =>
              let (expr, tokens) := assign limit fuel depth tokens
              optionalSemicolon (.expression expr) tokens

/-- A `for` loop behind its keyword. -/
def forLoop (limit : Nat) : Nat → Nat → TokenStream → Stmt × TokenStream
  | 0, _, tokens => brokenStmt (tooDeep limit tokens)
  | fuel + 1, depth, tokens =>
      match expect .openParen tokens with
      | .error error => brokenStmt error
      | .ok (_, tokens) =>
          let (start, tokens) :=
            match tokens with
            | .token ⟨.kwVar, _, _⟩ rest =>
                let (read, tokens) := declarators limit fuel depth [] rest
                (ForStart.declare read, tokens)
            | .token ⟨.semicolon, _, _⟩ _ => (ForStart.nothing, tokens)
            | tokens =>
                let (expr, tokens) := assign limit fuel depth tokens
                (ForStart.evaluate expr, tokens)
          match expect .semicolon tokens with
          | .error error => (.forLoop start (some (.broken error)) none (.block []), .broken error)
          | .ok (_, tokens) =>
              let (test, tokens) :=
                if tokens.nextKind? = some .semicolon then (none, tokens)
                else
                  let (expr, tokens) := assign limit fuel depth tokens
                  (some expr, tokens)
              match expect .semicolon tokens with
              | .error error =>
                  (.forLoop start test (some (.broken error)) (.block []), .broken error)
              | .ok (_, tokens) =>
                  let (step, tokens) :=
                    if tokens.nextKind? = some .closeParen then (none, tokens)
                    else
                      let (expr, tokens) := assign limit fuel depth tokens
                      (some expr, tokens)
                  match expect .closeParen tokens with
                  | .error error => (.forLoop start test step (.broken error), .broken error)
                  | .ok (_, tokens) =>
                      let (body, tokens) := statement limit fuel depth tokens
                      (.forLoop start test step body, tokens)

end

/-- The most calls in a chain that takes no token: a list of statements and a statement, or a list
of expressions, and from there an expression, a conditional, every level of infix operators with the
one that is left for their operands, a prefix, a postfix and a primary expression. -/
def maxChain : Nat := 2 + 2 + (levelCount + 1) + 3

/-- Fuel for a stream of tokens: enough for a longest chain in front of every token, at the end of
the text, and behind it. -/
def fuelFor (tokens : TokenStream) : Nat := maxChain * (tokens.length + 2)

end Parser

namespace UnitTree

/-- Where the statements of a unit end. -/
def endingOf (tokens : TokenStream) : Span :=
  match tokens.peek with
  | .ok token => token.span
  | .error error => error.span

/-- The tree of a unit, whose expressions may nest up to a limit. -/
def ofTokens (exprDepth : Nat) (tokens : TokenStream) : UnitTree :=
  let (body, rest) := Parser.statements exprDepth (Parser.fuelFor tokens) 0 false [] tokens
  { declared := Declarations.ofUnit tokens, body, ending := endingOf rest }

end UnitTree

end PocketScript
