import PocketScript.Token.Lexer

/-!
# Names declared ahead

A variable belongs to its whole function, also to the statements in front of its declaration.
Therefore the names that `var` and `def` statements declare are collected from the tokens of a
function before its statements are read. The bodies of inner functions are passed over.
-/

namespace PocketScript.Declarations

/-- Where the search for names stands. -/
structure Search where
  /-- Open braces. -/
  braces : Int := 0
  /-- Open brackets of any kind. -/
  brackets : Int := 0
  /-- The number of open braces inside the inner function that is being passed over. -/
  innerBody : Option Int := none
  /-- The number of open brackets around the `var` statement whose declarators go on. -/
  declarators : Option Int := none
  /-- A `var`, or a comma of its declarators, came last. -/
  expectsName : Bool := false
  /-- The names so far, the last one first. -/
  found : List (String × Span) := []

namespace Search

def add (search : Search) (token : Token) : Search :=
  { search with found := (token.name, token.span) :: search.found }

/-- Counts a bracket, and forgets an inner body or a `var` statement whose bracket closes. -/
def countBracket (search : Search) (kind : TokenKind) : Search :=
  let counted :=
    match kind with
    | .openCurly =>
        { search with braces := search.braces + 1, brackets := search.brackets + 1 }
    | .closeCurly =>
        let braces := search.braces - 1
        { search with
          braces
          brackets := search.brackets - 1
          innerBody := search.innerBody.filter fun depth => depth ≤ braces }
    | .openParen | .openSquare => { search with brackets := search.brackets + 1 }
    | .closeParen | .closeSquare => { search with brackets := search.brackets - 1 }
    | _ => search
  { counted with declarators := counted.declarators.filter fun depth => depth ≤ counted.brackets }

/-- What a token outside inner functions says about declarations; `next` is the token behind it. -/
def declare (search : Search) (kind : TokenKind) (next : Except CompileError Token) : Search :=
  match kind with
  | .kwVar => { search with declarators := some search.brackets, expectsName := true }
  | .comma =>
      if search.declarators = some search.brackets then { search with expectsName := true }
      else search
  | .semicolon =>
      if search.declarators = some search.brackets then { search with declarators := none }
      else search
  | .kwDef =>
      let passing := { search with innerBody := some (search.braces + 1) }
      match next with
      | .ok token => if token.kind = .ident then passing.add token else passing
      | .error _ => passing
  | .kwIf | .kwWhile | .kwFor | .kwReturn | .kwBreak | .kwContinue =>
      { search with declarators := none }
  | _ => search

end Search

/-- Goes through the tokens of one function. With `inBody` these start at the body's opening brace
and the search ends at the closing one; otherwise it goes on to the end. A lexical error ends it
too, but for an error right behind a `def`, which is passed over in the search for the name. -/
def search (inBody : Bool) (state : Search) : TokenStream → List (String × Span)
  | .ended _ => state.found.reverse
  | .flawed _ _ => state.found.reverse
  | .token token rest =>
      if state.expectsName ∧ token.kind = .ident then
        search inBody ({ state with expectsName := false }.add token) rest
      else
        let counted := { state with expectsName := false }.countBracket token.kind
        if inBody ∧ token.kind = .closeCurly ∧ counted.braces ≤ (0 : Int) then counted.found.reverse
        else if counted.innerBody.isSome then search inBody counted rest
        else
          let declared := counted.declare token.kind rest.peek
          match token.kind, rest with
          | .kwDef, .flawed _ beyond => search inBody declared beyond
          | _, rest => search inBody declared rest

/-- The names that the statements of a function body declare, in the order of the text. -/
def ofBody (tokens : TokenStream) : List (String × Span) := search true {} tokens

/-- The names that the top level of a unit declares. -/
def ofUnit (tokens : TokenStream) : List (String × Span) := search false {} tokens

end PocketScript.Declarations
