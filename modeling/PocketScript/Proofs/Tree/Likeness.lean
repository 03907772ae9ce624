import Mathlib.Data.List.Forall2
import PocketScript.Proofs.Token.Pieces
import PocketScript.Tree.Parser

/-!
# Likeness of program texts

Two program texts are alike when their tokens are, one by one: like tokens have the same kind and the
same text. What else they have in common is left open (`Likeness`), so that one notion serves to
compare two layouts of a program and to trace the spans of one program back to its tokens. Here it is
carried over to the streams of tokens, to the names that are found in them ahead
(`Declarations.isLike_search`), to complaints and to trees: a tree is like another when both are the
same but for their spans, and these belong to like tokens of the kinds that a complaint about them
may speak of.
-/

namespace PocketScript

/-! ## Complaints and the tokens they are about -/

/-- The token that a complaint is about looks like this. Complaints about a part of a token, and about
bytes that are no token, are about none. -/
def Complaint.Concerns (token : Token) : Complaint → Prop
  | .expected wanted found => token.kind = found ∧ found ≠ wanted
  | .expectedExpression found | .expectedPropertyName found | .cannotAssign found =>
      token.kind = found
  | .expectedFunctionName found => token.kind = found ∧ found ≠ .ident
  | .jumpOutsideLoop keyword => token.kind = keyword
  | .duplicateParameter | .tooManyLocals | .tooManyCaptures => token.kind = .ident
  | .undeclaredAssignment name => token.kind = .ident ∧ token.name = name
  | .tooManyArguments _ => token.kind = .openParen
  | .expressionTooDeep _ => True
  | .stackTooDeep | .functionTooLarge => token.kind = .kwDef ∨ token.kind = .endOfInput
  | .invalidNumber | .tooManyNumbers => token.kind = .number
  | .invalidUtf8InString => token.kind = .string
  | .tooManyStrings => token.kind = .ident ∨ token.kind = .number ∨ token.kind = .string
  | .tooManyFunctions => token.kind = .kwDef
  | .arrayLiteralTooLarge => token.kind = .openSquare
  | .objectLiteralTooLarge => token.kind = .openCurly
  | .nonAscii | .unexpectedCharacter | .unterminatedComment | .hexWithoutDigits
  | .malformedExponent | .strayCharacterInNumber | .unterminatedString | .nulInString
  | .invalidEscape => False

/-- The token is this name. -/
def Token.IsName (name : String) (token : Token) : Prop := token.kind = .ident ∧ token.name = name

/-- The token may stand for a text in the table of strings. -/
def Token.IsText (token : Token) : Prop :=
  token.kind = .ident ∨ token.kind = .number ∨ token.kind = .string

/-- A name is a text. -/
theorem Token.IsName.isText {name : String} {token : Token} (named : token.IsName name) :
    token.IsText := .inl named.1

/-! ## Tokens, spans and errors -/

/-- Which tokens and which lexical errors of two program texts are alike. -/
structure Likeness where
  token : Token → Token → Prop
  flaw : CompileError → CompileError → Prop
  kind : ∀ {one other : Token}, token one other → other.kind = one.kind
  text : ∀ {one other : Token}, token one other → other.text = one.text

namespace Likeness

variable (like : Likeness)

/-- Like tokens have the same name. -/
theorem name {one other : Token} (alike : like.token one other) : other.name = one.name := by
  rw [Token.name, Token.name, like.text alike]

/-- Pieces of two texts that are alike. -/
inductive Piece : Except CompileError Token → Except CompileError Token → Prop
  | token {one other} : like.token one other → Piece (.ok one) (.ok other)
  | flaw {one other} : like.flaw one other → Piece (.error one) (.error other)

/-- The spans of like tokens that play a role. -/
def Span (role : Token → Prop) (one other : PocketScript.Span) : Prop :=
  ∃ token token', like.token token token' ∧ role token ∧ token.span = one ∧ token'.span = other

/-- The same name at like places. -/
def Name (one other : String × PocketScript.Span) : Prop :=
  other.1 = one.1 ∧ like.Span (Token.IsName one.1) one.2 other.2

/-- Errors that are raised for the same reason at like places. -/
inductive Error : CompileError → CompileError → Prop
  | flaw {error error'} : like.flaw error error' → Error error error'
  | token (complaint) {token token'} : like.token token token' → complaint.Concerns token →
      Error ⟨complaint, token.span, none⟩ ⟨complaint, token'.span, none⟩
  /-- Where a function has no name the keyword in front is quoted too. -/
  | functionName {token token' keyword keyword'} : like.token token token' →
      like.token keyword keyword' → token.kind ≠ .ident → keyword.kind = .kwDef →
      Error ⟨.expectedFunctionName token.kind, token.span, some keyword.span⟩
        ⟨.expectedFunctionName token.kind, token'.span, some keyword'.span⟩
  /-- Something inside a string literal. -/
  | inString {token token' error error'} : like.token token token' → token.kind = .string →
      Literal.string token = .error error → Literal.string token' = .error error' →
      Error error error'

variable {like}

/-- Less may be asked of like places. -/
theorem Span.mono {role role' : Token → Prop} {one other : PocketScript.Span}
    (imp : ∀ token, role token → role' token) : like.Span role one other → like.Span role' one other
  | ⟨token, token', alike, holds, here, there⟩ =>
      ⟨token, token', alike, imp token holds, here, there⟩

theorem Span.error {role : Token → Prop} {one other : PocketScript.Span} {complaint : Complaint}
    (spans : like.Span role one other) (concerns : ∀ token, role token → complaint.Concerns token) :
    like.Error ⟨complaint, one, none⟩ ⟨complaint, other, none⟩ := by
  obtain ⟨token, token', alike, holds, rfl, rfl⟩ := spans
  exact .token _ alike (concerns token holds)

/-- Like tokens are like names. -/
theorem Name.ofToken {one other : Token} (alike : like.token one other) (kind : one.kind = .ident) :
    like.Name (one.name, one.span) (other.name, other.span) :=
  ⟨like.name alike, one, other, alike, ⟨kind, rfl⟩, rfl, rfl⟩

end Likeness

/-! ## Streams -/

namespace TokenStream

variable (like : Likeness)

/-- Streams whose tokens are alike, as far as a search for names goes through them: it passes over
errors, and does not ask where the text ends. -/
inductive IsSearchedLike : TokenStream → TokenStream → Prop
  | token {token token' rest rest'} : like.token token token' → IsSearchedLike rest rest' →
      IsSearchedLike (.token token rest) (.token token' rest')
  | ended {position position'} : IsSearchedLike (.ended position) (.ended position')
  | flawed {error error' beyond beyond'} : IsSearchedLike beyond beyond' →
      IsSearchedLike (.flawed error beyond) (.flawed error' beyond')

/-- Streams that read alike: the same tokens up to the end of the text or up to like errors, and
behind an error tokens that are alike for a search. -/
inductive IsLike : TokenStream → TokenStream → Prop
  | token {token token' rest rest'} : like.token token token' → IsLike rest rest' →
      IsLike (.token token rest) (.token token' rest')
  | ended {position position'} : like.token (.ending position) (.ending position') →
      IsLike (.ended position) (.ended position')
  | flawed {error error' beyond beyond'} : like.flaw error error' →
      IsSearchedLike like beyond beyond' →
      IsLike (.flawed error beyond) (.flawed error' beyond')

/-- Streams that go on alike while trees are read: as streams of like texts do, or with like errors
in the place of whatever is behind. -/
inductive GoesLike : TokenStream → TokenStream → Prop
  | token {token token' rest rest'} : like.token token token' → IsLike like rest rest' →
      GoesLike (.token token rest) (.token token' rest')
  | ended {position position'} : like.token (.ending position) (.ending position') →
      GoesLike (.ended position) (.ended position')
  | broken {error error' beyond beyond'} : like.Error error error' →
      GoesLike (.flawed error beyond) (.flawed error' beyond')

variable {like} {one other : TokenStream}

theorem IsLike.searched (alike : one.IsLike like other) : one.IsSearchedLike like other := by
  induction alike with
  | token same _ ih => exact .token same ih
  | ended => exact .ended
  | flawed _ beyond => exact .flawed beyond

theorem IsLike.goes (alike : one.IsLike like other) : one.GoesLike like other := by
  cases alike with
  | token same rest => exact .token same rest
  | ended same => exact .ended same
  | flawed flaw _ => exact .broken (.flaw flaw)

/-- Texts that fall into like pieces look alike to a search. -/
theorem isSearchedLike_of_pieces (pieces : List.Forall₂ like.Piece one.pieces other.pieces) :
    one.IsSearchedLike like other := by
  induction one generalizing other with
  | token head rest ih =>
      cases other with
      | token =>
          cases (List.forall₂_cons.mp pieces).1 with
          | token same => exact .token same (ih (List.forall₂_cons.mp pieces).2)
      | ended => cases pieces
      | flawed => cases (List.forall₂_cons.mp pieces).1
  | ended position =>
      cases other with
      | ended => exact .ended
      | token | flawed => cases pieces
  | flawed error beyond ih =>
      cases other with
      | flawed => exact .flawed (ih (List.forall₂_cons.mp pieces).2)
      | ended => cases pieces
      | token => cases (List.forall₂_cons.mp pieces).1

/-- Texts that fall into like pieces, and end alike where they are read to their end, read alike. -/
theorem isLike_of_pieces (pieces : List.Forall₂ like.Piece one.pieces other.pieces)
    (ends : ∀ last last', one.outcome = .ok last → other.outcome = .ok last' →
      like.token last last') : one.IsLike like other := by
  induction one generalizing other with
  | token head rest ih =>
      cases other with
      | token =>
          cases (List.forall₂_cons.mp pieces).1 with
          | token same => exact .token same (ih (List.forall₂_cons.mp pieces).2 ends)
      | ended => cases pieces
      | flawed => cases (List.forall₂_cons.mp pieces).1
  | ended position =>
      cases other with
      | ended => exact .ended (ends _ _ rfl rfl)
      | token | flawed => cases pieces
  | flawed error beyond =>
      cases other with
      | flawed =>
          cases (List.forall₂_cons.mp pieces).1 with
          | flaw same =>
              exact .flawed same (isSearchedLike_of_pieces (List.forall₂_cons.mp pieces).2)
      | ended => cases pieces
      | token => cases (List.forall₂_cons.mp pieces).1

/-- They have as many tokens. -/
theorem IsLike.length (alike : one.IsLike like other) : other.length = one.length := by
  induction alike with
  | token _ _ ih => rw [TokenStream.length, TokenStream.length, ih]
  | ended | flawed => rfl

/-- Where a token is next, a like token of the same kind is next, and texts that read alike follow. -/
theorem GoesLike.behind {kind : TokenKind} {text : List UInt8} {span : PocketScript.Span}
    {rest : TokenStream} (goes : (TokenStream.token ⟨kind, text, span⟩ rest).GoesLike like other) :
    ∃ text' span' rest', other = .token ⟨kind, text', span'⟩ rest' ∧
      like.token ⟨kind, text, span⟩ ⟨kind, text', span'⟩ ∧ rest.IsLike like rest' := by
  cases goes with
  | @token _ token' _ rest' same behind =>
      obtain ⟨kind', text', span'⟩ := token'
      obtain rfl : kind' = kind := like.kind same
      exact ⟨text', span', rest', rfl, same, behind⟩

theorem GoesLike.advance (goes : one.GoesLike like other) :
    one.advance.GoesLike like other.advance := by
  cases goes with
  | token _ rest => exact rest.goes
  | ended same => exact .ended same
  | broken error => exact .broken error

theorem GoesLike.nextKind? (goes : one.GoesLike like other) : other.nextKind? = one.nextKind? := by
  cases goes with
  | token same _ => rw [TokenStream.nextKind?, TokenStream.nextKind?, like.kind same]
  | ended | broken => rfl

/-- What comes next is a like token, or a like error. -/
theorem GoesLike.peek (goes : one.GoesLike like other) :
    (∃ token token', one.peek = .ok token ∧ other.peek = .ok token' ∧ like.token token token') ∨
      ∃ error error', one.peek = .error error ∧ other.peek = .error error' ∧
        like.Error error error' := by
  cases goes with
  | token same _ => exact .inl ⟨_, _, rfl, rfl, same⟩
  | ended same => exact .inl ⟨_, _, rfl, rfl, same⟩
  | broken error => exact .inr ⟨_, _, rfl, rfl, error⟩

end TokenStream

/-! ## Names found ahead -/

namespace Declarations

variable {like : Likeness} {one other : Search}

/-- Searches that stand at like places and have found the same names there. -/
structure Search.IsLike (like : Likeness) (one other : Search) : Prop where
  same : other = { one with found := other.found }
  found : List.Forall₂ like.Name one.found other.found

namespace Search.IsLike

theorem expectsName (alike : one.IsLike like other) : other.expectsName = one.expectsName := by
  rw [alike.same]

theorem braces (alike : one.IsLike like other) : other.braces = one.braces := by rw [alike.same]

theorem innerBody (alike : one.IsLike like other) : other.innerBody = one.innerBody := by
  rw [alike.same]

theorem reverse (alike : one.IsLike like other) :
    List.Forall₂ like.Name one.found.reverse other.found.reverse :=
  List.forall₂_reverse_iff.mpr alike.found

theorem add (alike : one.IsLike like other) {token token' : Token} (same : like.token token token')
    (kind : token.kind = .ident) :
    ({ one with expectsName := false }.add token).IsLike like
      ({ other with expectsName := false }.add token') := by
  refine ⟨?_, .cons (.ofToken same kind) alike.found⟩
  rw [alike.same]
  rfl

theorem countBracket (alike : one.IsLike like other) (kind : TokenKind) :
    ({ one with expectsName := false }.countBracket kind).IsLike like
      ({ other with expectsName := false }.countBracket kind) := by
  rw [alike.same]
  have found (state : Search) (names : List (String × PocketScript.Span)) :
      { state with found := names }.countBracket kind =
        { state.countBracket kind with found := names } := by
    cases kind <;> rfl
  have kept (state : Search) : (state.countBracket kind).found = state.found := by
    cases kind <;> rfl
  refine ⟨?_, ?_⟩
  · rw [found { one with expectsName := false }]
  · rw [found { one with expectsName := false }, kept]
    exact alike.found

/-- Searches that differ in their names only. -/
theorem of_eq {state state' : Search} (alike : one.IsLike like other)
    (here : state = { state with found := one.found })
    (there : state' = { state with found := other.found }) : state.IsLike like state' := by
  refine ⟨?_, ?_⟩
  · rw [there]
  · rw [here, there]
    exact alike.found

/-- Both declare the like token behind a keyword. -/
theorem declare (alike : one.IsLike like other) (kind : TokenKind)
    {next next' : Except CompileError Token}
    (behind : (∃ token token', next = .ok token ∧ next' = .ok token' ∧
        (token.kind = token'.kind) ∧ (token.kind = .ident → like.token token token')) ∨
      ∃ error error', next = .error error ∧ next' = .error error') :
    (one.declare kind next).IsLike like (other.declare kind next') := by
  rw [alike.same]
  unfold Search.declare
  split
  · exact alike.of_eq rfl rfl
  · dsimp only
    split
    · exact alike.of_eq rfl rfl
    · exact alike.of_eq rfl rfl
  · dsimp only
    split
    · exact alike.of_eq rfl rfl
    · exact alike.of_eq rfl rfl
  · rcases behind with ⟨token, token', rfl, rfl, kind, same⟩ | ⟨error, error', rfl, rfl⟩
    · dsimp only
      rw [← kind]
      split
      · rename_i ident
        exact ⟨rfl, .cons (.ofToken (same ident) ident) alike.found⟩
      · exact alike.of_eq rfl rfl
    · exact alike.of_eq rfl rfl
  all_goals exact alike.of_eq rfl rfl

end Search.IsLike

/-- Where the search goes on behind a `def`: an error there is passed over. -/
def behindDef : TokenStream → TokenStream
  | .flawed _ beyond => beyond
  | tokens => tokens

theorem behindDef_token (token : Token) (rest : TokenStream) :
    behindDef (.token token rest) = .token token rest := rfl

/-- A token is declared, counted or passed over. -/
theorem search_token_eq (inBody : Bool) (state : Search) (token : Token) (rest : TokenStream) :
    search inBody state (.token token rest) =
      if state.expectsName ∧ token.kind = .ident then
        search inBody ({ state with expectsName := false }.add token) rest
      else
        let counted := { state with expectsName := false }.countBracket token.kind
        if inBody ∧ token.kind = .closeCurly ∧ counted.braces ≤ (0 : Int) then counted.found.reverse
        else if counted.innerBody.isSome then search inBody counted rest
        else
          search inBody (counted.declare token.kind rest.peek)
            (if token.kind = .kwDef then behindDef rest else rest) := by
  rw [search]
  dsimp only
  split_ifs with named closes inner define
  · rfl
  · rfl
  · rfl
  · rw [define]
    cases rest <;> rfl
  · split
    · rename_i isDefine
      exact absurd isDefine define
    · rfl

/-- Like streams show like tokens, or both show none. -/
theorem peek_of_searched {tokens tokens' : TokenStream}
    (alike : tokens.IsSearchedLike like tokens') :
    (∃ token token', tokens.peek = .ok token ∧ tokens'.peek = .ok token' ∧
        token.kind = token'.kind ∧ (token.kind = .ident → like.token token token')) ∨
      ∃ error error', tokens.peek = .error error ∧ tokens'.peek = .error error' := by
  cases alike with
  | token same _ => exact .inl ⟨_, _, rfl, rfl, (like.kind same).symm, fun _ => same⟩
  | ended => exact .inl ⟨_, _, rfl, rfl, rfl, fun impossible => by cases impossible⟩
  | flawed _ => exact .inr ⟨_, _, rfl, rfl⟩

/-- The searches find the same names at like places. -/
theorem isLike_search {inBody : Bool} {tokens tokens' : TokenStream}
    (alike : tokens.IsSearchedLike like tokens') {state state' : Search}
    (stands : state.IsLike like state') :
    List.Forall₂ like.Name (search inBody state tokens) (search inBody state' tokens') := by
  -- behind a `def` the search goes on behind an error, so both ways to go on are followed
  suffices both : ∀ state state', state.IsLike like state' →
      List.Forall₂ like.Name (search inBody state tokens) (search inBody state' tokens') ∧
        List.Forall₂ like.Name (search inBody state (behindDef tokens))
          (search inBody state' (behindDef tokens')) from (both state state' stands).1
  clear stands state state'
  induction alike with
  | ended => exact fun _ _ stands => ⟨stands.reverse, stands.reverse⟩
  | flawed _ ih => exact fun _ _ stands => ⟨stands.reverse, (ih _ _ stands).1⟩
  | @token token token' rest rest' same behind ih =>
      intro state state' stands
      rw [behindDef_token, behindDef_token, and_self_iff, search_token_eq, search_token_eq,
        like.kind same, stands.expectsName]
      have counted := stands.countBracket token.kind
      dsimp only
      rw [counted.braces, counted.innerBody]
      split_ifs with named closes inner define
      · exact (ih _ _ (stands.add same named.2)).1
      · exact counted.reverse
      · exact (ih _ _ counted).1
      · exact (ih _ _ (counted.declare _ (peek_of_searched behind))).2
      · exact (ih _ _ (counted.declare _ (peek_of_searched behind))).1

end Declarations

end PocketScript
