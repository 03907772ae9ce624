import PocketScript.Proofs.Tree.Declared
import PocketScript.Proofs.Tree.Likeness

/-!
# Like tokens are read as like trees

Two texts whose tokens are alike are read side by side. The trees that are found are alike, and what
is left of the texts goes on alike (`Parser.readsAllLike`), so that the units are (`UnitTree.Compares`).
The one text may be read within a stricter limit on how deeply expressions nest; it then may break
off where the other goes on, and only there do the trees part.
-/

namespace PocketScript

/-! ## Trees -/

section

variable (like : Likeness)

mutual

/-- Expressions that are the same but for their spans, which belong to like tokens. -/
inductive Expr.IsLike : Expr → Expr → Prop
  | literal (value) : Expr.IsLike (.literal value) (.literal value)
  | number (value) {span span'} : like.Span (·.kind = .number) span span' →
      Expr.IsLike (.number value span) (.number value span')
  | string (value) {span span'} : like.Span Token.IsText span span' →
      Expr.IsLike (.string value span) (.string value span')
  | name {ident span span'} : like.Span (Token.IsName ident) span span' →
      Expr.IsLike (.name ident span) (.name ident span')
  | unary (op) {operand operand'} : Expr.IsLike operand operand' →
      Expr.IsLike (.unary op operand) (.unary op operand')
  | binary (op) {left left' right right'} : Expr.IsLike left left' → Expr.IsLike right right' →
      Expr.IsLike (.binary op left right) (.binary op left' right')
  | logical (op) {left left' right right'} : Expr.IsLike left left' → Expr.IsLike right right' →
      Expr.IsLike (.logical op left right) (.logical op left' right')
  | conditional {test test' whenTrue whenTrue' whenFalse whenFalse'} : Expr.IsLike test test' →
      Expr.IsLike whenTrue whenTrue' → Expr.IsLike whenFalse whenFalse' →
      Expr.IsLike (.conditional test whenTrue whenFalse) (.conditional test' whenTrue' whenFalse')
  | assignName (op) {ident span span' value value'} : like.Span (Token.IsName ident) span span' →
      Expr.IsLike value value' →
      Expr.IsLike (.assignName ident span op value) (.assignName ident span' op value')
  | assignElement (op) {container container' key key' value value'} :
      Expr.IsLike container container' → Expr.IsLike key key' → Expr.IsLike value value' →
      Expr.IsLike (.assignElement container key op value) (.assignElement container' key' op value')
  | element {container container' key key'} : Expr.IsLike container container' →
      Expr.IsLike key key' → Expr.IsLike (.element container key) (.element container' key')
  | call {callee callee' args args' span span'} : Expr.IsLike callee callee' →
      List.Forall₂ Expr.IsLike args args' → like.Span (·.kind = .openParen) span span' →
      Expr.IsLike (.call callee args span) (.call callee' args' span')
  | array {elements elements' span span'} : List.Forall₂ Expr.IsLike elements elements' →
      like.Span (·.kind = .openSquare) span span' →
      Expr.IsLike (.array elements span) (.array elements' span')
  | object {entries entries' span span'} : List.Forall₂ Entry.IsLike entries entries' →
      like.Span (·.kind = .openCurly) span span' →
      Expr.IsLike (.object entries span) (.object entries' span')
  | function {definition definition'} : Definition.IsLike definition definition' →
      Expr.IsLike (.function definition) (.function definition')
  | broken {error error'} : like.Error error error' → Expr.IsLike (.broken error) (.broken error')

inductive Entry.IsLike : Entry → Entry → Prop
  | property (key) {span span' value value'} : like.Span Token.IsText span span' →
      Expr.IsLike value value' → Entry.IsLike (.property key span value) (.property key span' value')
  | broken {error error'} : like.Error error error' → Entry.IsLike (.broken error) (.broken error')

inductive Definition.IsLike : Definition → Definition → Prop
  | mk {span span' params params' declared declared' body body'} :
      like.Span (·.kind = .kwDef) span span' → List.Forall₂ like.Name params params' →
      List.Forall₂ like.Name declared declared' → List.Forall₂ Stmt.IsLike body body' →
      Definition.IsLike (.mk span params declared body) (.mk span' params' declared' body')

inductive Declarator.IsLike : Declarator → Declarator → Prop
  | variable {name span span' value value'} : like.Span (Token.IsName name) span span' →
      Option.Rel Expr.IsLike value value' →
      Declarator.IsLike (.variable name span value) (.variable name span' value')
  | broken {error error'} : like.Error error error' →
      Declarator.IsLike (.broken error) (.broken error')

inductive ForStart.IsLike : ForStart → ForStart → Prop
  | nothing : ForStart.IsLike .nothing .nothing
  | declare {declarators declarators'} : List.Forall₂ Declarator.IsLike declarators declarators' →
      ForStart.IsLike (.declare declarators) (.declare declarators')
  | evaluate {value value'} : Expr.IsLike value value' →
      ForStart.IsLike (.evaluate value) (.evaluate value')

/-- Statements that are the same but for their spans, which belong to like tokens. -/
inductive Stmt.IsLike : Stmt → Stmt → Prop
  | expression {value value'} : Expr.IsLike value value' →
      Stmt.IsLike (.expression value) (.expression value')
  | declare {declarators declarators'} : List.Forall₂ Declarator.IsLike declarators declarators' →
      Stmt.IsLike (.declare declarators) (.declare declarators')
  | define {name span span' definition definition'} : like.Span (Token.IsName name) span span' →
      Definition.IsLike definition definition' →
      Stmt.IsLike (.define name span definition) (.define name span' definition')
  | branch {test test' whenTrue whenTrue' whenFalse whenFalse'} : Expr.IsLike test test' →
      Stmt.IsLike whenTrue whenTrue' → Option.Rel Stmt.IsLike whenFalse whenFalse' →
      Stmt.IsLike (.branch test whenTrue whenFalse) (.branch test' whenTrue' whenFalse')
  | whileLoop {test test' body body'} : Expr.IsLike test test' → Stmt.IsLike body body' →
      Stmt.IsLike (.whileLoop test body) (.whileLoop test' body')
  | forLoop {start start' test test' step step' body body'} : ForStart.IsLike start start' →
      Option.Rel Expr.IsLike test test' → Option.Rel Expr.IsLike step step' →
      Stmt.IsLike body body' →
      Stmt.IsLike (.forLoop start test step body) (.forLoop start' test' step' body')
  | breakLoop {span span'} : like.Span (·.kind = .kwBreak) span span' →
      Stmt.IsLike (.breakLoop span) (.breakLoop span')
  | continueLoop {span span'} : like.Span (·.kind = .kwContinue) span span' →
      Stmt.IsLike (.continueLoop span) (.continueLoop span')
  | return_ {value value'} : Option.Rel Expr.IsLike value value' →
      Stmt.IsLike (.return_ value) (.return_ value')
  | block {body body'} : List.Forall₂ Stmt.IsLike body body' →
      Stmt.IsLike (.block body) (.block body')
  | broken {error error'} : like.Error error error' → Stmt.IsLike (.broken error) (.broken error')

end

end

/-! ## Accesses -/

namespace Access

variable {like : Likeness}

/-- Accesses that are the same but for their spans, which belong to like tokens. -/
inductive IsLike (like : Likeness) : Access → Access → Prop
  | value {expr expr'} : expr.IsLike like expr' → IsLike like (.value expr) (.value expr')
  | name {ident span span'} : like.Span (Token.IsName ident) span span' →
      IsLike like (.name ident span) (.name ident span')
  | element {container container' key key'} : container.IsLike like container' →
      key.IsLike like key' → IsLike like (.element container key) (.element container' key')

variable {access access' : Access} {tokens tokens' : TokenStream}

/-- Like things are read from in the same way. -/
theorem IsLike.read (alike : access.IsLike like access') : access.read.IsLike like access'.read := by
  cases alike with
  | value expr => exact expr
  | name span => exact .name span
  | element container key => exact .element container key

/-- And broken in the same way by like tokens behind them. -/
theorem IsLike.settle (alike : access.IsLike like access') (goes : tokens.GoesLike like tokens') :
    (access.settle tokens).IsLike like (access'.settle tokens') := by
  cases goes with
  | token | ended => exact alike.read
  | broken error =>
      cases alike with
      | value expr => exact .element expr (.broken error)
      | name span => exact .assignName none span (.broken error)
      | element container key => exact .assignElement none container key (.broken error)

end Access

/-! ## Reading -/

/-- Of streams that go on alike, the other begins with no token of a kind that the one does not begin
with. -/
theorem TokenStream.GoesLike.not_token {like : Likeness} {one other : TokenStream}
    (goes : one.GoesLike like other) {kind : TokenKind}
    (none : ∀ text span rest, one ≠ .token ⟨kind, text, span⟩ rest) (text : List UInt8)
    (span : Span) (rest : TokenStream) : other ≠ .token ⟨kind, text, span⟩ rest := by
  rintro rfl
  cases goes with
  | @token token _ _ _ same _ =>
      obtain ⟨kind', text', span'⟩ := token
      obtain rfl : kind = kind' := like.kind same
      exact none _ _ _ rfl

namespace Parser

section

variable (like : Likeness) (lenient : Prop) {α : Type} (alike : α → α → Prop)

/-- Two readings find like trees and go on alike. Where one limit is stricter than the other, the
first of them may break off instead. -/
inductive ReadsLike : α × TokenStream → α × TokenStream → Prop
  | on {read read' rest rest'} : alike read read' → rest.GoesLike like rest' →
      ReadsLike (read, rest) (read', rest')
  | adrift {read error beyond other} : lenient → ReadsLike (read, .flawed error beyond) other

/-- The same for readings that tell apart whether they went well. -/
inductive OpensLike :
    α × Except CompileError TokenStream → α × Except CompileError TokenStream → Prop
  | on {read read' rest rest'} : alike read read' → rest.GoesLike like rest' →
      OpensLike (read, .ok rest) (read', .ok rest')
  | broken {read read' error error'} : alike read read' → like.Error error error' →
      OpensLike (read, .error error) (read', .error error')
  | adrift {read error other} : lenient → OpensLike (read, .error error) other

/-- Like tokens of a wanted kind are taken from the front, or both are refused. -/
inductive TakesLike (wanted : TokenKind) :
    Except CompileError (Token × TokenStream) → Except CompileError (Token × TokenStream) → Prop
  | taken {token token' rest rest'} : like.token token token' → token.kind = wanted →
      rest.GoesLike like rest' → TakesLike wanted (.ok (token, rest)) (.ok (token', rest'))
  | refused {error error'} : like.Error error error' →
      TakesLike wanted (.error error) (.error error')

end

variable {like : Likeness} {lenient : Prop}

/-- Where the stricter reading has broken off, nothing is asked of the other. -/
theorem ReadsLike.of_not_clear {α : Type} {alike : α → α → Prop} {one other : α × TokenStream}
    (may : lenient) (stuck : ¬ one.2.Clear) : ReadsLike like lenient alike one other := by
  obtain ⟨read, rest⟩ := one
  cases rest with
  | token | ended => exact absurd trivial stuck
  | flawed => exact .adrift may

/-- What is built from like trees in the same way is alike. -/
theorem ReadsLike.map {α β : Type} {alike : α → α → Prop} {alike' : β → β → Prop}
    {one other : α × TokenStream} (reads : ReadsLike like lenient alike one other) {f f' : α → β}
    (imp : ∀ read read', alike read read' → alike' (f read) (f' read')) :
    ReadsLike like lenient alike' (f one.1, one.2) (f' other.1, other.2) := by
  cases reads with
  | on same goes => exact .on (imp _ _ same) goes
  | adrift may => exact .adrift may

/-- Both readings may break, with like errors. -/
theorem readsLike_broken {α : Type} {alike : α → α → Prop} {node node' : α}
    {error error' : CompileError} (nodes : alike node node') (same : like.Error error error') :
    ReadsLike like lenient alike (node, .broken error) (node', .broken error') :=
  .on nodes (.broken same)

/-- Like streams both go on with a token of a kind, or fail alike. -/
theorem takes_expect (wanted : TokenKind) {tokens tokens' : TokenStream}
    (goes : tokens.GoesLike like tokens') :
    TakesLike like wanted (expect wanted tokens) (expect wanted tokens') := by
  unfold expect
  rcases goes.peek with ⟨token, token', here, there, same⟩ | ⟨error, error', here, there, same⟩
  · rw [here, there]
    change TakesLike like wanted (if token.kind = wanted then _ else _)
      (if token'.kind = wanted then _ else _)
    rw [like.kind same]
    split
    · rename_i kind
      exact .taken same kind goes.advance
    · rename_i other
      rw [unexpected, unexpected, like.kind same]
      exact .refused (.token _ same ⟨rfl, other⟩)
  · rw [here, there]
    exact .refused same

/-- The objection to too deep a nesting is made at like tokens, or is a like lexical error. -/
theorem error_tooDeep (limit : Nat) {tokens tokens' : TokenStream}
    (goes : tokens.GoesLike like tokens') :
    like.Error (tooDeep limit tokens) (tooDeep limit tokens') := by
  unfold tooDeep
  rcases goes.peek with ⟨token, token', here, there, same⟩ | ⟨error, error', here, there, same⟩
  · rw [here, there]
    exact .token _ same trivial
  · rw [here, there]
    exact same

/-- In front of what is opened, both streams have the wanted token or neither has. -/
theorem opens_expect {α : Type} {alike : α → α → Prop} {read read' : α} (same : alike read read')
    (wanted : TokenKind) {tokens tokens' : TokenStream} (goes : tokens.GoesLike like tokens') :
    OpensLike like lenient alike (read, (expect wanted tokens).map (·.2))
      (read', (expect wanted tokens').map (·.2)) := by
  have takes := takes_expect wanted goes
  generalize expect wanted tokens = taken, expect wanted tokens' = taken' at takes
  cases takes with
  | taken _ _ behind => exact .on same behind
  | refused error => exact .broken same error

/-- Parameter names are read alike up to the closing parenthesis. -/
theorem opens_params {read read' : List (String × Span)} {tokens tokens' : TokenStream}
    (names : List.Forall₂ like.Name read read') (goes : tokens.GoesLike like tokens') :
    OpensLike like lenient (List.Forall₂ like.Name) (params read tokens) (params read' tokens') := by
  fun_induction params read tokens generalizing read' tokens' with
  | case1 read token ident =>
      rename_i ih
      cases goes with
      | @token _ token' _ _ same behind =>
          have more := List.Forall₂.cons (.ofToken same ident) names
          obtain ⟨_, _, _, rfl, -, behind⟩ := behind.goes.behind
          rw [params, if_pos ((like.kind same).trans ident)]
          exact ih more behind.goes
  | case2 read token ident =>
      rename_i other
      cases goes with
      | @token _ token' _ _ same behind =>
          have more := List.Forall₂.cons (.ofToken same ident) names
          unfold params
          rw [if_pos ((like.kind same).trans ident)]
          dsimp only
          split
          · exact absurd rfl (behind.goes.not_token other _ _ _)
          · exact opens_expect (List.forall₂_reverse_iff.mpr more) .closeParen behind.goes
  | case3 read token rest other =>
      cases goes with
      | @token _ token' _ _ same behind =>
          unfold params
          rw [if_neg (by rwa [like.kind same]), unexpected, unexpected, like.kind same]
          exact .broken (List.forall₂_reverse_iff.mpr names) (.token _ same ⟨rfl, other⟩)
  | case4 read tokens other =>
      cases goes with
      | token => exact absurd rfl (other _ _)
      | ended same => exact opens_expect (List.forall₂_reverse_iff.mpr names) .ident (.ended same)
      | broken error => exact opens_expect (List.forall₂_reverse_iff.mpr names) .ident (.broken error)

/-- And so are parameter lists with their parentheses. -/
theorem opens_paramList {tokens tokens' : TokenStream} (goes : tokens.GoesLike like tokens') :
    OpensLike like lenient (List.Forall₂ like.Name) (paramList tokens) (paramList tokens') := by
  unfold paramList
  have takes := takes_expect .openParen goes
  generalize expect .openParen tokens = taken, expect .openParen tokens' = taken' at takes
  cases takes with
  | refused error => exact .broken .nil error
  | @taken _ _ rest rest' _ _ behind =>
      dsimp only
      split
      · rename_i text span rest
        obtain ⟨_, _, _, rfl, -, behind⟩ := behind.behind
        exact .on .nil behind.goes
      · rename_i other
        split
        · exact absurd rfl (behind.not_token other _ _ _)
        · exact opens_params .nil behind

/-- Like tokens declare the same names ahead, at like places. -/
theorem alike_ofBody {tokens tokens' : TokenStream} (goes : tokens.GoesLike like tokens') :
    List.Forall₂ like.Name (Declarations.ofBody tokens) (Declarations.ofBody tokens') := by
  have start : Declarations.Search.IsLike like {} {} := ⟨rfl, .nil⟩
  cases goes with
  | token same rest => exact Declarations.isLike_search (.token same rest.searched) start
  | ended | broken => exact .nil

/-- The values of like string tokens are the same, or the same is wrong with both. -/
theorem string_alike {token token' : Token} (same : like.token token token')
    (kind : token.kind = .string) :
    (∃ value, Literal.string token = .ok value ∧ Literal.string token' = .ok value) ∨
      ∃ error error', Literal.string token = .error error ∧ Literal.string token' = .error error' ∧
        like.Error error error' := by
  suffices both : (∃ value, Literal.string token = .ok value ∧ Literal.string token' = .ok value) ∨
      ∃ error error', Literal.string token = .error error ∧ Literal.string token' = .error error' by
    rcases both with values | ⟨error, error', here, there⟩
    · exact .inl values
    · exact .inr ⟨error, error', here, there, .inString same kind here there⟩
  unfold Literal.string
  rw [like.text same]
  split
  · exact .inr ⟨_, _, rfl, rfl⟩
  · split
    · exact .inl ⟨_, rfl, rfl⟩
    · exact .inr ⟨_, _, rfl, rfl⟩

/-- Property keys are the same in both texts, or neither text has one. -/
theorem propertyKey_alike {tokens tokens' : TokenStream} (goes : tokens.GoesLike like tokens') :
    (∃ key span span' rest rest', entries.propertyKey tokens = .ok (key, span, rest) ∧
        entries.propertyKey tokens' = .ok (key, span', rest') ∧
          like.Span Token.IsText span span' ∧ rest.GoesLike like rest') ∨
      ∃ error error', entries.propertyKey tokens = .error error ∧
        entries.propertyKey tokens' = .error error' ∧ like.Error error error' := by
  unfold entries.propertyKey
  rcases goes.peek with ⟨token, token', here, there, same⟩ | ⟨error, error', here, there, same⟩
  · have text (kind : token.IsText) : like.Span Token.IsText token.span token'.span :=
      ⟨token, token', same, kind, rfl, rfl⟩
    rw [here, there]
    simp only [bind, Except.bind]
    rw [like.kind same, like.name same]
    split
    · rename_i kind
      exact .inl ⟨_, _, _, _, _, rfl, rfl, text (.inl kind), goes.advance⟩
    · rename_i kind
      exact .inl ⟨_, _, _, _, _, rfl, rfl, text (.inr (.inl kind)), goes.advance⟩
    · rename_i kind
      rcases string_alike same kind with
        ⟨value, one, other⟩ | ⟨error, error', one, other, errors⟩
      · rw [one, other]
        exact .inl ⟨_, _, _, _, _, rfl, rfl, text (.inr (.inr kind)), goes.advance⟩
      · rw [one, other]
        exact .inr ⟨_, _, rfl, rfl, errors⟩
    · rename_i kind _ _ _
      exact .inr ⟨_, _, rfl, rfl, .token _ same rfl⟩
  · rw [here, there]
    exact .inr ⟨_, _, rfl, rfl, same⟩

/-- A semicolon behind a statement is passed over in both texts or in neither. -/
theorem readsLike_optionalSemicolon {stmt stmt' : Stmt} (same : stmt.IsLike like stmt')
    {tokens tokens' : TokenStream} (goes : tokens.GoesLike like tokens') :
    ReadsLike like lenient (Stmt.IsLike like) (optionalSemicolon stmt tokens)
      (optionalSemicolon stmt' tokens') := by
  unfold optionalSemicolon
  split
  · cases goes with
    | broken error =>
        exact readsLike_broken (.block (.cons same (.cons (.broken error) .nil))) error
  · obtain ⟨_, _, _, rfl, -, behind⟩ := goes.behind
    exact .on same behind.goes
  · rename_i sound other
    split
    · cases goes with
      | broken => exact absurd rfl (sound _ _)
    · exact absurd rfl (goes.not_token other _ _ _)
    · exact .on same goes

/-- What is read behind a part of a list, where a comma or the closing token is next. -/
def separated {α : Type} (closing : TokenKind) (more : TokenStream → α × TokenStream)
    (stop : CompileError → α) (done : α) (tokens : TokenStream) : α × TokenStream :=
  match tokens with
  | .token ⟨.comma, _, _⟩ rest => more rest
  | tokens =>
      match expect closing tokens with
      | .error error => (stop error, .broken error)
      | .ok (_, tokens) => (done, tokens)

/-- Where no comma follows, the list has to be closed. -/
theorem separated_of_no_comma {α : Type} {closing : TokenKind}
    {more : TokenStream → α × TokenStream} {stop : CompileError → α} {done : α}
    {tokens : TokenStream} (other : ∀ text span rest, tokens ≠ .token ⟨.comma, text, span⟩ rest) :
    separated closing more stop done tokens =
      match expect closing tokens with
      | .error error => (stop error, .broken error)
      | .ok (_, tokens) => (done, tokens) := by
  unfold separated
  split
  · exact absurd rfl (other _ _ _)
  · rfl

/-- Lists are read alike when what follows a comma is, and so are their ends. -/
theorem readsLike_separated {α : Type} {alike : α → α → Prop} {closing : TokenKind}
    {more more' : TokenStream → α × TokenStream} {stop stop' : CompileError → α} {done done' : α}
    {tokens tokens' : TokenStream} (goes : tokens.GoesLike like tokens')
    (further : ∀ {rest rest'}, rest.GoesLike like rest' →
      ReadsLike like lenient alike (more rest) (more' rest'))
    (stops : ∀ {error error'}, like.Error error error' → alike (stop error) (stop' error'))
    (ends : alike done done') :
    ReadsLike like lenient alike (separated closing more stop done tokens)
      (separated closing more' stop' done' tokens') := by
  by_cases comma : ∃ text span rest, tokens = .token ⟨.comma, text, span⟩ rest
  · obtain ⟨text, span, rest, rfl⟩ := comma
    obtain ⟨_, _, _, rfl, -, rest⟩ := goes.behind
    exact further rest.goes
  · have other : ∀ text span rest, tokens ≠ .token ⟨.comma, text, span⟩ rest :=
      fun text span rest same => comma ⟨text, span, rest, same⟩
    rw [separated_of_no_comma other, separated_of_no_comma (goes.not_token other)]
    have takes := takes_expect closing goes
    generalize expect closing tokens = taken, expect closing tokens' = taken' at takes
    cases takes with
    | refused error => exact readsLike_broken (stops error) error
    | taken _ _ goes => exact .on ends goes

/-- With so much fuel, like tokens are read as like trees. -/
structure ReadsAllLike (like : Likeness) (lenient : Prop) (limit limit' fuel : Nat) : Prop where
  assign : ∀ depth {tokens tokens'}, tokens.GoesLike like tokens' →
    ReadsLike like lenient (Expr.IsLike like) (Parser.assign limit fuel depth tokens)
      (Parser.assign limit' fuel depth tokens')
  ternary : ∀ depth {tokens tokens'}, tokens.GoesLike like tokens' →
    ReadsLike like lenient (Access.IsLike like) (Parser.ternary limit fuel depth tokens)
      (Parser.ternary limit' fuel depth tokens')
  infixes : ∀ depth level {tokens tokens'}, tokens.GoesLike like tokens' →
    ReadsLike like lenient (Access.IsLike like) (Parser.infixes limit fuel depth level tokens)
      (Parser.infixes limit' fuel depth level tokens')
  moreInfixes : ∀ depth level {left left' tokens tokens'}, left.IsLike like left' →
    tokens.GoesLike like tokens' → ReadsLike like lenient (Access.IsLike like)
      (Parser.moreInfixes limit fuel depth level left tokens)
      (Parser.moreInfixes limit' fuel depth level left' tokens')
  unary : ∀ depth {tokens tokens'}, tokens.GoesLike like tokens' →
    ReadsLike like lenient (Access.IsLike like) (Parser.unary limit fuel depth tokens)
      (Parser.unary limit' fuel depth tokens')
  postfixes : ∀ depth {tokens tokens'}, tokens.GoesLike like tokens' →
    ReadsLike like lenient (Access.IsLike like) (Parser.postfixes limit fuel depth tokens)
      (Parser.postfixes limit' fuel depth tokens')
  morePostfixes : ∀ depth {subject subject' tokens tokens'}, subject.IsLike like subject' →
    tokens.GoesLike like tokens' → ReadsLike like lenient (Access.IsLike like)
      (Parser.morePostfixes limit fuel depth subject tokens)
      (Parser.morePostfixes limit' fuel depth subject' tokens')
  exprList : ∀ depth closing trailing {read read' tokens tokens'},
    List.Forall₂ (Expr.IsLike like) read read' → tokens.GoesLike like tokens' →
      ReadsLike like lenient (List.Forall₂ (Expr.IsLike like))
        (Parser.exprList limit fuel depth closing trailing read tokens)
        (Parser.exprList limit' fuel depth closing trailing read' tokens')
  entries : ∀ depth {read read' tokens tokens'}, List.Forall₂ (Entry.IsLike like) read read' →
    tokens.GoesLike like tokens' → ReadsLike like lenient (List.Forall₂ (Entry.IsLike like))
      (Parser.entries limit fuel depth read tokens) (Parser.entries limit' fuel depth read' tokens')
  primary : ∀ depth {tokens tokens'}, tokens.GoesLike like tokens' →
    ReadsLike like lenient (Access.IsLike like) (Parser.primary limit fuel depth tokens)
      (Parser.primary limit' fuel depth tokens')
  definition : ∀ depth {span span' tokens tokens'}, like.Span (·.kind = .kwDef) span span' →
    tokens.GoesLike like tokens' → ReadsLike like lenient (Definition.IsLike like)
      (Parser.definition limit fuel depth span tokens)
      (Parser.definition limit' fuel depth span' tokens')
  statements : ∀ depth inBlock {read read' tokens tokens'},
    List.Forall₂ (Stmt.IsLike like) read read' → tokens.GoesLike like tokens' →
      ReadsLike like lenient (List.Forall₂ (Stmt.IsLike like))
        (Parser.statements limit fuel depth inBlock read tokens)
        (Parser.statements limit' fuel depth inBlock read' tokens')
  declarators : ∀ depth {read read' tokens tokens'},
    List.Forall₂ (Declarator.IsLike like) read read' → tokens.GoesLike like tokens' →
      ReadsLike like lenient (List.Forall₂ (Declarator.IsLike like))
        (Parser.declarators limit fuel depth read tokens)
        (Parser.declarators limit' fuel depth read' tokens')
  condition : ∀ depth {tokens tokens'}, tokens.GoesLike like tokens' →
    OpensLike like lenient (Expr.IsLike like) (Parser.condition limit fuel depth tokens)
      (Parser.condition limit' fuel depth tokens')
  statement : ∀ depth {tokens tokens'}, tokens.GoesLike like tokens' →
    ReadsLike like lenient (Stmt.IsLike like) (Parser.statement limit fuel depth tokens)
      (Parser.statement limit' fuel depth tokens')
  forLoop : ∀ depth {tokens tokens'}, tokens.GoesLike like tokens' →
    ReadsLike like lenient (Stmt.IsLike like) (Parser.forLoop limit fuel depth tokens)
      (Parser.forLoop limit' fuel depth tokens')

variable {limit limit' : Nat} {tokens tokens' : TokenStream}

section

variable (strict : lenient ∨ limit' = limit)

include strict

/-- Where an expression is nested too deeply for the first limit, it is so for the other if that is
the same. -/
theorem readsLike_tooDeep {α : Type} {alike : α → α → Prop} {error : CompileError} {node : α}
    {other : α × TokenStream}
    (same : limit' = limit → ReadsLike like lenient alike (node, .broken error) other) :
    ReadsLike like lenient alike (node, .broken error) other := by
  rcases strict with may | equal
  · exact .adrift may
  · exact same equal

/-- Two expressions that are too deep are broken alike. -/
theorem readsLike_tooDeepExpr (goes : tokens.GoesLike like tokens') :
    ReadsLike like lenient (Expr.IsLike like) (brokenExpr (tooDeep limit tokens))
      (brokenExpr (tooDeep limit' tokens')) :=
  readsLike_tooDeep strict fun equal => by
    rw [equal]
    exact readsLike_broken (.broken (error_tooDeep limit goes)) (error_tooDeep limit goes)

/-- And so are two accesses. -/
theorem readsLike_tooDeepAccess (goes : tokens.GoesLike like tokens') :
    ReadsLike like lenient (Access.IsLike like) (brokenAccess (tooDeep limit tokens))
      (brokenAccess (tooDeep limit' tokens')) :=
  readsLike_tooDeep strict fun equal => by
    rw [equal]
    exact readsLike_broken (.value (.broken (error_tooDeep limit goes))) (error_tooDeep limit goes)

/-- And two statements. -/
theorem readsLike_tooDeepStmt (goes : tokens.GoesLike like tokens') :
    ReadsLike like lenient (Stmt.IsLike like) (brokenStmt (tooDeep limit tokens))
      (brokenStmt (tooDeep limit' tokens')) :=
  readsLike_tooDeep strict fun equal => by
    rw [equal]
    exact readsLike_broken (.broken (error_tooDeep limit goes)) (error_tooDeep limit goes)

/-- A list that is too deep has one broken node in both readings. -/
theorem readsLike_tooDeepList {α : Type} {alike : α → α → Prop} {node : CompileError → α}
    (nodes : ∀ {error error'}, like.Error error error' → alike (node error) (node error'))
    (goes : tokens.GoesLike like tokens') :
    ReadsLike like lenient (List.Forall₂ alike)
      ([node (tooDeep limit tokens)], .broken (tooDeep limit tokens))
      ([node (tooDeep limit' tokens')], .broken (tooDeep limit' tokens')) :=
  readsLike_tooDeep strict fun equal => by
    rw [equal]
    exact readsLike_broken (.cons (nodes (error_tooDeep limit goes)) .nil) (error_tooDeep limit goes)

/-- Without fuel both readings are too deep. -/
theorem readsAllLike_zero : ReadsAllLike like lenient limit limit' 0 where
  assign _ _ _ goes := by
    rw [Parser.assign, Parser.assign]
    exact readsLike_tooDeepExpr strict goes
  ternary _ _ _ goes := by
    rw [Parser.ternary, Parser.ternary]
    exact readsLike_tooDeepAccess strict goes
  infixes _ _ _ _ goes := by
    rw [Parser.infixes, Parser.infixes]
    exact readsLike_tooDeepAccess strict goes
  moreInfixes _ _ _ _ _ _ _ goes := by
    rw [Parser.moreInfixes, Parser.moreInfixes]
    exact readsLike_tooDeepAccess strict goes
  unary _ _ _ goes := by
    rw [Parser.unary, Parser.unary]
    exact readsLike_tooDeepAccess strict goes
  postfixes _ _ _ goes := by
    rw [Parser.postfixes, Parser.postfixes]
    exact readsLike_tooDeepAccess strict goes
  morePostfixes _ _ _ _ _ _ goes := by
    rw [Parser.morePostfixes, Parser.morePostfixes]
    exact readsLike_tooDeepAccess strict goes
  exprList _ _ _ _ _ _ _ _ goes := by
    rw [Parser.exprList, Parser.exprList]
    exact readsLike_tooDeepList strict .broken goes
  entries _ _ _ _ _ _ goes := by
    rw [Parser.entries, Parser.entries]
    exact readsLike_tooDeepList strict .broken goes
  primary _ _ _ goes := by
    rw [Parser.primary, Parser.primary]
    exact readsLike_tooDeepAccess strict goes
  definition _ _ _ _ _ span goes := by
    rw [Parser.definition, Parser.definition]
    refine readsLike_tooDeep strict fun equal => ?_
    rw [equal]
    exact readsLike_broken (.mk span .nil .nil (.cons (.broken (error_tooDeep limit goes)) .nil))
      (error_tooDeep limit goes)
  statements _ _ _ _ _ _ _ goes := by
    rw [Parser.statements, Parser.statements]
    exact readsLike_tooDeepList strict .broken goes
  declarators _ _ _ _ _ _ goes := by
    rw [Parser.declarators, Parser.declarators]
    exact readsLike_tooDeepList strict .broken goes
  condition _ _ _ goes := by
    rw [Parser.condition, Parser.condition]
    rcases strict with may | rfl
    · exact .adrift may
    · exact .broken (.broken (error_tooDeep _ goes)) (error_tooDeep _ goes)
  statement _ _ _ goes := by
    rw [Parser.statement, Parser.statement]
    exact readsLike_tooDeepStmt strict goes
  forLoop _ _ _ goes := by
    rw [Parser.forLoop, Parser.forLoop]
    exact readsLike_tooDeepStmt strict goes

end

section

variable {fuel : Nat} (ih : ReadsAllLike like lenient limit limit' fuel) {depth : Nat}
  (goes : tokens.GoesLike like tokens')

include ih goes

/-- Assignments are read alike; the limit on nesting may stop only the stricter reading. -/
theorem readsLike_assign (wider : limit ≤ limit') (strict : lenient ∨ limit' = limit) :
    ReadsLike like lenient (Expr.IsLike like) (assign limit (fuel + 1) depth tokens)
      (assign limit' (fuel + 1) depth tokens') := by
  rw [assign, assign]
  dsimp only
  by_cases deep : limit < depth + 1
  · rw [if_pos deep]
    refine readsLike_tooDeep strict fun equal => ?_
    rw [equal, if_pos deep]
    exact readsLike_tooDeepExpr (.inr rfl) goes
  · rw [if_neg deep, if_neg (by omega)]
    have target := ih.ternary (depth + 1) goes
    generalize ternary limit fuel (depth + 1) tokens = read,
      ternary limit' fuel (depth + 1) tokens' = read' at target
    cases target with
    | adrift may => exact .adrift may
    | on access goes =>
        cases goes with
        | ended same => exact .on access.read (.ended same)
        | broken error => exact .on (access.settle (.broken error)) (.broken error)
        | @token operator operator' _ _ same rest =>
            dsimp only
            rw [like.kind same]
            cases assignment? operator.kind with
            | none => exact .on access.read (.token same rest)
            | some op =>
                have value := ih.assign (depth + 1) rest.goes
                cases access with
                | value expr =>
                    have error := Likeness.Error.token (.cannotAssign _) same rfl
                    exact readsLike_broken (.element expr (.broken error)) error
                | name span => exact value.map fun _ _ value => .assignName op span value
                | element container key =>
                    exact value.map fun _ _ value => .assignElement op container key value

/-- Conditionals are read alike. -/
theorem readsLike_ternary :
    ReadsLike like lenient (Access.IsLike like) (ternary limit (fuel + 1) depth tokens)
      (ternary limit' (fuel + 1) depth tokens') := by
  rw [ternary, ternary]
  have condition := ih.infixes depth 0 goes
  generalize infixes limit fuel depth 0 tokens = read,
    infixes limit' fuel depth 0 tokens' = read' at condition
  cases condition with
  | adrift may => exact .adrift may
  | on condition goes =>
      dsimp only
      split
      · obtain ⟨_, _, _, rfl, -, rest⟩ := goes.behind
        have whenTrue := ih.assign depth rest.goes
        dsimp only
        generalize assign limit fuel depth _ = read,
          assign limit' fuel depth _ = read' at whenTrue
        cases whenTrue with
        | adrift may => exact .adrift may
        | @on _ _ between between' whenTrue goes =>
            have takes := takes_expect .colon goes
            dsimp only
            generalize expect .colon between = taken,
              expect .colon between' = taken' at takes
            cases takes with
            | refused error =>
                exact readsLike_broken
                  (.value (.conditional condition.read whenTrue (.broken error))) error
            | taken _ _ goes =>
                exact (ih.assign depth goes).map fun _ _ whenFalse =>
                  Access.IsLike.value (.conditional condition.read whenTrue whenFalse)
      · rename_i other
        split
        · exact absurd rfl (goes.not_token other _ _ _)
        · exact .on condition goes

/-- The operands of a level are read alike. -/
theorem readsLike_infixes (level : Nat) :
    ReadsLike like lenient (Access.IsLike like) (infixes limit (fuel + 1) depth level tokens)
      (infixes limit' (fuel + 1) depth level tokens') := by
  rw [infixes, infixes]
  split
  · exact ih.unary depth goes
  · have left := ih.infixes depth (level + 1) goes
    dsimp only
    generalize infixes limit fuel depth (level + 1) tokens = read,
      infixes limit' fuel depth (level + 1) tokens' = read' at left
    cases left with
    | adrift may =>
        exact .of_not_clear may fun clear =>
          ((scansAll limit fuel).moreInfixes depth level _ _ clear).1
    | on left goes => exact ih.moreInfixes depth level left goes

/-- Further operands are joined to like ones on the left. -/
theorem readsLike_moreInfixes (level : Nat) {left left' : Access} (before : left.IsLike like left') :
    ReadsLike like lenient (Access.IsLike like)
      (moreInfixes limit (fuel + 1) depth level left tokens)
      (moreInfixes limit' (fuel + 1) depth level left' tokens') := by
  unfold moreInfixes
  cases goes with
  | ended same => exact .on before (.ended same)
  | broken error => exact .on before (.broken error)
  | @token operator operator' _ _ same rest =>
      dsimp only
      rw [like.kind same]
      cases infixAt? level operator.kind with
      | none => exact .on before (.token same rest)
      | some op =>
          have right := ih.infixes depth (level + 1) rest.goes
          dsimp only
          generalize infixes limit fuel depth (level + 1) _ = read,
            infixes limit' fuel depth (level + 1) _ = read' at right
          cases right with
          | adrift may =>
              exact .of_not_clear may fun clear =>
                ((scansAll limit fuel).moreInfixes depth level _ _ clear).1
          | on right goes =>
              refine ih.moreInfixes depth level (.value ?_) goes
              cases op with
              | binary op => exact .binary op before.read (right.settle goes)
              | logical op => exact .logical op before.read (right.settle goes)

/-- Prefixes are read alike; as they count as nested, the stricter reading may stop here. -/
theorem readsLike_unary (wider : limit ≤ limit') (strict : lenient ∨ limit' = limit) :
    ReadsLike like lenient (Access.IsLike like) (unary limit (fuel + 1) depth tokens)
      (unary limit' (fuel + 1) depth tokens') := by
  unfold unary
  cases goes with
  | ended same => exact ih.postfixes depth (.ended same)
  | broken error => exact ih.postfixes depth (.broken error)
  | @token operator operator' rest rest' same behind =>
      dsimp only
      rw [like.kind same]
      cases unaryOp? operator.kind with
      | none => exact ih.postfixes depth (.token same behind)
      | some op =>
          dsimp only
          by_cases deep : limit < depth + 1
          · rw [if_pos deep]
            refine readsLike_tooDeep strict fun equal => ?_
            rw [equal, if_pos deep]
            exact readsLike_tooDeepAccess (.inr rfl) (.token same behind)
          · rw [if_neg deep, if_neg (by omega)]
            have operand := ih.unary (depth + 1) behind.goes
            generalize unary limit fuel (depth + 1) rest = read,
              unary limit' fuel (depth + 1) rest' = read' at operand
            cases operand with
            | adrift may => exact .adrift may
            | on operand goes => exact .on (.value (.unary op (operand.settle goes))) goes

/-- Primary expressions are read alike with what follows them. -/
theorem readsLike_postfixes :
    ReadsLike like lenient (Access.IsLike like) (postfixes limit (fuel + 1) depth tokens)
      (postfixes limit' (fuel + 1) depth tokens') := by
  rw [postfixes, postfixes]
  have subject := ih.primary depth goes
  dsimp only
  generalize primary limit fuel depth tokens = read,
    primary limit' fuel depth tokens' = read' at subject
  cases subject with
  | adrift may =>
      exact .of_not_clear may fun clear =>
        ((scansAll limit fuel).morePostfixes depth _ _ clear).1
  | on subject goes => exact ih.morePostfixes depth subject goes

/-- Calls and accesses are added to like subjects. -/
theorem readsLike_morePostfixes {subject subject' : Access} (before : subject.IsLike like subject') :
    ReadsLike like lenient (Access.IsLike like)
      (morePostfixes limit (fuel + 1) depth subject tokens)
      (morePostfixes limit' (fuel + 1) depth subject' tokens') := by
  unfold morePostfixes
  dsimp only
  split
  · rename_i text span rest
    obtain ⟨_, _, rest', rfl, same, behind⟩ := goes.behind
    have args := ih.exprList depth .closeParen false .nil behind.goes
    dsimp only
    generalize exprList limit fuel depth .closeParen false [] rest = read,
      exprList limit' fuel depth .closeParen false [] rest' = read' at args
    cases args with
    | adrift may =>
        exact .of_not_clear may fun clear =>
          ((scansAll limit fuel).morePostfixes depth _ _ clear).1
    | on args goes =>
        exact ih.morePostfixes depth
          (.value (.call before.read args ⟨_, _, same, rfl, rfl, rfl⟩)) goes
  · rename_i text span rest
    obtain ⟨_, _, rest', rfl, -, behind⟩ := goes.behind
    have key := ih.assign depth behind.goes
    dsimp only
    generalize assign limit fuel depth rest = read,
      assign limit' fuel depth rest' = read' at key
    cases key with
    | adrift may => exact .adrift may
    | @on _ _ between between' key goes =>
        have takes := takes_expect .closeSquare goes
        dsimp only
        generalize expect .closeSquare between = taken,
          expect .closeSquare between' = taken' at takes
        cases takes with
        | refused error =>
            exact readsLike_broken
              (.value (.element (.element before.read key) (.broken error))) error
        | taken _ _ goes => exact ih.morePostfixes depth (.element before.read key) goes
  · rename_i text span rest
    obtain ⟨_, _, rest', rfl, -, behind⟩ := goes.behind
    have takes := takes_expect .ident behind.goes
    dsimp only
    generalize expect .ident rest = taken, expect .ident rest' = taken' at takes
    cases takes with
    | refused error =>
        exact readsLike_broken (.value (.element before.read (.broken error))) error
    | @taken ident ident' _ _ same kind goes =>
        refine ih.morePostfixes depth (.element before.read ?_) goes
        rw [like.name same]
        exact .string _ ⟨ident, ident', same, .inl kind, rfl, rfl⟩
  · rename_i noCall noIndex noDot
    split
    · exact absurd rfl (goes.not_token noCall _ _ _)
    · exact absurd rfl (goes.not_token noIndex _ _ _)
    · exact absurd rfl (goes.not_token noDot _ _ _)
    · exact .on before goes

/-- Lists of expressions are read alike, behind like ones read before. -/
theorem readsLike_exprList (closing : TokenKind) (trailing : Bool) {read read' : List Expr}
    (before : List.Forall₂ (Expr.IsLike like) read read') :
    ReadsLike like lenient (List.Forall₂ (Expr.IsLike like))
      (exprList limit (fuel + 1) depth closing trailing read tokens)
      (exprList limit' (fuel + 1) depth closing trailing read' tokens') := by
  rw [exprList, exprList, goes.nextKind?]
  have empty : read'.isEmpty = read.isEmpty := by cases before <;> rfl
  rw [empty]
  split
  · exact .on (List.forall₂_reverse_iff.mpr before) goes.advance
  · have next := ih.assign depth goes
    dsimp only
    generalize assign limit fuel depth tokens = item,
      assign limit' fuel depth tokens' = item' at next
    cases next with
    | adrift may => exact .adrift may
    | on expr goes =>
        have more := List.Forall₂.cons expr before
        exact readsLike_separated goes (ih.exprList depth closing trailing more)
          (fun error => List.forall₂_reverse_iff.mpr (.cons (.broken error) more))
          (List.forall₂_reverse_iff.mpr more)

/-- Properties are read alike, behind like ones read before. -/
theorem readsLike_entries {read read' : List Entry}
    (before : List.Forall₂ (Entry.IsLike like) read read') :
    ReadsLike like lenient (List.Forall₂ (Entry.IsLike like))
      (entries limit (fuel + 1) depth read tokens)
      (entries limit' (fuel + 1) depth read' tokens') := by
  rw [entries, entries, goes.nextKind?]
  split
  · exact .on (List.forall₂_reverse_iff.mpr before) goes.advance
  · rcases propertyKey_alike goes with
      ⟨key, span, span', rest, rest', here, there, text, goes⟩ |
        ⟨error, error', here, there, errors⟩
    · rw [here, there]
      have takes := takes_expect .colon goes
      dsimp only
      generalize expect .colon rest = taken, expect .colon rest' = taken' at takes
      cases takes with
      | refused error =>
          exact readsLike_broken (List.forall₂_reverse_iff.mpr
            (.cons (.property key text (.broken error)) before)) error
      | @taken _ _ rest rest' _ _ goes =>
          have next := ih.assign depth goes
          dsimp only
          generalize assign limit fuel depth rest = item,
            assign limit' fuel depth rest' = item' at next
          cases next with
          | adrift may => exact .adrift may
          | on value goes =>
              have more := List.Forall₂.cons (.property key text value) before
              exact readsLike_separated goes (ih.entries depth more)
                (fun error => List.forall₂_reverse_iff.mpr (.cons (.broken error) more))
                (List.forall₂_reverse_iff.mpr more)
    · rw [here, there]
      exact readsLike_broken
        (List.forall₂_reverse_iff.mpr (.cons (.broken errors) before)) errors

/-- Functions are read alike, with the same parameters and names declared ahead. -/
theorem readsLike_definition {span span' : Span}
    (keyword : like.Span (·.kind = .kwDef) span span') :
    ReadsLike like lenient (Definition.IsLike like)
      (definition limit (fuel + 1) depth span tokens)
      (definition limit' (fuel + 1) depth span' tokens') := by
  rw [definition, definition]
  have names : OpensLike like False _ _ _ := opens_paramList goes
  generalize paramList tokens = read, paramList tokens' = read' at names
  cases names with
  | adrift never => exact never.elim
  | broken names error =>
      exact readsLike_broken (.mk keyword names .nil (.cons (.broken error) .nil)) error
  | @on _ _ rest rest' names goes =>
      have declared := alike_ofBody goes
      have takes := takes_expect .openCurly goes
      dsimp only
      generalize expect .openCurly rest = taken, expect .openCurly rest' = taken' at takes
      cases takes with
      | refused error =>
          exact readsLike_broken (.mk keyword names declared (.cons (.broken error) .nil)) error
      | taken _ _ goes =>
          exact (ih.statements depth true .nil goes).map fun _ _ body =>
            Definition.IsLike.mk keyword names declared body

/-- Statements in a row are read alike, behind like ones read before. -/
theorem readsLike_statements (inBlock : Bool) {read read' : List Stmt}
    (before : List.Forall₂ (Stmt.IsLike like) read read') :
    ReadsLike like lenient (List.Forall₂ (Stmt.IsLike like))
      (statements limit (fuel + 1) depth inBlock read tokens)
      (statements limit' (fuel + 1) depth inBlock read' tokens') := by
  unfold statements
  cases goes with
  | broken error =>
      exact readsLike_broken (List.forall₂_reverse_iff.mpr (.cons (.broken error) before)) error
  | ended same =>
      cases inBlock with
      | false => exact .on (List.forall₂_reverse_iff.mpr before) (.ended same)
      | true =>
          have error := Likeness.Error.token (.expected .closeCurly .endOfInput) same
            ⟨rfl, nofun⟩
          exact readsLike_broken (List.forall₂_reverse_iff.mpr (.cons (.broken error) before)) error
  | @token token token' rest rest' same behind =>
      dsimp only
      rw [like.kind same]
      split
      · exact .on (List.forall₂_reverse_iff.mpr before) behind.goes
      · have next := ih.statement depth (.token same behind)
        generalize statement limit fuel depth (.token token rest) = item,
          statement limit' fuel depth (.token token' rest') = item' at next
        cases next with
        | adrift may =>
            refine .of_not_clear may fun clear => ?_
            obtain ⟨_, _, _, _, clear, _⟩ :=
              (scansAll limit fuel).statements depth inBlock _ _ clear
            exact clear
        | on stmt goes => exact ih.statements depth inBlock (.cons stmt before) goes

/-- Variables are read alike, behind like ones read before. -/
theorem readsLike_declarators {read read' : List Declarator}
    (before : List.Forall₂ (Declarator.IsLike like) read read') :
    ReadsLike like lenient (List.Forall₂ (Declarator.IsLike like))
      (declarators limit (fuel + 1) depth read tokens)
      (declarators limit' (fuel + 1) depth read' tokens') := by
  rw [declarators, declarators]
  have takes := takes_expect .ident goes
  generalize expect .ident tokens = taken, expect .ident tokens' = taken' at takes
  cases takes with
  | refused error =>
      exact readsLike_broken (List.forall₂_reverse_iff.mpr (.cons (.broken error) before)) error
  | @taken ident ident' _ _ same kind goes =>
      have name : like.Span (Token.IsName ident.name) ident.span ident'.span :=
        ⟨ident, ident', same, ⟨kind, rfl⟩, rfl, rfl⟩
      have without := List.Forall₂.cons (.variable name .none) before
      dsimp only
      rw [like.name same]
      split
      · cases goes with
        | broken error =>
            exact readsLike_broken (List.forall₂_reverse_iff.mpr (.cons (.broken error) before))
              error
      · rename_i text span rest
        obtain ⟨_, _, rest', rfl, -, behind⟩ := goes.behind
        have value := ih.assign depth behind.goes
        dsimp only
        generalize assign limit fuel depth rest = item,
          assign limit' fuel depth rest' = item' at value
        cases value with
        | adrift may => exact .adrift may
        | on value goes =>
            have more := List.Forall₂.cons (.variable name (.some value)) before
            dsimp only
            split
            · cases goes with
              | @token _ comma _ _ same rest =>
                  obtain ⟨kind, text, span⟩ := comma
                  obtain rfl : kind = .comma := like.kind same
                  exact ih.declarators depth more rest.goes
            · rename_i other
              split
              · exact absurd rfl (goes.not_token other _ _ _)
              · exact .on (List.forall₂_reverse_iff.mpr more) goes
      · obtain ⟨_, _, _, rfl, -, rest⟩ := goes.behind
        exact ih.declarators depth without rest.goes
      · rename_i sound noEqual noComma
        split
        · cases goes with
          | broken => exact absurd rfl (sound _ _)
        · exact absurd rfl (goes.not_token noEqual _ _ _)
        · exact absurd rfl (goes.not_token noComma _ _ _)
        · exact .on (List.forall₂_reverse_iff.mpr without) goes

/-- Conditions are read alike, and their parentheses are closed in both texts or in neither. -/
theorem opensLike_condition :
    OpensLike like lenient (Expr.IsLike like) (condition limit (fuel + 1) depth tokens)
      (condition limit' (fuel + 1) depth tokens') := by
  rw [condition, condition]
  have takes := takes_expect .openParen goes
  generalize expect .openParen tokens = taken, expect .openParen tokens' = taken' at takes
  cases takes with
  | refused error => exact .broken (.broken error) error
  | @taken _ _ rest rest' _ _ goes =>
      have test := ih.assign depth goes
      dsimp only
      generalize assign limit fuel depth rest = read,
        assign limit' fuel depth rest' = read' at test
      cases test with
      | adrift may => exact .adrift may
      | on test goes => exact opens_expect test .closeParen goes

/-- Primary expressions are read alike. -/
theorem readsLike_primary :
    ReadsLike like lenient (Access.IsLike like) (primary limit (fuel + 1) depth tokens)
      (primary limit' (fuel + 1) depth tokens') := by
  rw [primary, primary]
  rcases goes.peek with ⟨token, token', here, there, same⟩ | ⟨error, error', here, there, errors⟩
  · have behind := goes.advance
    rw [here, there]
    generalize tokens.advance = rest, tokens'.advance = rest' at behind
    obtain ⟨kind, text, span⟩ := token
    obtain ⟨kind', text', span'⟩ := token'
    obtain rfl : kind' = kind := like.kind same
    obtain rfl : text' = text := like.text same
    dsimp only
    cases kind' with
    | number =>
        dsimp only
        cases Literal.number? text' with
        | none =>
            have error := Likeness.Error.token .invalidNumber same rfl
            exact readsLike_broken (.value (.broken error)) error
        | some value => exact .on (.value (.number value ⟨_, _, same, rfl, rfl, rfl⟩)) behind
    | string =>
        dsimp only
        rcases string_alike same rfl with ⟨value, one, other⟩ | ⟨error, error', one, other, errors⟩
        · rw [one, other]
          exact .on (.value (.string value ⟨_, _, same, .inr (.inr rfl), rfl, rfl⟩)) behind
        · rw [one, other]
          exact readsLike_broken (.value (.broken errors)) errors
    | kwTrue => exact .on (.value (.literal .true_)) behind
    | kwFalse => exact .on (.value (.literal .false_)) behind
    | kwUndefined => exact .on (.value (.literal .undefined)) behind
    | kwNaN => exact .on (.value (.literal .nan)) behind
    | ident => exact .on (.name ⟨_, _, same, ⟨rfl, rfl⟩, rfl, rfl⟩) behind
    | openParen =>
        have inner := ih.assign depth behind
        dsimp only
        generalize assign limit fuel depth rest = read,
          assign limit' fuel depth rest' = read' at inner
        cases inner with
        | adrift may => exact .adrift may
        | @on _ _ between between' inner goes =>
            have takes := takes_expect .closeParen goes
            dsimp only
            generalize expect .closeParen between = taken,
              expect .closeParen between' = taken' at takes
            cases takes with
            | refused error =>
                exact readsLike_broken (.value (.element inner (.broken error))) error
            | taken _ _ goes => exact .on (.value inner) goes
    | openSquare =>
        exact (ih.exprList depth .closeSquare true .nil behind).map fun _ _ elements =>
          Access.IsLike.value (.array elements ⟨_, _, same, rfl, rfl, rfl⟩)
    | openCurly =>
        exact (ih.entries depth .nil behind).map fun _ _ properties =>
          Access.IsLike.value (.object properties ⟨_, _, same, rfl, rfl, rfl⟩)
    | kwDef =>
        exact (ih.definition depth ⟨_, _, same, rfl, rfl, rfl⟩ behind).map fun _ _ definition =>
          Access.IsLike.value (.function definition)
    | _ =>
        have error := Likeness.Error.token (.expectedExpression _) same rfl
        exact readsLike_broken (.value (.broken error)) error
  · rw [here, there]
    exact readsLike_broken (.value (.broken errors)) errors

/-- Loops start alike. -/
theorem readsLike_loopStart :
    ReadsLike like lenient (ForStart.IsLike like) (loopStart limit fuel depth tokens)
      (loopStart limit' fuel depth tokens') := by
  unfold loopStart
  dsimp only
  split
  · obtain ⟨_, _, _, rfl, -, rest⟩ := goes.behind
    exact (ih.declarators depth .nil rest.goes).map fun _ _ names =>
      ForStart.IsLike.declare names
  · obtain ⟨_, _, _, rfl, same, rest⟩ := goes.behind
    exact .on .nothing (.token same rest)
  · rename_i noVar noSemicolon
    split
    · exact absurd rfl (goes.not_token noVar _ _ _)
    · exact absurd rfl (goes.not_token noSemicolon _ _ _)
    · exact (ih.assign depth goes).map fun _ _ value => ForStart.IsLike.evaluate value

/-- Like clauses of a loop are both there or both left out. -/
theorem readsLike_loopClause (stop : TokenKind) :
    ReadsLike like lenient (Option.Rel (Expr.IsLike like)) (loopClause limit fuel depth stop tokens)
      (loopClause limit' fuel depth stop tokens') := by
  unfold loopClause
  rw [goes.nextKind?]
  split
  · exact .on .none goes
  · exact (ih.assign depth goes).map fun _ _ value => Option.Rel.some value

/-- And so whole `for` loops are read alike. -/
theorem readsLike_forLoop :
    ReadsLike like lenient (Stmt.IsLike like) (forLoop limit (fuel + 1) depth tokens)
      (forLoop limit' (fuel + 1) depth tokens') := by
  rw [forLoop_eq, forLoop_eq]
  have takes := takes_expect .openParen goes
  generalize expect .openParen tokens = taken, expect .openParen tokens' = taken' at takes
  cases takes with
  | refused error => exact readsLike_broken (.broken error) error
  | @taken _ _ rest rest' _ _ goes =>
      have start : ReadsLike like lenient (ForStart.IsLike like) (loopStart limit fuel depth rest)
          (loopStart limit' fuel depth rest') := readsLike_loopStart ih goes
      dsimp only
      generalize loopStart limit fuel depth rest = read,
        loopStart limit' fuel depth rest' = read' at start
      cases start with
      | adrift may => exact .adrift may
      | @on _ _ rest rest' start goes =>
          have takes := takes_expect .semicolon goes
          dsimp only
          generalize expect .semicolon rest = taken, expect .semicolon rest' = taken' at takes
          cases takes with
          | refused error =>
              exact readsLike_broken
                (.forLoop start (.some (.broken error)) .none (.block .nil)) error
          | @taken _ _ rest rest' _ _ goes =>
              have test : ReadsLike like lenient (Option.Rel (Expr.IsLike like))
                  (loopClause limit fuel depth .semicolon rest)
                  (loopClause limit' fuel depth .semicolon rest') := readsLike_loopClause ih goes _
              dsimp only
              generalize loopClause limit fuel depth .semicolon rest = read,
                loopClause limit' fuel depth .semicolon rest' = read' at test
              cases test with
              | adrift may => exact .adrift may
              | @on _ _ rest rest' test goes =>
                  have takes := takes_expect .semicolon goes
                  dsimp only
                  generalize expect .semicolon rest = taken,
                    expect .semicolon rest' = taken' at takes
                  cases takes with
                  | refused error =>
                      exact readsLike_broken
                        (.forLoop start test (.some (.broken error)) (.block .nil)) error
                  | @taken _ _ rest rest' _ _ goes =>
                      have step : ReadsLike like lenient (Option.Rel (Expr.IsLike like))
                          (loopClause limit fuel depth .closeParen rest)
                          (loopClause limit' fuel depth .closeParen rest') :=
                        readsLike_loopClause ih goes _
                      dsimp only
                      generalize loopClause limit fuel depth .closeParen rest = read,
                        loopClause limit' fuel depth .closeParen rest' = read' at step
                      cases step with
                      | adrift may => exact .adrift may
                      | @on _ _ rest rest' step goes =>
                          have takes := takes_expect .closeParen goes
                          dsimp only
                          generalize expect .closeParen rest = taken,
                            expect .closeParen rest' = taken' at takes
                          cases takes with
                          | refused error =>
                              exact readsLike_broken (.forLoop start test step (.broken error)) error
                          | taken _ _ goes =>
                              exact (ih.statement depth goes).map fun _ _ body =>
                                Stmt.IsLike.forLoop start test step body

/-- Behind a branch both texts go on with an `else` or neither does. -/
theorem readsLike_branchEnd {test test' : Expr} {whenTrue whenTrue' : Stmt}
    (tests : test.IsLike like test') (first : whenTrue.IsLike like whenTrue') :
    ReadsLike like lenient (Stmt.IsLike like) (branchEnd limit fuel depth test whenTrue tokens)
      (branchEnd limit' fuel depth test' whenTrue' tokens') := by
  unfold branchEnd
  dsimp only
  split
  · obtain ⟨_, _, _, rfl, -, rest⟩ := goes.behind
    exact (ih.statement depth rest.goes).map fun _ _ second =>
      Stmt.IsLike.branch tests first (.some second)
  · cases goes with
    | broken error => exact readsLike_broken (.branch tests first (.some (.broken error))) error
  · rename_i noElse sound
    split
    · exact absurd rfl (goes.not_token noElse _ _ _)
    · cases goes with
      | broken => exact absurd rfl (sound _ _)
    · exact .on (.branch tests first .none) goes

/-- Statements are read alike. -/
theorem readsLike_statement :
    ReadsLike like lenient (Stmt.IsLike like) (statement limit (fuel + 1) depth tokens)
      (statement limit' (fuel + 1) depth tokens') := by
  rw [statement, statement]
  rcases goes.peek with ⟨token, token', here, there, same⟩ | ⟨error, error', here, there, errors⟩
  · have behind := goes.advance
    rw [here, there]
    generalize tokens.advance = rest, tokens'.advance = rest' at behind
    obtain ⟨kind, text, span⟩ := token
    obtain ⟨kind', text', span'⟩ := token'
    obtain rfl : kind' = kind := like.kind same
    dsimp only
    cases kind' with
    | kwVar =>
        have names := ih.declarators depth .nil behind
        dsimp only
        generalize declarators limit fuel depth [] rest = read,
          declarators limit' fuel depth [] rest' = read' at names
        cases names with
        | adrift may => exact .adrift may
        | on names goes => exact readsLike_optionalSemicolon (.declare names) goes
    | kwDef =>
        rcases behind.peek with
          ⟨ident, ident', here, there, named⟩ | ⟨error, error', here, there, errors⟩
        · dsimp only
          rw [here, there]
          dsimp only
          rw [like.kind named, like.name named]
          split
          · rename_i kind
            exact (ih.definition depth ⟨_, _, same, rfl, rfl, rfl⟩ behind.advance).map
              fun _ _ definition =>
                Stmt.IsLike.define ⟨ident, ident', named, ⟨kind, rfl⟩, rfl, rfl⟩ definition
          · rename_i other
            have error := Likeness.Error.functionName named same other rfl
            exact readsLike_broken (.broken error) error
        · dsimp only
          rw [here, there]
          exact readsLike_broken (.broken errors) errors
    | kwIf =>
        have test := ih.condition depth behind
        dsimp only
        generalize condition limit fuel depth rest = read,
          condition limit' fuel depth rest' = read' at test
        cases test with
        | adrift may => exact .adrift may
        | broken test error => exact readsLike_broken (.branch test (.broken error) .none) error
        | @on _ _ rest rest' test goes =>
            have first := ih.statement depth goes
            dsimp only
            generalize statement limit fuel depth rest = read,
              statement limit' fuel depth rest' = read' at first
            cases first with
            | adrift may => exact .adrift may
            | on first goes => exact readsLike_branchEnd ih goes test first
    | kwWhile =>
        have test := ih.condition depth behind
        dsimp only
        generalize condition limit fuel depth rest = read,
          condition limit' fuel depth rest' = read' at test
        cases test with
        | adrift may => exact .adrift may
        | broken test error => exact readsLike_broken (.whileLoop test (.broken error)) error
        | on test goes =>
            exact (ih.statement depth goes).map fun _ _ body => Stmt.IsLike.whileLoop test body
    | kwFor => exact ih.forLoop depth behind
    | kwBreak =>
        exact readsLike_optionalSemicolon (.breakLoop ⟨_, _, same, rfl, rfl, rfl⟩) behind
    | kwContinue =>
        exact readsLike_optionalSemicolon (.continueLoop ⟨_, _, same, rfl, rfl, rfl⟩) behind
    | kwReturn =>
        rcases behind.peek with
          ⟨next, next', here, there, follows⟩ | ⟨error, error', here, there, errors⟩
        · dsimp only
          rw [here, there]
          dsimp only
          rw [like.kind follows]
          split
          · exact readsLike_optionalSemicolon (.return_ .none) behind
          · have value := ih.assign depth behind
            generalize assign limit fuel depth rest = read,
              assign limit' fuel depth rest' = read' at value
            cases value with
            | adrift may => exact .adrift may
            | on value goes => exact readsLike_optionalSemicolon (.return_ (.some value)) goes
        · dsimp only
          rw [here, there]
          exact readsLike_broken (.broken errors) errors
    | openCurly =>
        exact (ih.statements depth true .nil behind).map fun _ _ body => Stmt.IsLike.block body
    | semicolon => exact .on (.block .nil) behind
    | _ =>
        have value := ih.assign depth goes
        dsimp only
        generalize assign limit fuel depth tokens = read,
          assign limit' fuel depth tokens' = read' at value
        cases value with
        | adrift may => exact .adrift may
        | on value goes => exact readsLike_optionalSemicolon (.expression value) goes
  · rw [here, there]
    exact readsLike_broken (.broken errors) errors

end

/-- However much fuel there is, like tokens are read as like trees. -/
theorem readsAllLike (wider : limit ≤ limit') (strict : lenient ∨ limit' = limit) :
    (fuel : Nat) → ReadsAllLike like lenient limit limit' fuel
  | 0 => readsAllLike_zero strict
  | fuel + 1 =>
      have ih := readsAllLike wider strict fuel
      { assign := fun _ _ _ goes => readsLike_assign ih goes wider strict
        ternary := fun _ _ _ goes => readsLike_ternary ih goes
        infixes := fun _ level _ _ goes => readsLike_infixes ih goes level
        moreInfixes := fun _ level _ _ _ _ left goes => readsLike_moreInfixes ih goes level left
        unary := fun _ _ _ goes => readsLike_unary ih goes wider strict
        postfixes := fun _ _ _ goes => readsLike_postfixes ih goes
        morePostfixes := fun _ _ _ _ _ subject goes => readsLike_morePostfixes ih goes subject
        exprList := fun _ closing trailing _ _ _ _ read goes =>
          readsLike_exprList ih goes closing trailing read
        entries := fun _ _ _ _ _ read goes => readsLike_entries ih goes read
        primary := fun _ _ _ goes => readsLike_primary ih goes
        definition := fun _ _ _ _ _ span goes => readsLike_definition ih goes span
        statements := fun _ inBlock _ _ _ _ read goes =>
          readsLike_statements ih goes inBlock read
        declarators := fun _ _ _ _ _ read goes => readsLike_declarators ih goes read
        condition := fun _ _ _ goes => opensLike_condition ih goes
        statement := fun _ _ _ goes => readsLike_statement ih goes
        forLoop := fun _ _ _ goes => readsLike_forLoop ih goes }

end Parser

/-! ## Units -/

namespace UnitTree

/-- How the trees of two units compare whose tokens are alike, where the first may be read within
stricter limits. -/
inductive Compares (like : Likeness) (lenient : Prop) : UnitTree → UnitTree → Prop
  | whole {declared declared' body body' ending ending'} :
      List.Forall₂ like.Name declared declared' → List.Forall₂ (Stmt.IsLike like) body body' →
      like.Span (·.kind = .endOfInput) ending ending' →
      Compares like lenient ⟨declared, body, ending⟩ ⟨declared', body', ending'⟩
  | broken {declared declared' body body' ending ending' error} :
      List.Forall₂ like.Name declared declared' → List.Forall₂ (Stmt.IsLike like) body body' →
      .broken error ∈ body →
      Compares like lenient ⟨declared, body, ending⟩ ⟨declared', body', ending'⟩
  | adrift {declared body ending error other} : lenient → .broken error ∈ body →
      Compares like lenient ⟨declared, body, ending⟩ other

/-- Like tokens are the tokens of like units. -/
theorem compares_ofTokens {like : Likeness} {lenient : Prop} {limit limit' : Nat}
    {tokens tokens' : TokenStream} (wider : limit ≤ limit') (strict : lenient ∨ limit' = limit)
    (alike : tokens.IsLike like tokens') :
    Compares like lenient (ofTokens limit tokens) (ofTokens limit' tokens') := by
  unfold ofTokens
  have fuel : Parser.fuelFor tokens' = Parser.fuelFor tokens := by
    rw [Parser.fuelFor, Parser.fuelFor, alike.length]
  have declared : List.Forall₂ like.Name (Declarations.ofUnit tokens)
      (Declarations.ofUnit tokens') := Declarations.isLike_search alike.searched ⟨rfl, .nil⟩
  have reads := (Parser.readsAllLike wider strict (Parser.fuelFor tokens)).statements 0 false .nil
    alike.goes
  have scans := (Parser.scansAll limit (Parser.fuelFor tokens)).statements 0 false [] tokens
  have read : (Parser.statements limit (Parser.fuelFor tokens) 0 false [] tokens).2.Clear ∨
      ∃ error, .broken error ∈
        (Parser.statements limit (Parser.fuelFor tokens) 0 false [] tokens).1 :=
    Parser.clear_or_broken
  rw [fuel]
  generalize Parser.statements limit (Parser.fuelFor tokens) 0 false [] tokens = one,
    Parser.statements limit' (Parser.fuelFor tokens) 0 false [] tokens' = other at reads scans read
  cases reads with
  | adrift may =>
      obtain ⟨error, member⟩ := read.resolve_left id
      exact .adrift may member
  | on body goes =>
      rcases read with clear | ⟨error, member⟩
      · obtain ⟨_, _, _, ⟨_, position, ended⟩, _⟩ := scans clear
        cases ended
        cases goes with
        | ended same => exact .whole declared body ⟨_, _, same, rfl, rfl, rfl⟩
      · exact .broken declared body member

end UnitTree

end PocketScript
