import PocketScript.Proofs.Compile.Statements
import PocketScript.Proofs.Expression.Spelling
import PocketScript.Proofs.Statement.Phrase
import PocketScript.Proofs.Tree.Declared

/-!
# Every spelled phrase is read back

The parser reads a phrase from the tokens that spell it, whatever stands behind them, as long as that
starts with a token of the kind they are spelled in front of (`Parser.reads_spells_phrase`). As with
terms it may also give up, with a tree that does not compile. From this it follows what is read of the
parameters and the body of a function (`Parser.reads_function`).
-/

namespace PocketScript

/-! ## Statements that do not compile -/

namespace Compiling

variable {value : Expr} {tree : Stmt}

theorem fails_stmt_broken (error : CompileError) : Fails (stmt (.broken error)) := by
  intro context before result after leads
  rw [stmt] at leads
  exact not_leads_throw leads

theorem fails_expression (failing : Fails (expr value)) : Fails (stmt (.expression value)) := by
  intro context before result after leads
  obtain ⟨valued, inner, -⟩ := leads_expression leads
  exact failing _ _ _ _ inner

theorem fails_stmts {trees : List Stmt} (inside : tree ∈ trees) (failing : Fails (stmt tree)) :
    Fails (stmts trees) := by
  induction trees with
  | nil => cases inside
  | cons first rest ih =>
      intro context before result after leads
      obtain ⟨middle, one, more⟩ := leads_stmts_cons.mp leads
      rcases List.mem_cons.mp inside with rfl | later
      · exact failing _ _ _ _ one
      · exact ih later _ _ _ _ more

theorem fails_block {trees : List Stmt} (failing : Fails (stmts trees)) :
    Fails (stmt (.block trees)) := by
  intro context before result after leads
  exact failing _ _ _ _ (leads_block.mp leads)

/-- A broken variable raises its error. -/
theorem fails_declarator_broken (error : CompileError) : Fails (declarator (.broken error)) := by
  intro context before result after leads
  rw [declarator] at leads
  exact not_leads_throw leads

theorem fails_variable {name : String} {span : Span} (failing : Fails (expr value)) :
    Fails (declarator (.variable name span (some value))) := by
  intro context before result after leads
  obtain ⟨sink, placed, valued, -, inner, -⟩ := leads_variable leads
  exact failing _ _ _ _ inner

theorem fails_declarators {trees : List Declarator} {first : Declarator} (inside : first ∈ trees)
    (failing : Fails (declarator first)) : Fails (declarators trees) := by
  induction trees with
  | nil => cases inside
  | cons other rest ih =>
      intro context before result after leads
      obtain ⟨middle, one, more⟩ := leads_declarators_cons.mp leads
      rcases List.mem_cons.mp inside with rfl | later
      · exact failing _ _ _ _ one
      · exact ih later _ _ _ _ more

theorem fails_declare {trees : List Declarator} (failing : Fails (declarators trees)) :
    Fails (stmt (.declare trees)) := by
  intro context before result after leads
  exact failing _ _ _ _ (leads_declare.mp leads)

theorem fails_branch {first : Stmt} {second : Option Stmt}
    (failing : Fails (expr value) ∨ Fails (stmt first) ∨ ∃ other ∈ second, Fails (stmt other)) :
    Fails (stmt (.branch value first second)) := by
  intro context before result after leads
  cases second with
  | none =>
      obtain ⟨tested, one, middle, two, -⟩ := leads_branch.mp leads
      rcases failing with failing | failing | ⟨other, none, -⟩
      · exact failing _ _ _ _ one
      · exact failing _ _ _ _ two
      · cases none
  | some second =>
      obtain ⟨tested, one, middle, two, last, three, -⟩ := leads_branch_else.mp leads
      rcases failing with failing | failing | ⟨other, same, failing⟩
      · exact failing _ _ _ _ one
      · exact failing _ _ _ _ two
      · cases same
        exact failing _ _ _ _ three

theorem fails_whileLoop (failing : Fails (expr value) ∨ Fails (stmt tree)) :
    Fails (stmt (.whileLoop value tree)) := by
  intro context before result after leads
  obtain ⟨tested, one, repeated, two, -⟩ := leads_whileLoop.mp leads
  rcases failing with failing | failing
  · exact failing _ _ _ _ one
  · exact failing _ _ _ _ two

theorem fails_forStart_declare {trees : List Declarator} (failing : Fails (declarators trees)) :
    Fails (forStart (.declare trees)) := by
  intro context before result after leads
  exact failing _ _ _ _ (leads_forStart_declare.mp leads)

theorem fails_forStart_evaluate (failing : Fails (expr value)) :
    Fails (forStart (.evaluate value)) := by
  intro context before result after leads
  obtain ⟨valued, inner, -⟩ := leads_forStart_evaluate.mp leads
  exact failing _ _ _ _ inner

theorem fails_forLoop {start : ForStart} {test step : Option Expr}
    (failing : Fails (forStart start) ∨ (∃ value ∈ test, Fails (expr value)) ∨
      (∃ value ∈ step, Fails (expr value)) ∨ Fails (stmt tree)) :
    Fails (stmt (.forLoop start test step tree)) := by
  intro context before result after leads
  obtain ⟨started, one, tested, two, next, stepped, three, repeated, four, -⟩ := leads_forLoop leads
  rcases failing with failing | ⟨value, same, failing⟩ | ⟨value, same, failing⟩ | failing
  · exact failing _ _ _ _ one
  · cases same
    cases two with
    | some inner => exact failing _ _ _ _ inner
  · cases same
    cases three with
    | some inner => exact failing _ _ _ _ inner
  · exact failing _ _ _ _ four

theorem fails_return (failing : Fails (expr value)) : Fails (stmt (.return_ (some value))) := by
  intro context before result after leads
  obtain ⟨valued, inner, -⟩ := leads_return.mp leads
  exact failing _ _ _ _ inner

theorem fails_definition {span : Span} {params declared : List (String × Span)}
    {trees : List Stmt} (failing : Fails (stmts trees)) :
    Fails (definition (.mk span params declared trees)) := by
  intro context before result after leads
  obtain ⟨-, named, -, ready, -, ended, inner, -⟩ := leads_definition.mp leads
  exact failing _ _ _ _ inner

end Compiling

/-! ## The ends of statements -/

namespace Parser

variable {next : TokenKind} {rest : TokenStream}

theorem stops_of_nextKind? {level : Nat} (follows : rest.nextKind? = some next)
    (none : continuing? next = none) : Stops level rest := by
  intro kind found there continues
  rw [follows] at there
  cases there
  rw [none] at continues
  cases continues

end Parser

namespace Phrase

open PocketScript.Parser

variable {next : TokenKind} {rest : TokenStream} {closing : List Token}

theorem Closes.passed {stops : TokenKind → Prop} (closes : Closes stops next closing)
    (follows : rest.nextKind? = some next) (tree : Stmt) :
    optionalSemicolon tree (rest.behind closing) = (tree, rest) := by
  cases closes with
  | semicolon => rfl
  | nothing other =>
      rw [TokenStream.behind_nil]
      unfold optionalSemicolon
      split
      · cases follows
      · cases follows
        exact absurd rfl other
      · rfl

theorem Closes.stops (closes : Closes StopsTerm next closing)
    (follows : rest.nextKind? = some next) : Stops 0 (rest.behind closing) := by
  cases closes with
  | semicolon => exact stops_of_none rfl
  | nothing _ stops => exact stops_of_nextKind? follows stops

theorem Closes.stopsVariables (closes : Closes StopsVariables next closing)
    (follows : rest.nextKind? = some next) :
    ∃ kind, (rest.behind closing).nextKind? = some kind ∧ StopsVariables kind := by
  cases closes with
  | semicolon => exact ⟨.semicolon, rfl, rfl, TokenKind.noConfusion⟩
  | nothing _ stops => exact ⟨next, follows, stops⟩

end Phrase

namespace Parser

open Compiling Phrase

variable {limit fuel depth : Nat} {next : TokenKind} {rest : TokenStream} {value : Term}
  {tokens more closing : List Token} {phrase : Phrase}

/-- A semicolon does not mend a statement. -/
theorem fails_optionalSemicolon {tree : Stmt} {tokens : TokenStream} (failing : Fails (stmt tree)) :
    Fails (stmt (optionalSemicolon tree tokens).1) := by
  unfold optionalSemicolon
  split
  · exact fails_block (fails_stmts List.mem_cons_self failing)
  · exact failing
  · exact failing

/-! ## Variables -/

/-- What was read before stays among the variables. -/
theorem fails_readDeclarators {read : List Declarator} {tree : Declarator} {tokens : TokenStream}
    (inside : tree ∈ read) (failing : Fails (declarator tree)) :
    Fails (Compiling.declarators (Parser.declarators limit fuel depth read tokens).1) := by
  induction fuel generalizing read tokens with
  | zero =>
      unfold Parser.declarators
      exact fails_declarators List.mem_cons_self (fails_declarator_broken _)
  | succ fuel ih =>
      have kept : ∀ first : Declarator, tree ∈ (first :: read).reverse := fun first =>
        List.mem_reverse.mpr (List.mem_cons_of_mem _ inside)
      unfold Parser.declarators
      simp only
      split
      · exact fails_declarators (kept _) failing
      · split
        · exact fails_declarators (kept _) failing
        · split
          · exact ih (List.mem_cons_of_mem _ inside)
          · exact fails_declarators (kept _) failing
        · exact ih (List.mem_cons_of_mem _ inside)
        · exact fails_declarators (kept _) failing

/-- Variables are read behind those before, in front of a token that does not go on with them. -/
def ReadsVariables (variables_ : List (String × Option Term)) (tokens : List Token) : Prop :=
  ∀ limit fuel depth read rest next, rest.nextKind? = some next → StopsVariables next →
    let outcome := Parser.declarators limit fuel depth read (rest.behind tokens)
    (∃ trees, Term.DenotesVariables variables_ trees ∧ outcome = (read.reverse ++ trees, rest)) ∨
      Fails (Compiling.declarators outcome.1)

/-- A token of the wanted kind is taken. -/
theorem expect_token (kind : TokenKind) (text : List UInt8) (span : Span) (rest : TokenStream) :
    expect kind (.token ⟨kind, text, span⟩ rest) = .ok (⟨kind, text, span⟩, rest) := by
  simp only [expect, TokenStream.peek, TokenStream.advance, bind, Except.bind, pure, Except.pure,
    ↓reduceIte]

/-- Without fuel no variables are read. -/
theorem spent_declarators (limit depth : Nat) (read : List Declarator) (tokens : TokenStream) :
    Fails (Compiling.declarators (Parser.declarators limit 0 depth read tokens).1) := by
  unfold Parser.declarators
  exact fails_declarators List.mem_cons_self (fails_declarator_broken _)

/-- What is read behind a variable: further ones, if a comma follows. -/
def moreDeclarators (limit fuel depth : Nat) (read : List Declarator) :
    TokenStream → List Declarator × TokenStream
  | .token ⟨.comma, _, _⟩ rest => Parser.declarators limit fuel depth read rest
  | rest => (read.reverse, rest)

theorem moreDeclarators_of_stops (follows : rest.nextKind? = some next) (other : next ≠ .comma)
    (read : List Declarator) : moreDeclarators limit fuel depth read rest = (read.reverse, rest) := by
  unfold moreDeclarators
  split
  · cases follows
    exact absurd rfl other
  · rfl

theorem reads_variable {variable_ : String × Option Term}
    (spells : Term.SpellsVariable variable_ tokens) (follows : rest.nextKind? = some next)
    (stops : StopsTerm next) (limit fuel depth : Nat) (read : List Declarator) :
    let outcome := Parser.declarators limit (fuel + 1) depth read (rest.behind tokens)
    (∃ tree, Term.DenotesVariable variable_ tree ∧
      outcome = moreDeclarators limit fuel depth (tree :: read) rest) ∨
        Fails (Compiling.declarators outcome.1) := by
  unfold Parser.declarators
  cases spells with
  | @name text span =>
      refine .inl ⟨.variable (Token.name ⟨.ident, text, span⟩) span none, .mk .none, ?_⟩
      simp only [TokenStream.behind_cons, TokenStream.behind_nil, expect_token]
      split
      · cases follows
      · cases follows
        cases stops
      · rfl
      · rename_i other
        unfold moreDeclarators
        split
        · exact absurd rfl (other _ _ _)
        · rfl
  | @value value text span text' span' tokens spells =>
      have inner := (reads_spellsAt spells).assign limit fuel depth rest
        (stops_of_nextKind? follows stops)
      simp only [TokenStream.behind_cons, expect_token]
      generalize assign limit fuel depth (rest.behind tokens) = outcome at inner ⊢
      obtain ⟨tree, left⟩ := outcome
      rcases inner with ⟨denotes, same⟩ | failing
      · obtain rfl : left = rest := same
        exact .inl ⟨_, .mk (.some denotes), rfl⟩
      · right
        simp only
        split
        · exact fails_readDeclarators List.mem_cons_self (fails_variable failing)
        · exact fails_declarators (List.mem_reverse.mpr List.mem_cons_self) (fails_variable failing)

/-- Variables are read back as they are spelled. -/
theorem reads_spells_variables {variables_ : List (String × Option Term)} {tokens : List Token}
    (spells : Term.SpellsVariables variables_ tokens) : ReadsVariables variables_ tokens := by
  induction spells with
  | last first =>
      intro limit fuel depth read rest next follows stops
      cases fuel with
      | zero => exact .inr (spent_declarators _ _ _ _)
      | succ fuel =>
          rcases reads_variable first follows stops.1 limit fuel depth read with
            ⟨tree, denotes, same⟩ | failing
          · refine .inl ⟨[tree], .cons denotes .nil, ?_⟩
            rw [same, moreDeclarators_of_stops follows stops.2, List.reverse_cons]
          · exact .inr failing
  | @more variable_ variables_ text span tokens others first _ ih =>
      intro limit fuel depth read rest next follows stops
      cases fuel with
      | zero => exact .inr (spent_declarators _ _ _ _)
      | succ fuel =>
          rw [TokenStream.behind_append, TokenStream.behind_cons]
          rcases @reads_variable .comma (.token ⟨.comma, text, span⟩ (rest.behind others)) _ _ first
            rfl rfl limit fuel depth read with ⟨tree, denotes, same⟩ | failing
          · rw [same]
            rcases ih limit fuel depth (tree :: read) rest next follows stops with
              ⟨trees, all, same⟩ | failing
            · refine .inl ⟨tree :: trees, .cons denotes all, ?_⟩
              rw [List.reverse_cons, List.append_assoc] at same
              exact same
            · exact .inr failing
          · exact .inr failing

/-! ## Statements -/

/-- A phrase is read in front of a token of a kind, or a statement that does not compile. -/
def ReadsPhrase (next : TokenKind) (phrase : Phrase) (tokens : List Token) : Prop :=
  ∀ limit fuel depth rest, rest.nextKind? = some next →
    let outcome := statement limit fuel depth (rest.behind tokens)
    (phrase.Denotes outcome.1 ∧ outcome.2 = rest) ∨ Fails (stmt outcome.1)

/-- Without fuel no statement is read. -/
theorem spent_statement (limit depth : Nat) (tokens : TokenStream) :
    Fails (stmt (statement limit 0 depth tokens).1) := by
  unfold statement
  exact fails_stmt_broken _

/-- It is enough to look at what is read with fuel. -/
theorem readsPhrase_of_fuel
    (reads : ∀ limit fuel depth rest, rest.nextKind? = some next →
      let outcome := statement limit (fuel + 1) depth (rest.behind tokens)
      (phrase.Denotes outcome.1 ∧ outcome.2 = rest) ∨ Fails (stmt outcome.1)) :
    ReadsPhrase next phrase tokens := by
  intro limit fuel
  cases fuel with
  | zero => exact fun _ _ _ => .inr (spent_statement _ _ _)
  | succ fuel => exact reads limit fuel

theorem statement_of_startsTerm {token : Token} (starts : startsTerm token.kind = true)
    (noBlock : token.kind ≠ .openCurly) :
    statement limit (fuel + 1) depth (.token token rest) =
      let outcome := assign limit fuel depth (.token token rest)
      optionalSemicolon (.expression outcome.1) outcome.2 := by
  obtain ⟨kind, text, span⟩ := token
  conv => lhs; unfold statement
  cases kind with
  | openCurly => exact absurd rfl noBlock
  | ident | number | string | kwTrue | kwFalse | kwUndefined | kwNaN | minus | exclamation | tilde
  | openParen | openSquare => rfl
  | _ => cases starts

/-- An expression is read up to the end of its statement. -/
theorem phrase_evaluate (spells : value.SpellsAt 0 tokens)
    (noBlock : firstKind tokens next ≠ .openCurly) (closes : Closes StopsTerm next closing) :
    ReadsPhrase next (.evaluate value) (tokens ++ closing) := by
  refine readsPhrase_of_fuel fun limit fuel depth rest follows => ?_
  obtain ⟨token, more, rfl, starts⟩ := opensTerm_of_spellsAt spells
  have inner := (reads_spellsAt spells).assign limit fuel depth _ (closes.stops follows)
  rw [TokenStream.behind_append]
  rw [TokenStream.behind_cons] at inner ⊢
  rw [statement_of_startsTerm starts noBlock]
  generalize assign limit fuel depth _ = outcome at inner ⊢
  obtain ⟨tree, left⟩ := outcome
  rcases inner with ⟨denotes, same⟩ | failing
  · obtain rfl : left = _ := same
    simp only [closes.passed follows]
    exact .inl ⟨.evaluate denotes, trivial⟩
  · exact .inr (fails_optionalSemicolon (fails_expression failing))

/-- And so are the variables of a declaration. -/
theorem phrase_declare {variables_ : List (String × Option Term)} {text : List UInt8} {span : Span}
    (spells : Term.SpellsVariables variables_ tokens) (closes : Closes StopsVariables next closing) :
    ReadsPhrase next (.declare variables_) (⟨.kwVar, text, span⟩ :: (tokens ++ closing)) := by
  refine readsPhrase_of_fuel fun limit fuel depth rest follows => ?_
  obtain ⟨kind, there, stops⟩ := closes.stopsVariables follows
  have inner := reads_spells_variables spells limit fuel depth [] _ kind there stops
  rw [TokenStream.behind_cons, TokenStream.behind_append]
  unfold statement
  simp only [TokenStream.peek, TokenStream.advance]
  generalize Parser.declarators limit fuel depth [] _ = outcome at inner ⊢
  rcases inner with ⟨trees, denotes, rfl⟩ | failing
  · simp only [List.reverse_nil, List.nil_append, closes.passed follows]
    exact .inl ⟨.declare denotes, trivial⟩
  · exact .inr (fails_optionalSemicolon (fails_declare failing))

/-! ## Branches and loops -/

theorem reads_spelledCondition {text text' : List UInt8} {span span' : Span}
    (reads : ReadsAssign value tokens) (limit fuel depth : Nat) (rest : TokenStream) :
    let outcome := Parser.condition limit fuel depth
      (.token ⟨.openParen, text, span⟩ ((TokenStream.token ⟨.closeParen, text', span'⟩ rest).behind
        tokens))
    (value.Denotes outcome.1 ∧ outcome.2 = .ok rest) ∨ Fails (expr outcome.1) := by
  cases fuel with
  | zero =>
      unfold Parser.condition
      exact .inr (fails_broken _)
  | succ fuel =>
      have inner := reads limit fuel depth (.token ⟨.closeParen, text', span'⟩ rest)
        (stops_of_none rfl)
      unfold Parser.condition
      change (value.Denotes (assign limit fuel depth _).1 ∧
        Except.map _ (expect .closeParen (assign limit fuel depth (TokenStream.behind _ _)).2) = _) ∨
          Fails (expr (assign limit fuel depth _).1)
      rcases inner with ⟨denotes, same⟩ | failing
      · rw [same]
        exact .inl ⟨denotes, rfl⟩
      · exact .inr failing

section

variable {condition : Term} {whenTrue whenFalse body : Phrase} {first second : List Token}
  {text text' text'' : List UInt8} {span span' span'' : Span}

theorem fails_branchEnd {test : Expr} {tree : Stmt} (failing : Fails (expr test) ∨ Fails (stmt tree))
    (stream : TokenStream) : Fails (stmt (branchEnd limit fuel depth test tree stream).1) := by
  unfold branchEnd
  split <;> exact fails_branch (failing.imp_right .inl)

theorem reads_branch (spells : condition.SpellsAt 0 tokens) (reads : ReadsPhrase next whenTrue first)
    (limit fuel depth : Nat) (rest : TokenStream) (follows : rest.nextKind? = some next) :
    let outcome := statement limit (fuel + 1) depth (rest.behind
      (⟨.kwIf, text, span⟩ :: ⟨.openParen, text', span'⟩ ::
        (tokens ++ ⟨.closeParen, text'', span''⟩ :: first)))
    (∃ test tree, condition.Denotes test ∧ whenTrue.Denotes tree ∧
      outcome = branchEnd limit fuel depth test tree rest) ∨ Fails (stmt outcome.1) := by
  have tested := @reads_spelledCondition _ _ text' text'' span' span'' (reads_spellsAt spells).assign
    limit fuel depth (rest.behind first)
  have inner := reads limit fuel depth rest follows
  simp only [TokenStream.behind_cons, TokenStream.behind_append]
  unfold statement
  simp only [TokenStream.peek, TokenStream.advance]
  generalize Parser.condition limit fuel depth _ = outcome at tested ⊢
  obtain ⟨test, error | left⟩ := outcome
  · rcases tested with ⟨-, none⟩ | failing
    · cases none
    · exact .inr (fails_branch (.inl failing))
  · change (∃ _ _, _ ∧ _ ∧ branchEnd limit fuel depth test _ _ = _) ∨
      Fails (stmt (branchEnd limit fuel depth test _ _).1)
    rcases tested with ⟨denotes, same⟩ | failing
    · obtain rfl := Except.ok.inj same
      rcases inner with ⟨meant, same⟩ | failing
      · exact .inl ⟨_, _, denotes, meant, congrArg _ same⟩
      · exact .inr (fails_branchEnd (.inr failing) _)
    · exact .inr (fails_branchEnd (.inl failing) _)

theorem phrase_branch (spells : condition.SpellsAt 0 tokens)
    (reads : ReadsPhrase next whenTrue first) (noElse : next ≠ .kwElse) :
    ReadsPhrase next (.branch condition whenTrue)
      (⟨.kwIf, text, span⟩ :: ⟨.openParen, text', span'⟩ ::
        (tokens ++ ⟨.closeParen, text'', span''⟩ :: first)) := by
  refine readsPhrase_of_fuel fun limit fuel depth rest follows => ?_
  rcases reads_branch spells reads limit fuel depth rest follows with
    ⟨test, tree, denotes, meant, same⟩ | failing
  · rw [same]
    unfold branchEnd
    split
    · cases follows
      exact absurd rfl noElse
    · cases follows
    · exact .inl ⟨.branch denotes meant, rfl⟩
  · exact .inr failing

/-- An `else` goes with the branch in front of it. -/
theorem phrase_branchElse {textElse : List UInt8} {spanElse : Span}
    (spells : condition.SpellsAt 0 tokens) (reads : ReadsPhrase .kwElse whenTrue first)
    (others : ReadsPhrase next whenFalse second) :
    ReadsPhrase next (.branchElse condition whenTrue whenFalse)
      (⟨.kwIf, text, span⟩ :: ⟨.openParen, text', span'⟩ ::
        (tokens ++ ⟨.closeParen, text'', span''⟩ ::
          (first ++ ⟨.kwElse, textElse, spanElse⟩ :: second))) := by
  refine readsPhrase_of_fuel fun limit fuel depth rest follows => ?_
  have inner := @reads_branch _ _ _ _ _ text text' text'' span span' span'' spells reads limit fuel
    depth (.token ⟨.kwElse, textElse, spanElse⟩ (rest.behind second)) rfl
  simp only [TokenStream.behind_cons, TokenStream.behind_append] at inner ⊢
  rcases inner with ⟨test, tree, denotes, meant, same⟩ | failing
  · rw [same]
    rcases others limit fuel depth rest follows with ⟨meant', same⟩ | failing
    · exact .inl ⟨.branchElse denotes meant meant', same⟩
    · exact .inr (fails_branch (.inr (.inr ⟨_, rfl, failing⟩)))
  · exact .inr failing

theorem phrase_whileLoop (spells : condition.SpellsAt 0 tokens)
    (reads : ReadsPhrase next body first) :
    ReadsPhrase next (.whileLoop condition body)
      (⟨.kwWhile, text, span⟩ :: ⟨.openParen, text', span'⟩ ::
        (tokens ++ ⟨.closeParen, text'', span''⟩ :: first)) := by
  refine readsPhrase_of_fuel fun limit fuel depth rest follows => ?_
  have tested := @reads_spelledCondition _ _ text' text'' span' span'' (reads_spellsAt spells).assign
    limit fuel depth (rest.behind first)
  have inner := reads limit fuel depth rest follows
  simp only [TokenStream.behind_cons, TokenStream.behind_append]
  unfold statement
  simp only [TokenStream.peek, TokenStream.advance]
  generalize Parser.condition limit fuel depth _ = outcome at tested ⊢
  obtain ⟨test, error | left⟩ := outcome
  · rcases tested with ⟨-, none⟩ | failing
    · cases none
    · exact .inr (fails_whileLoop (.inl failing))
  · rcases tested with ⟨denotes, same⟩ | failing
    · obtain rfl := Except.ok.inj same
      rcases inner with ⟨meant, same⟩ | failing
      · exact .inl ⟨.whileLoop denotes meant, same⟩
      · exact .inr (fails_whileLoop (.inr failing))
    · exact .inr (fails_whileLoop (.inl failing))

end

/-! ## The clauses of a `for` loop -/

theorem loopStart_of_startsTerm {token : Token} (starts : startsTerm token.kind = true) :
    loopStart limit fuel depth (.token token rest) =
      let outcome := assign limit fuel depth (.token token rest)
      (.evaluate outcome.1, outcome.2) := by
  obtain ⟨kind, text, span⟩ := token
  unfold loopStart
  cases kind with
  | kwVar | semicolon => cases starts
  | _ => rfl

theorem reads_loopBeginning {start : Beginning} {text : List UInt8} {span : Span}
    (spells : start.Spells tokens) (limit fuel depth : Nat) (rest : TokenStream) :
    let outcome := loopStart limit fuel depth
      ((TokenStream.token ⟨.semicolon, text, span⟩ rest).behind tokens)
    (start.Denotes outcome.1 ∧ outcome.2 = .token ⟨.semicolon, text, span⟩ rest) ∨
      Fails (forStart outcome.1) := by
  cases spells with
  | nothing => exact .inl ⟨.nothing, rfl⟩
  | declare variables_ =>
      have inner := reads_spells_variables variables_ limit fuel depth []
        (.token ⟨.semicolon, text, span⟩ rest) .semicolon rfl ⟨rfl, TokenKind.noConfusion⟩
      simp only [TokenStream.behind_cons, loopStart]
      generalize Parser.declarators limit fuel depth [] _ = outcome at inner ⊢
      rcases inner with ⟨trees, denotes, rfl⟩ | failing
      · exact .inl ⟨.declare denotes, rfl⟩
      · exact .inr (fails_forStart_declare failing)
  | evaluate spells =>
      obtain ⟨token, more, rfl, starts⟩ := opensTerm_of_spellsAt spells
      have inner := (reads_spellsAt spells).assign limit fuel depth
        (.token ⟨.semicolon, text, span⟩ rest) (stops_of_none rfl)
      simp only [TokenStream.behind_cons] at inner ⊢
      rw [loopStart_of_startsTerm starts]
      rcases inner with ⟨denotes, same⟩ | failing
      · exact .inl ⟨.evaluate denotes, same⟩
      · exact .inr (fails_forStart_evaluate failing)

theorem reads_optionalTerm {term : Option Term} {closing : TokenKind} {text : List UInt8} {span : Span}
    (spells : Term.SpellsOption term tokens) (stops : StopsTerm closing)
    (differs : startsTerm closing = false) (limit fuel depth : Nat) (rest : TokenStream) :
    let outcome := loopClause limit fuel depth closing
      ((TokenStream.token ⟨closing, text, span⟩ rest).behind tokens)
    (Term.DenotesOption term outcome.1 ∧ outcome.2 = .token ⟨closing, text, span⟩ rest) ∨
      ∃ tree ∈ outcome.1, Fails (expr tree) := by
  cases spells with
  | none =>
      simp only [TokenStream.behind_nil, loopClause, TokenStream.nextKind?, ↓reduceIte]
      exact .inl ⟨.none, trivial⟩
  | some spells =>
      have inner := (reads_spellsAt spells).assign limit fuel depth
        (.token ⟨closing, text, span⟩ rest) (stops_of_none stops)
      obtain ⟨token, more, rfl, starts⟩ := opensTerm_of_spellsAt spells
      have other : token.kind ≠ closing := by
        rintro rfl
        rw [starts] at differs
        cases differs
      simp only [TokenStream.behind_cons, loopClause, TokenStream.nextKind?, Option.some.injEq, other,
        ↓reduceIte] at inner ⊢
      rcases inner with ⟨denotes, same⟩ | failing
      · exact .inl ⟨.some denotes, same⟩
      · exact .inr ⟨_, rfl, failing⟩

/-- A `for` loop is read clause by clause, and then its body. -/
theorem phrase_forLoop {start : Beginning} {test step : Option Term} {body : Phrase}
    {first second third : List Token} {text text' text'' textTest textStep : List UInt8}
    {span span' span'' spanTest spanStep : Span} (begins : start.Spells first)
    (tests : Term.SpellsOption test second) (steps : Term.SpellsOption step third)
    (reads : ReadsPhrase next body more) :
    ReadsPhrase next (.forLoop start test step body)
      (⟨.kwFor, text, span⟩ :: ⟨.openParen, text', span'⟩ ::
        (first ++ ⟨.semicolon, textTest, spanTest⟩ ::
          (second ++ ⟨.semicolon, textStep, spanStep⟩ ::
            (third ++ ⟨.closeParen, text'', span''⟩ :: more)))) := by
  refine readsPhrase_of_fuel fun limit fuel depth rest follows => ?_
  simp only [TokenStream.behind_cons, TokenStream.behind_append]
  unfold statement
  simp only [TokenStream.peek, TokenStream.advance]
  cases fuel with
  | zero =>
      unfold forLoop
      exact .inr (fails_stmt_broken _)
  | succ fuel =>
      rw [forLoop_eq]
      simp only [expect_token]
      have started := @reads_loopBeginning _ _ textTest spanTest begins limit fuel depth
        ((TokenStream.token ⟨.semicolon, textStep, spanStep⟩
          ((TokenStream.token ⟨.closeParen, text'', span''⟩ (rest.behind more)).behind
            third)).behind second)
      have tested := @reads_optionalTerm _ _ .semicolon textStep spanStep tests rfl rfl limit fuel depth
        ((TokenStream.token ⟨.closeParen, text'', span''⟩ (rest.behind more)).behind third)
      have stepped := @reads_optionalTerm _ _ .closeParen text'' span'' steps rfl rfl limit fuel depth
        (rest.behind more)
      have inner := reads limit fuel depth rest follows
      generalize loopStart limit fuel depth _ = outcome at started ⊢
      obtain ⟨startTree, left⟩ := outcome
      rcases started with ⟨begun, same⟩ | failing
      · obtain rfl : left = _ := same
        simp only [expect_token]
        generalize loopClause limit fuel depth .semicolon _ = outcome at tested ⊢
        obtain ⟨testTree, left⟩ := outcome
        rcases tested with ⟨first, same⟩ | failing
        · obtain rfl : left = _ := same
          simp only [expect_token]
          generalize loopClause limit fuel depth .closeParen _ = outcome at stepped ⊢
          obtain ⟨stepTree, left⟩ := outcome
          rcases stepped with ⟨second, same⟩ | failing
          · obtain rfl : left = _ := same
            simp only [expect_token]
            rcases inner with ⟨meant, same⟩ | failing
            · exact .inl ⟨.forLoop begun first second meant, same⟩
            · exact .inr (fails_forLoop (.inr (.inr (.inr failing))))
          · right
            split <;> exact fails_forLoop (.inr (.inr (.inl failing)))
        · right
          split
          · exact fails_forLoop (.inr (.inl failing))
          · split <;> exact fails_forLoop (.inr (.inl failing))
      · right
        simp only
        split
        · exact fails_forLoop (.inl failing)
        · split
          · exact fails_forLoop (.inl failing)
          · split <;> exact fails_forLoop (.inl failing)

/-! ## Jumps -/

section

variable {text : List UInt8} {span : Span}

/-- Behind a `break` its statement ends. -/
theorem phrase_breakLoop (closes : Closes (fun _ => True) next closing) :
    ReadsPhrase next .breakLoop (⟨.kwBreak, text, span⟩ :: closing) := by
  refine readsPhrase_of_fuel fun limit fuel depth rest follows => ?_
  unfold statement
  simp only [TokenStream.behind_cons, TokenStream.peek, TokenStream.advance,
    closes.passed follows]
  exact .inl ⟨.breakLoop, trivial⟩

/-- And so it does behind a `continue`. -/
theorem phrase_continueLoop (closes : Closes (fun _ => True) next closing) :
    ReadsPhrase next .continueLoop (⟨.kwContinue, text, span⟩ :: closing) := by
  refine readsPhrase_of_fuel fun limit fuel depth rest follows => ?_
  unfold statement
  simp only [TokenStream.behind_cons, TokenStream.peek, TokenStream.advance,
    closes.passed follows]
  exact .inl ⟨.continueLoop, trivial⟩

theorem peek_of_nextKind? {tokens : TokenStream} {kind : TokenKind}
    (there : tokens.nextKind? = some kind) : ∃ token, tokens.peek = .ok token ∧ token.kind = kind := by
  cases tokens with
  | token head more => exact ⟨head, rfl, Option.some.inj there⟩
  | ended position => exact ⟨_, rfl, Option.some.inj there⟩
  | flawed error beyond => cases there

/-- A `return` sees at the next token that it has no value. -/
theorem phrase_returnNothing
    (closes : Closes (fun kind => kind = .closeCurly ∨ kind = .endOfInput) next closing) :
    ReadsPhrase next (.return_ none) (⟨.kwReturn, text, span⟩ :: closing) := by
  refine readsPhrase_of_fuel fun limit fuel depth rest follows => ?_
  have ends : ∃ token, (rest.behind closing).peek = .ok token ∧ endsReturn token.kind = true := by
    cases closes with
    | semicolon => exact ⟨_, rfl, rfl⟩
    | nothing _ last =>
        obtain ⟨token, seen, rfl⟩ := peek_of_nextKind? follows
        refine ⟨token, seen, ?_⟩
        rcases last with same | same <;> rw [same] <;> rfl
  have passed := closes.passed follows (.return_ none)
  rw [TokenStream.behind_cons]
  generalize rest.behind closing = stream at ends passed ⊢
  obtain ⟨token, seen, ends⟩ := ends
  unfold statement
  cases stream with
  | token head more | ended position =>
      cases seen
      simp only [TokenStream.peek, TokenStream.advance, ends, ↓reduceIte, passed]
      exact .inl ⟨.return_ .none, trivial⟩
  | flawed => cases seen

theorem phrase_return (spells : value.SpellsAt 0 tokens) (closes : Closes StopsTerm next closing) :
    ReadsPhrase next (.return_ (some value)) (⟨.kwReturn, text, span⟩ :: (tokens ++ closing)) := by
  refine readsPhrase_of_fuel fun limit fuel depth rest follows => ?_
  have inner := (reads_spellsAt spells).assign limit fuel depth _ (closes.stops follows)
  obtain ⟨token, more, rfl, starts⟩ := opensTerm_of_spellsAt spells
  have goesOn : endsReturn token.kind = false := by
    generalize token.kind = kind at starts
    cases kind with
    | semicolon | closeCurly | endOfInput => cases starts
    | _ => rfl
  unfold statement
  simp only [TokenStream.behind_cons, TokenStream.behind_append, TokenStream.peek,
    TokenStream.advance, goesOn, Bool.false_eq_true, ↓reduceIte] at inner ⊢
  generalize assign limit fuel depth _ = outcome at inner ⊢
  obtain ⟨tree, left⟩ := outcome
  rcases inner with ⟨denotes, same⟩ | failing
  · obtain rfl : left = _ := same
    simp only [closes.passed follows]
    exact .inl ⟨.return_ (.some denotes), trivial⟩
  · exact .inr (fails_optionalSemicolon (fails_return failing))

theorem phrase_empty : ReadsPhrase next (.block []) [⟨.semicolon, text, span⟩] := by
  refine readsPhrase_of_fuel fun limit fuel depth rest follows => ?_
  unfold statement
  exact .inl ⟨.block .nil, rfl⟩

end

/-! ## Statements in a row -/

/-- What was read before stays among the statements. -/
theorem fails_readStatements {inBlock : Bool} {read : List Stmt} {tree : Stmt} {tokens : TokenStream}
    (inside : tree ∈ read) (failing : Fails (stmt tree)) :
    Fails (stmts (statements limit fuel depth inBlock read tokens).1) := by
  induction fuel generalizing read tokens with
  | zero =>
      unfold statements
      exact fails_stmts List.mem_cons_self (fails_stmt_broken _)
  | succ fuel ih =>
      have kept : ∀ last : Stmt, tree ∈ (last :: read).reverse := fun last =>
        List.mem_reverse.mpr (List.mem_cons_of_mem _ inside)
      unfold statements
      cases tokens with
      | flawed error beyond => exact fails_stmts (kept _) failing
      | ended position =>
          simp only
          split
          · exact fails_stmts (kept _) failing
          · exact fails_stmts (List.mem_reverse.mpr inside) failing
      | token head more =>
          simp only
          split
          · exact fails_stmts (List.mem_reverse.mpr inside) failing
          · exact ih (List.mem_cons_of_mem _ inside)

/-- Phrases are read behind those before, up to where they end. -/
def ReadsPhrases (next : TokenKind) (phrases : List Phrase) (tokens : List Token) : Prop :=
  ∀ limit fuel depth read inBlock stream rest, Ends inBlock stream rest →
    stream.nextKind? = some next →
    let outcome := statements limit fuel depth inBlock read (stream.behind tokens)
    (∃ trees, DenotesAll phrases trees ∧ outcome = (read.reverse ++ trees, rest)) ∨
      Fails (stmts outcome.1)

/-- Without fuel no statements are read. -/
theorem spent_statements (limit depth : Nat) (inBlock : Bool) (read : List Stmt)
    (tokens : TokenStream) : Fails (stmts (statements limit 0 depth inBlock read tokens).1) := by
  unfold statements
  exact fails_stmts List.mem_cons_self (fails_stmt_broken _)

/-- Where the statements end none are read. -/
theorem all_nil : ReadsPhrases next [] [] := by
  intro limit fuel depth read inBlock stream rest ends follows
  cases fuel with
  | zero => exact .inr (spent_statements _ _ _ _ _)
  | succ fuel =>
      refine .inl ⟨[], .nil, ?_⟩
      rw [List.append_nil, TokenStream.behind_nil]
      unfold statements
      cases inBlock with
      | true =>
          obtain ⟨token, brace, rfl⟩ := ends
          simp only [brace, and_self, ↓reduceIte]
      | false =>
          obtain ⟨rfl, position, rfl⟩ := ends
          rfl

theorem nextKind?_firstKind (follows : rest.nextKind? = some next) (tokens : List Token) :
    (rest.behind tokens).nextKind? = some (firstKind tokens next) := by
  cases tokens with
  | nil => exact follows
  | cons token others => rfl

theorem all_cons {phrases : List Phrase} (reads : ReadsPhrase (firstKind more next) phrase tokens)
    (opens : ∃ token others, tokens = token :: others ∧ token.kind ≠ .closeCurly)
    (others : ReadsPhrases next phrases more) :
    ReadsPhrases next (phrase :: phrases) (tokens ++ more) := by
  intro limit fuel depth read inBlock stream rest ends follows
  cases fuel with
  | zero => exact .inr (spent_statements _ _ _ _ _)
  | succ fuel =>
      have inner := reads limit fuel depth _ (nextKind?_firstKind follows more)
      obtain ⟨token, tokens, rfl, noBrace⟩ := opens
      rw [TokenStream.behind_append]
      rw [TokenStream.behind_cons] at inner ⊢
      unfold statements
      simp only [noBrace, and_false, ↓reduceIte]
      generalize statement limit fuel depth _ = outcome at inner ⊢
      obtain ⟨tree, left⟩ := outcome
      rcases inner with ⟨denotes, same⟩ | failing
      · obtain rfl : left = _ := same
        rcases others limit fuel depth (tree :: read) inBlock stream rest ends follows with
          ⟨trees, all, same⟩ | failing
        · refine .inl ⟨tree :: trees, .cons denotes all, ?_⟩
          simp only [same, List.reverse_cons, List.append_assoc]
          rfl
        · exact .inr failing
      · exact .inr (fails_readStatements List.mem_cons_self failing)

/-- A block is read up to its closing brace. -/
theorem phrase_block {body : List Phrase} {text text' : List UInt8} {span span' : Span}
    (reads : ReadsPhrases .closeCurly body tokens) :
    ReadsPhrase next (.block body)
      (⟨.openCurly, text, span⟩ :: (tokens ++ [⟨.closeCurly, text', span'⟩])) := by
  refine readsPhrase_of_fuel fun limit fuel depth rest follows => ?_
  simp only [TokenStream.behind_cons, TokenStream.behind_append, TokenStream.behind_nil]
  unfold statement
  simp only [TokenStream.peek, TokenStream.advance]
  rcases reads limit fuel depth [] true (.token ⟨.closeCurly, text', span'⟩ rest) rest
    ⟨_, rfl, rfl⟩ rfl with ⟨trees, all, same⟩ | failing
  · rw [same]
    exact .inl ⟨.block all, rfl⟩
  · exact .inr (fails_block failing)

/-- No phrase starts with a closing brace. -/
theorem opens_of_spells (spells : phrase.Spells next tokens) :
    ∃ token others, tokens = token :: others ∧ token.kind ≠ .closeCurly := by
  cases spells with
  | evaluate value =>
      obtain ⟨token, others, rfl, starts⟩ := opensTerm_of_spellsAt value
      refine ⟨token, _, rfl, fun same => ?_⟩
      rw [same] at starts
      cases starts
  | _ => exact ⟨_, _, rfl, TokenKind.noConfusion⟩

theorem length_pos_of_spells (spells : phrase.Spells next tokens) : 0 < tokens.length := by
  obtain ⟨token, others, rfl, -⟩ := opens_of_spells spells
  exact Nat.succ_pos _

mutual

/-- Every spelled phrase is read back. -/
theorem reads_spells_phrase {next : TokenKind} {phrase : Phrase} {tokens : List Token}
    (spells : phrase.Spells next tokens) : ReadsPhrase next phrase tokens := by
  cases spells with
  | evaluate value noBlock closes => exact phrase_evaluate value noBlock closes
  | declare variables_ closes => exact phrase_declare variables_ closes
  | branch condition first noElse =>
      exact phrase_branch condition (reads_spells_phrase first) noElse
  | branchElse condition first second =>
      exact phrase_branchElse condition (reads_spells_phrase first) (reads_spells_phrase second)
  | whileLoop condition body => exact phrase_whileLoop condition (reads_spells_phrase body)
  | forLoop start test step body => exact phrase_forLoop start test step (reads_spells_phrase body)
  | breakLoop closes => exact phrase_breakLoop closes
  | continueLoop closes => exact phrase_continueLoop closes
  | returnNothing closes => exact phrase_returnNothing closes
  | return_ value closes => exact phrase_return value closes
  | empty => exact phrase_empty
  | block body => exact phrase_block (reads_spells_all body)
termination_by 2 * tokens.length
decreasing_by all_goals simp only [List.length_append, List.length_cons, List.length_nil]; omega

/-- And so are phrases in a row. -/
theorem reads_spells_all {next : TokenKind} {phrases : List Phrase} {tokens : List Token}
    (spells : SpellsAll next phrases tokens) : ReadsPhrases next phrases tokens := by
  cases spells with
  | nil => exact all_nil
  | cons first others =>
      have some := length_pos_of_spells first
      exact all_cons (reads_spells_phrase first) (opens_of_spells first) (reads_spells_all others)
termination_by 2 * tokens.length + 1
decreasing_by all_goals simp only [List.length_append]; omega

end

/-! ## Functions and units -/

theorem reads_names {names : List String} {text : List UInt8} {span : Span}
    (spells : SpellsNames names tokens) (read : List (String × Span)) (rest : TokenStream) :
    ∃ all, all.map (·.1) = names ∧
      params read ((TokenStream.token ⟨.closeParen, text, span⟩ rest).behind tokens) =
        (read.reverse ++ all, .ok rest) := by
  induction spells generalizing read with
  | @last name at_ =>
      refine ⟨[(Token.name ⟨.ident, name, at_⟩, at_)], rfl, ?_⟩
      rw [← List.reverse_cons]
      rfl
  | @more names name at_ text' span' tokens _ ih =>
      obtain ⟨all, same, reads⟩ := ih ((Token.name ⟨.ident, name, at_⟩, at_) :: read)
      refine ⟨(Token.name ⟨.ident, name, at_⟩, at_) :: all, congrArg _ same, ?_⟩
      change params (_ :: read)
        ((TokenStream.token ⟨.closeParen, text, span⟩ rest).behind tokens) = _
      rw [reads, List.reverse_cons, List.append_assoc]
      rfl

/-- A parameter list is read with its parentheses. -/
theorem reads_params {names : List String} (spells : SpellsParams names tokens) (rest : TokenStream) :
    ∃ all, all.map (·.1) = names ∧ paramList (rest.behind tokens) = (all, .ok rest) := by
  cases spells with
  | none => exact ⟨[], rfl, rfl⟩
  | @some _ text span text' span' tokens spells =>
      obtain ⟨all, same, reads⟩ := @reads_names _ _ text' span' spells [] rest
      refine ⟨all, same, ?_⟩
      simp only [TokenStream.behind_cons, TokenStream.behind_append, TokenStream.behind_nil]
      cases spells <;> exact reads

/-- The parameters and the body of a spelled function are read back. -/
theorem reads_function {names : List String} {body : List Phrase}
    (spells : SpellsFunction names body tokens) (limit fuel depth : Nat) (span : Span)
    (rest : TokenStream) :
    let outcome := Parser.definition limit fuel depth span (rest.behind tokens)
    (∃ params declared trees, outcome = (.mk span params declared trees, rest) ∧
      params.map (·.1) = names ∧ DenotesAll body trees) ∨ Fails (Compiling.definition outcome.1) := by
  cases spells with
  | @mk text span' text' span'' heading tokens named spells =>
      cases fuel with
      | zero =>
          unfold Parser.definition
          exact .inr (fails_definition (fails_stmts List.mem_cons_self (fails_stmt_broken _)))
      | succ fuel =>
          simp only [TokenStream.behind_cons, TokenStream.behind_append, TokenStream.behind_nil]
          obtain ⟨params, same, heads⟩ := reads_params named
            (.token ⟨.openCurly, text, span'⟩
              ((TokenStream.token ⟨.closeCurly, text', span''⟩ rest).behind tokens))
          unfold Parser.definition
          simp only [heads, expect_token]
          rcases reads_spells_all spells limit fuel depth [] true
            (.token ⟨.closeCurly, text', span''⟩ rest) rest ⟨_, rfl, rfl⟩ rfl with
            ⟨trees, all, read⟩ | failing
          · rw [read]
            exact .inl ⟨params, _, trees, rfl, same, all⟩
          · exact .inr (fails_definition failing)

theorem reads_unit {phrases : List Phrase} (spells : SpellsAll .endOfInput phrases tokens)
    (exprDepth : Nat) (position : Position) :
    let tree := UnitTree.ofTokens exprDepth ((TokenStream.ended position).behind tokens)
    DenotesAll phrases tree.body ∨ Fails (stmts tree.body) := by
  unfold UnitTree.ofTokens
  rcases reads_spells_all spells exprDepth
    (fuelFor ((TokenStream.ended position).behind tokens)) 0 [] false (.ended position)
    (.ended position) ⟨rfl, position, rfl⟩ rfl with ⟨trees, all, read⟩ | failing
  · simp only [read]
    exact .inl all
  · exact .inr failing

end Parser

end PocketScript
