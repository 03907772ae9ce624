import PocketScript.Proofs.Tree.Search
import PocketScript.Proofs.Tree.Texts

/-!
# The names found ahead are the declared names

The search for declared names counts brackets, while the statements of a function are read by the
grammar. Where reading succeeds both agree: the names that were found ahead are those that the
statements of the function declare, in the same order (`UnitTree.declared_ofTokens`), and this holds
for every function of the tree as well (`Definition.Agrees`).
-/

namespace PocketScript

/-! ## Trees -/

def Declarator.names : Declarator → List (String × Span)
  | .variable name span _ => [(name, span)]
  | .broken _ => []

def ForStart.names : ForStart → List (String × Span)
  | .declare declarators => declarators.flatMap Declarator.names
  | .nothing | .evaluate _ => []

mutual

/-- The names that a statement declares in its function, in the order of the text. -/
def Stmt.names : Stmt → List (String × Span)
  | .declare declarators => declarators.flatMap Declarator.names
  | .define name span _ => [(name, span)]
  | .branch _ whenTrue whenFalse => whenTrue.names ++ Stmt.namesIfAny whenFalse
  | .whileLoop _ body => body.names
  | .forLoop start _ _ body => start.names ++ body.names
  | .block body => Stmt.namesOfAll body
  | .expression _ | .breakLoop _ | .continueLoop _ | .return_ _ | .broken _ => []

def Stmt.namesIfAny : Option Stmt → List (String × Span)
  | none => []
  | some stmt => stmt.names

def Stmt.namesOfAll : List Stmt → List (String × Span)
  | [] => []
  | first :: rest => first.names ++ Stmt.namesOfAll rest

end

mutual

/-- The functions in an expression, also those inside other functions. -/
def Expr.definitions : Expr → List Definition
  | .literal _ | .number _ _ | .string _ _ | .name _ _ | .broken _ => []
  | .unary _ operand => operand.definitions
  | .binary _ left right => left.definitions ++ right.definitions
  | .logical _ left right => left.definitions ++ right.definitions
  | .conditional condition whenTrue whenFalse =>
      condition.definitions ++ (whenTrue.definitions ++ whenFalse.definitions)
  | .assignName _ _ _ value => value.definitions
  | .assignElement container key _ value =>
      container.definitions ++ (key.definitions ++ value.definitions)
  | .element container key => container.definitions ++ key.definitions
  | .call callee args _ => callee.definitions ++ Expr.definitionsOfAll args
  | .array elements _ => Expr.definitionsOfAll elements
  | .object entries _ => Entry.definitionsOfAll entries
  | .function definition => definition.definitions

def Expr.definitionsOfAll : List Expr → List Definition
  | [] => []
  | first :: rest => first.definitions ++ Expr.definitionsOfAll rest

def Expr.definitionsIfAny : Option Expr → List Definition
  | none => []
  | some value => value.definitions

def Entry.definitions : Entry → List Definition
  | .property _ _ value => value.definitions
  | .broken _ => []

def Entry.definitionsOfAll : List Entry → List Definition
  | [] => []
  | first :: rest => first.definitions ++ Entry.definitionsOfAll rest

/-- A function with those inside. -/
def Definition.definitions : Definition → List Definition
  | .mk span params declared body => .mk span params declared body :: Stmt.definitionsOfAll body

def Declarator.definitions : Declarator → List Definition
  | .variable _ _ value => Expr.definitionsIfAny value
  | .broken _ => []

def Declarator.definitionsOfAll : List Declarator → List Definition
  | [] => []
  | first :: rest => first.definitions ++ Declarator.definitionsOfAll rest

def ForStart.definitions : ForStart → List Definition
  | .nothing => []
  | .declare declarators => Declarator.definitionsOfAll declarators
  | .evaluate value => value.definitions

/-- The functions in a statement, also those inside other functions. -/
def Stmt.definitions : Stmt → List Definition
  | .expression value => value.definitions
  | .declare declarators => Declarator.definitionsOfAll declarators
  | .define _ _ definition => definition.definitions
  | .branch condition whenTrue whenFalse =>
      condition.definitions ++ (whenTrue.definitions ++ Stmt.definitionsIfAny whenFalse)
  | .whileLoop condition body => condition.definitions ++ body.definitions
  | .forLoop start condition step body =>
      start.definitions ++
        (Expr.definitionsIfAny condition ++ (Expr.definitionsIfAny step ++ body.definitions))
  | .breakLoop _ | .continueLoop _ | .broken _ => []
  | .return_ value => Expr.definitionsIfAny value
  | .block body => Stmt.definitionsOfAll body

def Stmt.definitionsIfAny : Option Stmt → List Definition
  | none => []
  | some stmt => stmt.definitions

def Stmt.definitionsOfAll : List Stmt → List Definition
  | [] => []
  | first :: rest => first.definitions ++ Stmt.definitionsOfAll rest

end

/-- The names that were found ahead in a function are those that its own statements declare. -/
def Definition.Agrees : Definition → Prop
  | .mk _ _ declared body => declared = Stmt.namesOfAll body

/-- The names found ahead are right in some functions. -/
def Agree (definitions : List Definition) : Prop := ∀ definition ∈ definitions, definition.Agrees

theorem agree_nil : Agree [] := fun _ member => absurd member List.not_mem_nil

theorem agree_append {one two : List Definition} : Agree (one ++ two) ↔ Agree one ∧ Agree two :=
  List.forall_mem_append

theorem Expr.agree_definitionsOfAll {exprs : List Expr} :
    Agree (Expr.definitionsOfAll exprs) ↔ ∀ expr ∈ exprs, Agree expr.definitions := by
  induction exprs with
  | nil => exact iff_of_true agree_nil fun _ member => absurd member List.not_mem_nil
  | cons first rest ih =>
      rw [Expr.definitionsOfAll, agree_append, ih, List.forall_mem_cons]

theorem Entry.agree_definitionsOfAll {entries : List Entry} :
    Agree (Entry.definitionsOfAll entries) ↔ ∀ entry ∈ entries, Agree entry.definitions := by
  induction entries with
  | nil => exact iff_of_true agree_nil fun _ member => absurd member List.not_mem_nil
  | cons first rest ih =>
      rw [Entry.definitionsOfAll, agree_append, ih, List.forall_mem_cons]

/-- The functions in an access. -/
def Access.definitions : Access → List Definition
  | value expr => expr.definitions
  | name _ _ => []
  | element container key => container.definitions ++ key.definitions

theorem Access.definitions_read (access : Access) : access.read.definitions = access.definitions := by
  cases access <;> rfl

theorem Access.settle_eq_read {access : Access} {tokens : TokenStream} (clear : tokens.Clear) :
    access.settle tokens = access.read := by
  cases tokens with
  | token head rest => rfl
  | ended position => rfl
  | flawed error beyond => exact absurd clear id

/-! ## Reading -/

namespace Parser

open Declarations

variable {α : Type} {tokens rest : TokenStream} {token : Token}

/-- A wanted token that is taken stands at the front. -/
theorem expect_eq_ok {wanted : TokenKind} (found : expect wanted tokens = .ok (token, rest))
    (real : wanted ≠ .endOfInput) : tokens = .token token rest ∧ token.kind = wanted := by
  unfold expect at found
  cases tokens with
  | token head beyond =>
      change (if head.kind = wanted then _ else _) = _ at found
      split at found
      · rename_i kind
        cases found
        exact ⟨rfl, kind⟩
      · cases found
  | ended position =>
      change (if TokenKind.endOfInput = wanted then _ else _) = _ at found
      split at found
      · rename_i same
        exact absurd same.symm real
      · cases found
  | flawed error beyond => cases found

/-- And so does one whose kind is seen ahead. -/
theorem eq_token_of_nextKind? {kind : TokenKind} (next : tokens.nextKind? = some kind)
    (real : kind ≠ .endOfInput) :
    ∃ token, token.kind = kind ∧ tokens = .token token tokens.advance := by
  cases tokens with
  | token head rest => exact ⟨head, Option.some.inj next, rfl⟩
  | ended position => exact absurd (Option.some.inj next).symm real
  | flawed error beyond => cases next

/-- The search passes over some tokens. -/
def Passes (tokens rest : TokenStream) : Prop :=
  ∀ inBody state, state.Settled inBody → search inBody state tokens = search inBody state rest

/-- The search finds some names in some tokens. -/
def Finds (names : List (String × Span)) (tokens rest : TokenStream) : Prop :=
  ∀ inBody state, state.Settled inBody → ∃ after, after.Settled inBody ∧ state.Follows names after ∧
    search inBody state tokens = search inBody after rest

theorem Passes.finds (passes : Passes tokens rest) : Finds [] tokens rest :=
  fun inBody state settled => ⟨state, settled, .refl _, passes inBody state settled⟩

theorem Finds.trans {names more : List (String × Span)} {between : TokenStream}
    (first : Finds names tokens between) (second : Finds more between rest) :
    Finds (names ++ more) tokens rest := by
  intro inBody state settled
  obtain ⟨middle, settled', follows, same⟩ := first inBody state settled
  obtain ⟨after, settled'', follows', same'⟩ := second inBody middle settled'
  exact ⟨after, settled'', follows.trans follows', same.trans same'⟩

/-- What stands between brackets declares its names. -/
theorem finds_enclosed {names : List (String × Span)} {first last : Token}
    (closes : first.kind.Closes last.kind) (inside : Finds names tokens (.token last rest)) :
    Finds names (.token first tokens) rest := by
  intro inBody state settled
  obtain ⟨after, settled', follows, same⟩ := inside inBody _ (settled.enter closes)
  obtain ⟨left, leaves⟩ := follows.leave settled settled'.quiet closes
  refine ⟨_, leaves, left, ?_⟩
  rw [search_opening settled.toCalm closes rfl, same]
  exact search_closing settled'.toCalm closes rfl fun inside _ => leaves.body inside

theorem finds_endsDeclarators (ends : token.kind.EndsDeclarators = true) :
    Finds [] (.token token rest) rest :=
  fun _ _ settled => search_endsDeclarators settled ends

/-- Where an expression was read, the search passes over its tokens, and it was right about the
functions inside. -/
def Scans (definitions : α → List Definition) (tokens : TokenStream) (read : α × TokenStream) :
    Prop :=
  read.2.Clear → tokens.Clear ∧ Agree (definitions read.1) ∧ Passes tokens read.2

/-- The same for an expression that goes on with what was read before. -/
def ScansBehind (before : List Definition) (tokens : TokenStream) (read : Access × TokenStream) :
    Prop :=
  read.2.Clear → tokens.Clear ∧ (Agree before → Agree read.1.definitions) ∧ Passes tokens read.2

/-- The same for what stands between a bracket that was read before and the closing one. -/
def ScansInside (before : Prop) (definitions : α → List Definition) (opening : TokenKind)
    (tokens : TokenStream) (read : α × TokenStream) : Prop :=
  read.2.Clear → tokens.Clear ∧ (before → Agree (definitions read.1)) ∧ ∀ inBody (state : Search),
    state.Settled inBody →
      search inBody (state.countBracket opening) tokens = search inBody state read.2

/-- The stream at which the search is when statements have been read up to the end of their block,
or of the text. -/
def Ends (inBlock : Bool) (ending rest : TokenStream) : Prop :=
  match inBlock with
  | true => ∃ token, token.kind = .closeCurly ∧ ending = .token token rest
  | false => ending = rest ∧ ∃ position, rest = .ended position

/-- The same for a statement: the search finds its names. -/
def ScansStmt (tokens : TokenStream) (read : Stmt × TokenStream) : Prop :=
  read.2.Clear → tokens.Clear ∧ Agree read.1.definitions ∧ Finds read.1.names tokens read.2

/-- The same for statements behind others. -/
def ScansStmts (inBlock : Bool) (others : List Stmt) (tokens : TokenStream)
    (read : List Stmt × TokenStream) : Prop :=
  read.2.Clear → ∃ stmts ending, read.1 = others.reverse ++ stmts ∧ Ends inBlock ending read.2 ∧
    tokens.Clear ∧ Agree (Stmt.definitionsOfAll stmts) ∧ Finds (Stmt.namesOfAll stmts) tokens ending

/-- The same for declarators behind others. -/
def ScansDeclarators (others : List Declarator) (tokens : TokenStream)
    (read : List Declarator × TokenStream) : Prop :=
  read.2.Clear → ∃ declarators, read.1 = others.reverse ++ declarators ∧ tokens.Clear ∧
    Agree (Declarator.definitionsOfAll declarators) ∧ ∀ inBody (state : Search),
      state.Settled inBody → search inBody state.awaiting tokens =
        search inBody (state.noting (declarators.flatMap Declarator.names)) read.2

/-- With so much fuel, the search agrees with what is read. -/
structure ScansAll (exprDepth fuel : Nat) : Prop where
  assign : ∀ depth tokens, Scans Expr.definitions tokens (Parser.assign exprDepth fuel depth tokens)
  ternary : ∀ depth tokens,
    Scans Access.definitions tokens (Parser.ternary exprDepth fuel depth tokens)
  infixes : ∀ depth level tokens,
    Scans Access.definitions tokens (Parser.infixes exprDepth fuel depth level tokens)
  moreInfixes : ∀ depth level left tokens, ScansBehind left.definitions tokens
    (Parser.moreInfixes exprDepth fuel depth level left tokens)
  unary : ∀ depth tokens, Scans Access.definitions tokens (Parser.unary exprDepth fuel depth tokens)
  postfixes : ∀ depth tokens,
    Scans Access.definitions tokens (Parser.postfixes exprDepth fuel depth tokens)
  morePostfixes : ∀ depth subject tokens, ScansBehind subject.definitions tokens
    (Parser.morePostfixes exprDepth fuel depth subject tokens)
  exprList : ∀ depth opening closing trailing read tokens, opening.Closes closing →
    ScansInside (∀ expr ∈ read, Agree expr.definitions) Expr.definitionsOfAll opening tokens
      (Parser.exprList exprDepth fuel depth closing trailing read tokens)
  entries : ∀ depth read tokens,
    ScansInside (∀ entry ∈ read, Agree entry.definitions) Entry.definitionsOfAll .openCurly tokens
      (Parser.entries exprDepth fuel depth read tokens)
  primary : ∀ depth tokens,
    Scans Access.definitions tokens (Parser.primary exprDepth fuel depth tokens)
  definition : ∀ depth span tokens, (Parser.definition exprDepth fuel depth span tokens).2.Clear →
    tokens.nextKind? = some .openParen ∧
      Agree (Parser.definition exprDepth fuel depth span tokens).1.definitions ∧
        ∀ inBody state, state.Settled inBody → search inBody state.passing tokens =
          search inBody state (Parser.definition exprDepth fuel depth span tokens).2
  statements : ∀ depth inBlock read tokens,
    ScansStmts inBlock read tokens (Parser.statements exprDepth fuel depth inBlock read tokens)
  declarators : ∀ depth read tokens,
    ScansDeclarators read tokens (Parser.declarators exprDepth fuel depth read tokens)
  condition : ∀ depth tokens rest, (Parser.condition exprDepth fuel depth tokens).2 = .ok rest →
    Scans Expr.definitions tokens ((Parser.condition exprDepth fuel depth tokens).1, rest)
  statement : ∀ depth tokens, ScansStmt tokens (Parser.statement exprDepth fuel depth tokens)
  forLoop : ∀ depth tokens, ScansStmt tokens (Parser.forLoop exprDepth fuel depth tokens)

variable {exprDepth fuel : Nat}

theorem scansAll_zero : ScansAll exprDepth 0 where
  assign _ _ := by rw [Parser.assign]; exact False.elim
  ternary _ _ := by rw [Parser.ternary]; exact False.elim
  infixes _ _ _ := by rw [Parser.infixes]; exact False.elim
  moreInfixes _ _ _ _ := by rw [Parser.moreInfixes]; exact False.elim
  unary _ _ := by rw [Parser.unary]; exact False.elim
  postfixes _ _ := by rw [Parser.postfixes]; exact False.elim
  morePostfixes _ _ _ := by rw [Parser.morePostfixes]; exact False.elim
  exprList _ _ _ _ _ _ _ := by rw [Parser.exprList]; exact False.elim
  entries _ _ _ := by rw [Parser.entries]; exact False.elim
  primary _ _ := by rw [Parser.primary]; exact False.elim
  definition _ _ _ := by rw [Parser.definition]; exact False.elim
  statements _ _ _ _ := by rw [Parser.statements]; exact False.elim
  declarators _ _ _ := by rw [Parser.declarators]; exact False.elim
  condition _ _ _ := by rw [Parser.condition]; exact fun impossible => by cases impossible
  statement _ _ := by rw [Parser.statement]; exact False.elim
  forLoop _ _ := by rw [Parser.forLoop]; exact False.elim

/-! Tokens between the parts of a program. -/

/-- A plain token is passed over. -/
theorem passes_plain (plain : token.kind.IsPlain = true) : Passes (.token token rest) rest :=
  fun _ _ settled => search_plain settled.toCalm plain

theorem Passes.trans {between : TokenStream} (first : Passes tokens between)
    (second : Passes between rest) : Passes tokens rest := fun inBody state settled =>
  (first inBody state settled).trans (second inBody state settled)

theorem passes_plain_cons (plain : token.kind.IsPlain = true) (passes : Passes tokens rest) :
    Passes (.token token tokens) rest := (passes_plain plain).trans passes

/-- Infix operators are plain tokens. -/
theorem isPlain_of_infixAt? {level : Nat} {kind : TokenKind} {op : Infix}
    (found : infixAt? level kind = some op) : kind.IsPlain = true := by
  unfold infixAt? at found
  split at found <;> first | rfl | cases found

/-- And so are prefix operators. -/
theorem isPlain_of_unaryOp? {kind : TokenKind} {op : UnaryOp} (found : unaryOp? kind = some op) :
    kind.IsPlain = true := by
  unfold unaryOp? at found
  split at found <;> first | rfl | cases found

/-- And assignment operators. -/
theorem isPlain_of_assignment? {kind : TokenKind} {op : Option BinaryOp}
    (found : assignment? kind = some op) : kind.IsPlain = true := by
  unfold assignment? at found
  split at found <;> first | rfl | cases found

/-- A property key is one plain token. -/
theorem propertyKey_eq_ok {key : String} {span : Span}
    (found : entries.propertyKey tokens = .ok (key, span, rest)) :
    ∃ token, token.kind.IsPlain = true ∧ tokens = .token token rest := by
  unfold entries.propertyKey at found
  cases tokens with
  | token head beyond =>
      simp only [TokenStream.peek, bind, Except.bind] at found
      split at found
      · rename_i kind
        cases found
        exact ⟨head, by rw [kind]; rfl, rfl⟩
      · rename_i kind
        cases found
        exact ⟨head, by rw [kind]; rfl, rfl⟩
      · rename_i kind
        cases value : Literal.string head with
        | error error =>
            rw [value] at found
            cases found
        | ok text =>
            rw [value] at found
            cases found
            exact ⟨head, by rw [kind]; rfl, rfl⟩
      · cases found
  | ended position => cases found
  | flawed error beyond => cases found

/-- The search passes over the parameters of a function that it passes over. -/
theorem search_params {read : List (String × Span)} {inBody : Bool} {state : Search}
    (calm : state.Calm) (passing : state.innerBody.isSome)
    (found : (params read tokens).2 = .ok rest) :
    search inBody (state.countBracket .openParen) tokens = search inBody state rest := by
  obtain ⟨calm', -⟩ := calm.enter .paren
  have last {tokens : TokenStream} (found : (expect .closeParen tokens).map (·.2) = .ok rest) :
      search inBody (state.countBracket .openParen) tokens = search inBody state rest := by
    cases taken : expect .closeParen tokens with
    | error error =>
        rw [taken] at found
        cases found
    | ok pair =>
        rw [taken] at found
        cases found
        obtain ⟨rfl, kind⟩ := expect_eq_ok taken (by decide)
        rw [search_closing calm' .paren kind fun _ same => absurd same (by decide), calm.leave_paren]
  fun_induction params read tokens with
  | case1 read token ident read' _ _ rest' ih =>
      rw [search_plain calm' (by rw [ident]; rfl), search_comma calm' rfl (.inl passing)]
      exact ih found
  | case2 read token ident read' rest' other =>
      rw [search_plain calm' (by rw [ident]; rfl)]
      exact last found
  | case3 => cases found
  | case4 read tokens other =>
      cases taken : expect .ident tokens with
      | error error =>
          rw [taken] at found
          cases found
      | ok pair => exact absurd (expect_eq_ok taken (by decide)).1 (other _ _)

theorem search_paramList (inBody : Bool) {state : Search} (calm : state.Calm)
    (passing : state.innerBody.isSome) (found : (paramList tokens).2 = .ok rest) :
    tokens.nextKind? = some .openParen ∧
      search inBody state tokens = search inBody state rest := by
  unfold paramList at found
  split at found
  · cases found
  · rename_i token behind taken
    obtain ⟨rfl, kind⟩ := expect_eq_ok taken (by decide)
    refine ⟨congrArg some kind, ?_⟩
    rw [search_opening calm .paren kind]
    split at found
    · cases found
      rw [search_closing (calm.enter .paren).1 .paren rfl fun _ same => absurd same (by decide), calm.leave_paren]
    · exact search_params calm passing found

/-- The search finds the names that stand between the braces of a body. -/
theorem ofBody_eq {names : List (String × Span)} {first last : Token}
    (opens : first.kind = .openCurly) (closes : last.kind = .closeCurly)
    (finds : Finds names tokens (.token last rest)) :
    ofBody (.token first tokens) = names := by
  have calm : Search.Calm {} := ⟨rfl, nofun⟩
  have settled : (Search.countBracket {} .openCurly).Settled true :=
    ⟨(calm.enter .curly).1, nofun, fun _ => Int.zero_lt_one⟩
  obtain ⟨after, settled', follows, same⟩ := finds true _ settled
  rw [ofBody, search_opening calm .curly opens, same,
    search_ending settled'.toCalm closes follows.braces, follows.found rfl]
  exact (congrArg List.reverse (List.append_nil _)).trans (List.reverse_reverse _)

/-- A semicolon behind a statement is passed over. -/
theorem scans_optionalSemicolon {stmt : Stmt} {behind : TokenStream}
    (scans : ScansStmt tokens (stmt, behind)) :
    ScansStmt tokens (optionalSemicolon stmt behind) := by
  unfold optionalSemicolon
  split
  · exact False.elim
  · obtain ⟨clear, agree, finds⟩ := scans trivial
    refine fun _ => ⟨clear, agree, ?_⟩
    have passed := finds.trans (finds_endsDeclarators rfl)
    rw [List.append_nil] at passed
    exact passed
  · exact scans

section

variable (ih : ScansAll exprDepth fuel) {depth : Nat}

include ih

/-- The search passes over an assignment. -/
theorem scans_assign : Scans Expr.definitions tokens (assign exprDepth (fuel + 1) depth tokens) := by
  rw [assign]
  dsimp only
  split
  · exact False.elim
  · have target := ih.ternary (depth + 1) tokens
    generalize ternary exprDepth fuel (depth + 1) tokens = read at target
    obtain ⟨access, rest⟩ := read
    dsimp only at target ⊢
    split
    · rename_i operator rest
      split
      · intro clear
        rw [Access.definitions_read]
        exact target clear
      · rename_i op found
        have value := ih.assign (depth + 1) rest
        have plain := isPlain_of_assignment? found
        obtain ⟨clear, agree, passes⟩ := target trivial
        cases access with
        | value expr => exact False.elim
        | name name span =>
            intro behind
            obtain ⟨-, agree', passes'⟩ := value behind
            exact ⟨clear, agree', passes.trans (passes_plain_cons plain passes')⟩
        | element container key =>
            intro behind
            obtain ⟨-, agree', passes'⟩ := value behind
            obtain ⟨first, second⟩ := agree_append.mp agree
            exact ⟨clear, agree_append.mpr ⟨first, agree_append.mpr ⟨second, agree'⟩⟩,
              passes.trans (passes_plain_cons plain passes')⟩
    · intro clear
      dsimp only at clear ⊢
      rw [Access.settle_eq_read clear, Access.definitions_read]
      exact target clear

/-- It passes over a conditional. -/
theorem scans_ternary :
    Scans Access.definitions tokens (ternary exprDepth (fuel + 1) depth tokens) := by
  rw [ternary]
  have condition := ih.infixes depth 0 tokens
  generalize infixes exprDepth fuel depth 0 tokens = read at condition
  obtain ⟨access, rest⟩ := read
  dsimp only at condition ⊢
  split
  · rename_i question rest
    have first := ih.assign depth rest
    generalize assign exprDepth fuel depth rest = read at first
    obtain ⟨whenTrue, behind⟩ := read
    obtain ⟨clear, agree, passes⟩ := condition trivial
    dsimp only at first ⊢
    split
    · exact False.elim
    · rename_i colon between found
      obtain ⟨rfl, kind⟩ := expect_eq_ok found (by decide)
      obtain ⟨-, agree', passes'⟩ := first trivial
      intro last
      obtain ⟨-, agree'', passes''⟩ := ih.assign depth between last
      refine ⟨clear, agree_append.mpr ⟨?_, agree_append.mpr ⟨agree', agree''⟩⟩,
        passes.trans (passes_plain_cons rfl
          (passes'.trans (passes_plain_cons (by rw [kind]; rfl) passes'')))⟩
      rw [Access.definitions_read]
      exact agree
  · exact condition

/-- And over the operands of a level. -/
theorem scans_infixes (level : Nat) :
    Scans Access.definitions tokens (infixes exprDepth (fuel + 1) depth level tokens) := by
  rw [infixes]
  split
  · exact ih.unary depth tokens
  · intro clear
    obtain ⟨between, agree, passes⟩ := ih.moreInfixes depth level _ _ clear
    obtain ⟨first, agree', passes'⟩ := ih.infixes depth (level + 1) tokens between
    exact ⟨first, agree agree', passes'.trans passes⟩

/-- Further operands are passed over one by one. -/
theorem scans_moreInfixes (level : Nat) {left : Access} :
    ScansBehind left.definitions tokens
      (moreInfixes exprDepth (fuel + 1) depth level left tokens) := by
  unfold moreInfixes
  dsimp only
  split
  · rename_i operator rest
    split
    · exact fun clear => ⟨clear, id, fun _ _ _ => rfl⟩
    · rename_i op found
      intro clear
      obtain ⟨between, agree, passes⟩ := ih.moreInfixes depth level _ _ clear
      obtain ⟨-, agree', passes'⟩ := ih.infixes depth (level + 1) rest between
      refine ⟨trivial, fun before => agree ?_,
        passes_plain_cons (isPlain_of_infixAt? found) (passes'.trans passes)⟩
      rw [Access.settle_eq_read between]
      rw [← Access.definitions_read] at before agree'
      cases op <;> exact agree_append.mpr ⟨before, agree'⟩
  · exact fun clear => ⟨clear, id, fun _ _ _ => rfl⟩

/-- A prefix is passed over with its operand. -/
theorem scans_unary :
    Scans Access.definitions tokens (unary exprDepth (fuel + 1) depth tokens) := by
  unfold unary
  dsimp only
  split
  · rename_i operator rest
    split
    · exact ih.postfixes depth _
    · rename_i op found
      split
      · exact False.elim
      · intro clear
        obtain ⟨-, agree, passes⟩ := ih.unary (depth + 1) rest clear
        refine ⟨trivial, ?_, passes_plain_cons (isPlain_of_unaryOp? found) passes⟩
        dsimp only
        rw [Access.settle_eq_read clear]
        rw [← Access.definitions_read] at agree
        exact agree
  · exact ih.postfixes depth _

theorem scans_postfixes :
    Scans Access.definitions tokens (postfixes exprDepth (fuel + 1) depth tokens) := by
  rw [postfixes]
  intro clear
  obtain ⟨between, agree, passes⟩ := ih.morePostfixes depth _ _ clear
  obtain ⟨first, agree', passes'⟩ := ih.primary depth tokens between
  exact ⟨first, agree agree', passes'.trans passes⟩

/-- Calls and accesses are passed over, their brackets being counted. -/
theorem scans_morePostfixes {subject : Access} :
    ScansBehind subject.definitions tokens
      (morePostfixes exprDepth (fuel + 1) depth subject tokens) := by
  unfold morePostfixes
  dsimp only
  split
  · rename_i rest
    intro clear
    obtain ⟨between, agree, passes⟩ := ih.morePostfixes depth _ _ clear
    obtain ⟨-, agree', inside⟩ :=
      ih.exprList depth .openParen .closeParen false [] rest .paren between
    refine ⟨trivial, fun before => agree (agree_append.mpr ⟨?_, agree' (List.forall_mem_nil _)⟩),
      fun inBody state settled => ?_⟩
    · rw [Access.definitions_read]
      exact before
    · rw [search_opening settled.toCalm .paren rfl, inside inBody state settled]
      exact passes inBody state settled
  · rename_i rest
    have key := ih.assign depth rest
    generalize assign exprDepth fuel depth rest = read at key
    obtain ⟨expr, behind⟩ := read
    dsimp only at key ⊢
    split
    · exact False.elim
    · rename_i closing between found
      obtain ⟨rfl, kind⟩ := expect_eq_ok found (by decide)
      obtain ⟨-, agree, passes⟩ := key trivial
      intro clear
      obtain ⟨-, agree', passes'⟩ := ih.morePostfixes depth _ _ clear
      refine ⟨trivial, fun before => agree' (agree_append.mpr ⟨?_, agree⟩),
        fun inBody state settled => ?_⟩
      · rw [Access.definitions_read]
        exact before
      · rw [search_opening settled.toCalm .square rfl, passes inBody _ (settled.enter .square),
          search_enclosed settled .square kind]
        exact passes' inBody state settled
  · rename_i rest
    split
    · exact False.elim
    · rename_i ident between found
      obtain ⟨rfl, kind⟩ := expect_eq_ok found (by decide)
      intro clear
      obtain ⟨-, agree, passes⟩ := ih.morePostfixes depth _ _ clear
      refine ⟨trivial, fun before => agree (agree_append.mpr ⟨?_, agree_nil⟩),
        passes_plain_cons rfl (passes_plain_cons (by rw [kind]; rfl) passes)⟩
      rw [Access.definitions_read]
      exact before
  · exact fun clear => ⟨clear, id, fun _ _ _ => rfl⟩

/-- So is what stands between brackets, as they are closed again. -/
theorem scans_exprList {opening closing : TokenKind} (closes : opening.Closes closing)
    (trailing : Bool) {read : List Expr} :
    ScansInside (∀ expr ∈ read, Agree expr.definitions) Expr.definitionsOfAll opening tokens
      (exprList exprDepth (fuel + 1) depth closing trailing read tokens) := by
  have real : closing ≠ .endOfInput := by cases closes <;> nofun
  have reversed {read : List Expr} (agree : ∀ expr ∈ read, Agree expr.definitions) :
      Agree (Expr.definitionsOfAll read.reverse) :=
    Expr.agree_definitionsOfAll.mpr fun expr member => agree expr (List.mem_reverse.mp member)
  rw [exprList]
  split
  · rename_i ends
    obtain ⟨token, kind, same⟩ := eq_token_of_nextKind? ends.1 real
    rw [same]
    exact fun _ => ⟨trivial, reversed, fun _ _ settled => search_enclosed settled closes kind⟩
  · have next := ih.assign depth tokens
    generalize assign exprDepth fuel depth tokens = item at next
    obtain ⟨expr, behind⟩ := item
    dsimp only at next ⊢
    split
    · rename_i rest
      obtain ⟨clear, agree, passes⟩ := next trivial
      intro last
      obtain ⟨-, agree', inside⟩ := ih.exprList depth opening closing trailing _ rest closes last
      refine ⟨clear, fun before => agree' (List.forall_mem_cons.mpr ⟨agree, before⟩),
        fun inBody state settled => ?_⟩
      obtain ⟨calm, among⟩ := settled.toCalm.enter closes
      rw [passes inBody _ (settled.enter closes), search_comma calm rfl (.inr among)]
      exact inside inBody state settled
    · split
      · exact False.elim
      · rename_i token between found
        obtain ⟨rfl, kind⟩ := expect_eq_ok found real
        obtain ⟨clear, agree, passes⟩ := next trivial
        refine fun _ => ⟨clear, fun before => reversed (List.forall_mem_cons.mpr ⟨agree, before⟩),
          fun inBody state settled => ?_⟩
        rw [passes inBody _ (settled.enter closes)]
        exact search_enclosed settled closes kind

/-- And the properties of an object in their braces. -/
theorem scans_entries {read : List Entry} :
    ScansInside (∀ entry ∈ read, Agree entry.definitions) Entry.definitionsOfAll .openCurly tokens
      (entries exprDepth (fuel + 1) depth read tokens) := by
  have reversed {read : List Entry} (agree : ∀ entry ∈ read, Agree entry.definitions) :
      Agree (Entry.definitionsOfAll read.reverse) :=
    Entry.agree_definitionsOfAll.mpr fun entry member => agree entry (List.mem_reverse.mp member)
  rw [entries]
  split
  · rename_i ends
    obtain ⟨token, kind, same⟩ := eq_token_of_nextKind? ends (by decide)
    rw [same]
    exact fun _ => ⟨trivial, reversed, fun _ _ settled => search_enclosed settled .curly kind⟩
  · split
    · exact False.elim
    · rename_i key span rest found
      obtain ⟨name, plain, rfl⟩ := propertyKey_eq_ok found
      split
      · exact False.elim
      · rename_i colon rest found
        obtain ⟨rfl, kind⟩ := expect_eq_ok found (by decide)
        have next := ih.assign depth rest
        generalize assign exprDepth fuel depth rest = item at next
        obtain ⟨expr, behind⟩ := item
        dsimp only at next ⊢
        have passed {between : TokenStream} (passes : Passes rest between) :
            Passes (.token name (.token colon rest)) between :=
          passes_plain_cons plain (passes_plain_cons (by rw [kind]; rfl) passes)
        split
        · rename_i rest
          obtain ⟨-, agree, passes⟩ := next trivial
          intro last
          obtain ⟨-, agree', inside⟩ := ih.entries depth _ rest last
          refine ⟨trivial, fun before => agree' (List.forall_mem_cons.mpr ⟨agree, before⟩),
            fun inBody state settled => ?_⟩
          obtain ⟨calm, among⟩ := settled.toCalm.enter .curly
          rw [passed passes inBody _ (settled.enter .curly), search_comma calm rfl (.inr among)]
          exact inside inBody state settled
        · split
          · exact False.elim
          · rename_i token between found
            obtain ⟨rfl, kind⟩ := expect_eq_ok found (by decide)
            obtain ⟨-, agree, passes⟩ := next trivial
            refine fun _ => ⟨trivial,
              fun before => reversed (List.forall_mem_cons.mpr ⟨agree, before⟩),
              fun inBody state settled => ?_⟩
            rw [passed passes inBody _ (settled.enter .curly)]
            exact search_enclosed settled .curly kind

/-- Primary expressions are passed over, functions among them. -/
theorem scans_primary :
    Scans Access.definitions tokens (primary exprDepth (fuel + 1) depth tokens) := by
  rw [primary]
  cases tokens with
  | flawed error beyond => exact False.elim
  | ended position => exact False.elim
  | token head rest =>
      obtain ⟨kind, text, span⟩ := head
      have leaf {access : Access} (none : access.definitions = []) (plain : kind.IsPlain = true) :
          Scans Access.definitions (.token ⟨kind, text, span⟩ rest) (access, rest) :=
        fun _ => ⟨trivial, none ▸ agree_nil, passes_plain plain⟩
      dsimp only [TokenStream.peek, TokenStream.advance]
      split
      · split
        · exact False.elim
        · exact leaf rfl rfl
      · split
        · exact False.elim
        · exact leaf rfl rfl
      · exact leaf rfl rfl
      · exact leaf rfl rfl
      · exact leaf rfl rfl
      · exact leaf rfl rfl
      · exact leaf rfl rfl
      · have inner := ih.assign depth rest
        generalize assign exprDepth fuel depth rest = read at inner
        obtain ⟨expr, behind⟩ := read
        dsimp only at inner ⊢
        split
        · exact False.elim
        · rename_i token between found
          obtain ⟨rfl, kind⟩ := expect_eq_ok found (by decide)
          obtain ⟨-, agree, passes⟩ := inner trivial
          refine fun _ => ⟨trivial, agree, fun inBody state settled => ?_⟩
          rw [search_opening settled.toCalm .paren rfl, passes inBody _ (settled.enter .paren)]
          exact search_enclosed settled .paren kind
      · intro clear
        obtain ⟨-, agree, inside⟩ :=
          ih.exprList depth .openSquare .closeSquare true [] rest .square clear
        refine ⟨trivial, agree (List.forall_mem_nil _), fun inBody state settled => ?_⟩
        rw [search_opening settled.toCalm .square rfl]
        exact inside inBody state settled
      · intro clear
        obtain ⟨-, agree, inside⟩ := ih.entries depth [] rest clear
        refine ⟨trivial, agree (List.forall_mem_nil _), fun inBody state settled => ?_⟩
        rw [search_opening settled.toCalm .curly rfl]
        exact inside inBody state settled
      · intro clear
        obtain ⟨next, agree, passes⟩ := ih.definition depth span rest clear
        refine ⟨trivial, agree, fun inBody state settled => ?_⟩
        rw [search_function settled rfl next]
        exact passes inBody state settled
      · exact False.elim

/-- What a function declares inside itself does not count outside. -/
theorem scans_definition (span : Span) :
    (definition exprDepth (fuel + 1) depth span tokens).2.Clear →
      tokens.nextKind? = some .openParen ∧
        Agree (definition exprDepth (fuel + 1) depth span tokens).1.definitions ∧
          ∀ inBody state, state.Settled inBody → search inBody state.passing tokens =
            search inBody state (definition exprDepth (fuel + 1) depth span tokens).2 := by
  rw [definition]
  split
  · exact False.elim
  · rename_i names rest taken
    have found : (paramList tokens).2 = .ok rest := congrArg Prod.snd taken
    dsimp only
    split
    · exact False.elim
    · rename_i brace rest found'
      obtain ⟨rfl, kind⟩ := expect_eq_ok found' (by decide)
      have body := ih.statements depth true [] rest
      generalize statements exprDepth fuel depth true [] rest = read at body
      obtain ⟨stmts, behind⟩ := read
      intro clear
      obtain ⟨stmts, ending, rfl, ⟨closing, kind', rfl⟩, -, agree, finds⟩ := body clear
      have passed := congrArg Prod.snd taken
      have calm : Search.Calm (Search.passing {}) := ⟨rfl, fun _ noted => by cases noted⟩
      refine ⟨(search_paramList true calm rfl passed).1, ?_, fun inBody state settled => ?_⟩
      · exact List.forall_mem_cons.mpr ⟨ofBody_eq kind kind' finds, agree⟩
      · have passing := state.isSome_passing
        obtain ⟨-, same⟩ := search_paramList inBody settled.calm_passing passing passed
        obtain ⟨after, -, follows, inside⟩ := finds inBody _ settled.enter_passing
        obtain ⟨-, -, innerBody, -⟩ := Search.countBracket_opening state.passing .curly
        obtain rfl := follows.passed (by rw [innerBody]; exact passing)
        rw [same, search_opening settled.calm_passing .curly kind, inside,
          search_closing settled.enter_passing.toCalm .curly kind' fun body _ => ?_,
          settled.leave_passing]
        rw [settled.leave_passing]
        exact settled.body body

/-- In statements the search finds the names that they declare. -/
theorem scans_statements (inBlock : Bool) {read : List Stmt} :
    ScansStmts inBlock read tokens
      (statements exprDepth (fuel + 1) depth inBlock read tokens) := by
  unfold statements
  dsimp only
  split
  · exact False.elim
  · split
    · exact False.elim
    · rename_i position outside
      refine fun _ => ⟨[], _, (List.append_nil _).symm, ?_, trivial, agree_nil,
        fun _ state settled => ⟨state, settled, .refl _, rfl⟩⟩
      cases inBlock with
      | true => exact absurd rfl outside
      | false => exact ⟨rfl, position, rfl⟩
  · rename_i token rest
    split
    · rename_i ends
      obtain ⟨rfl, kind⟩ := ends
      exact fun _ => ⟨[], _, (List.append_nil _).symm, ⟨token, kind, rfl⟩, trivial, agree_nil,
        fun _ state settled => ⟨state, settled, .refl _, rfl⟩⟩
    · intro clear
      obtain ⟨stmts, ending, same, ends, between, agree, finds⟩ := ih.statements depth inBlock _ _ clear
      obtain ⟨first, agree', finds'⟩ := ih.statement depth _ between
      refine ⟨_ :: stmts, ending, ?_, ends, first, agree_append.mpr ⟨agree', agree⟩,
        finds'.trans finds⟩
      rw [same, List.reverse_cons, List.append_assoc]
      rfl

/-- It notes the name of each variable and passes over its value. -/
theorem scans_declarators {read : List Declarator} :
    ScansDeclarators read tokens (declarators exprDepth (fuel + 1) depth read tokens) := by
  rw [declarators]
  split
  · exact False.elim
  · rename_i ident rest found
    obtain ⟨rfl, kind⟩ := expect_eq_ok found (by decide)
    split
    · exact False.elim
    · rename_i rest
      have value := ih.assign depth rest
      generalize assign exprDepth fuel depth rest = item at value
      obtain ⟨expr, behind⟩ := item
      dsimp only at value ⊢
      split
      · rename_i rest
        obtain ⟨-, agree, passes⟩ := value trivial
        intro clear
        obtain ⟨more, same, -, agree', finds⟩ := ih.declarators depth _ rest clear
        refine ⟨.variable ident.name ident.span (some expr) :: more, ?_, trivial,
          agree_append.mpr ⟨agree, agree'⟩, fun inBody state settled => ?_⟩
        · rw [same, List.reverse_cons, List.append_assoc]
          rfl
        · have noted := settled.noting [(ident.name, ident.span)]
          rw [search_declared settled kind, passes_plain_cons rfl passes inBody _ noted,
            search_noting settled rfl, finds inBody _ noted, Search.noting_noting]
          rfl
      · intro clear
        obtain ⟨-, agree, passes⟩ := value clear
        refine ⟨[.variable ident.name ident.span (some expr)], ?_, trivial,
          agree_append.mpr ⟨agree, agree_nil⟩, fun inBody state settled => ?_⟩
        · rw [List.reverse_cons]
        · rw [search_declared settled kind, passes_plain_cons rfl passes inBody _ (settled.noting _)]
          rfl
    · rename_i rest
      intro clear
      obtain ⟨more, same, -, agree', finds⟩ := ih.declarators depth _ rest clear
      refine ⟨.variable ident.name ident.span none :: more, ?_, trivial, agree',
        fun inBody state settled => ?_⟩
      · rw [same, List.reverse_cons, List.append_assoc]
        rfl
      · rw [search_declared settled kind, search_noting settled rfl,
          finds inBody _ (settled.noting _), Search.noting_noting]
        rfl
    · intro clear
      refine ⟨[.variable ident.name ident.span none], ?_, trivial, agree_nil,
        fun inBody state settled => ?_⟩
      · rw [List.reverse_cons]
      · exact search_declared settled kind

/-- A condition is passed over with its parentheses. -/
theorem scans_condition (found : (condition exprDepth (fuel + 1) depth tokens).2 = .ok rest) :
    Scans Expr.definitions tokens ((condition exprDepth (fuel + 1) depth tokens).1, rest) := by
  rw [condition] at found ⊢
  split at found
  · cases found
  · rename_i token behind taken
    obtain ⟨rfl, kind⟩ := expect_eq_ok taken (by decide)
    have test := ih.assign depth behind
    dsimp only at found test ⊢
    generalize assign exprDepth fuel depth behind = read at found test ⊢
    obtain ⟨expr, between⟩ := read
    cases taken' : expect .closeParen between with
    | error error =>
        rw [taken'] at found
        cases found
    | ok pair =>
        rw [taken'] at found
        cases found
        obtain ⟨rfl, kind'⟩ := expect_eq_ok taken' (by decide)
        obtain ⟨-, agree, passes⟩ := test trivial
        refine fun _ => ⟨trivial, agree, fun inBody state settled => ?_⟩
        rw [search_opening settled.toCalm .paren kind, passes inBody _ (settled.enter .paren)]
        exact search_enclosed settled .paren kind'

variable (depth)

/-- Behind `var`, the variables are found in their order. -/
theorem finds_declarators {head : Token} (kind : head.kind = .kwVar)
    (clear : (declarators exprDepth fuel depth [] rest).2.Clear) :
    Agree (Declarator.definitionsOfAll (declarators exprDepth fuel depth [] rest).1) ∧
      Finds ((declarators exprDepth fuel depth [] rest).1.flatMap Declarator.names)
        (.token head rest) (declarators exprDepth fuel depth [] rest).2 := by
  obtain ⟨names, same, -, agree, finds⟩ := ih.declarators depth [] rest clear
  rw [same]
  refine ⟨agree, fun inBody state settled =>
    ⟨_, settled.noting _, Search.follows_noting state _, ?_⟩⟩
  rw [search_var settled kind]
  exact finds inBody state settled

/-- What a loop starts with may declare variables. -/
theorem scans_loopStart (tokens : TokenStream)
    (behind : (loopStart exprDepth fuel depth tokens).2.Clear) :
    tokens.Clear ∧ Agree (loopStart exprDepth fuel depth tokens).1.definitions ∧
      Finds (loopStart exprDepth fuel depth tokens).1.names tokens
        (loopStart exprDepth fuel depth tokens).2 := by
  unfold loopStart at behind ⊢
  split at behind
  · exact ⟨trivial, finds_declarators ih depth rfl behind⟩
  · exact ⟨trivial, agree_nil, fun _ state settled => ⟨state, settled, .refl _, rfl⟩⟩
  · obtain ⟨clear, agree, passes⟩ := ih.assign depth _ behind
    exact ⟨clear, agree, passes.finds⟩

/-- The other clauses are passed over. -/
theorem scans_loopClause (stop : TokenKind) (tokens : TokenStream) :
    Scans Expr.definitionsIfAny tokens (loopClause exprDepth fuel depth stop tokens) := by
  unfold loopClause
  split
  · exact fun clear => ⟨clear, agree_nil, fun _ _ _ => rfl⟩
  · exact ih.assign depth tokens

/-- So a `for` loop declares what it starts with and what its body declares. -/
theorem scans_forLoop : ScansStmt tokens (forLoop exprDepth (fuel + 1) depth tokens) := by
  rw [forLoop_eq]
  split
  · exact False.elim
  · rename_i opening rest found
    obtain ⟨rfl, opens⟩ := expect_eq_ok found (by decide)
    have start := scans_loopStart ih depth rest
    generalize loopStart exprDepth fuel depth rest = read at start
    obtain ⟨start, behind⟩ := read
    dsimp only at start ⊢
    split
    · exact False.elim
    · rename_i semicolon rest found
      obtain ⟨rfl, ends⟩ := expect_eq_ok found (by decide)
      obtain ⟨-, agree, finds⟩ := start trivial
      have test := scans_loopClause ih depth .semicolon rest
      generalize loopClause exprDepth fuel depth .semicolon rest = read at test
      obtain ⟨test, behind⟩ := read
      dsimp only at test ⊢
      split
      · exact False.elim
      · rename_i semicolon' rest found
        obtain ⟨rfl, ends'⟩ := expect_eq_ok found (by decide)
        obtain ⟨-, agree', passes⟩ := test trivial
        have step := scans_loopClause ih depth .closeParen rest
        generalize loopClause exprDepth fuel depth .closeParen rest = read at step
        obtain ⟨step, behind⟩ := read
        dsimp only at step ⊢
        split
        · exact False.elim
        · rename_i closing rest found
          obtain ⟨rfl, closes⟩ := expect_eq_ok found (by decide)
          obtain ⟨-, agree'', passes'⟩ := step trivial
          intro clear
          obtain ⟨-, agreeBody, findsBody⟩ := ih.statement depth rest clear
          refine ⟨trivial, agree_append.mpr ⟨agree, agree_append.mpr ⟨agree', agree_append.mpr
            ⟨agree'', agreeBody⟩⟩⟩, ?_⟩
          have first : semicolon.kind.EndsDeclarators = true := by
            rw [ends]
            rfl
          have second : semicolon'.kind.EndsDeclarators = true := by
            rw [ends']
            rfl
          have inside := finds.trans (((finds_endsDeclarators first).trans passes.finds).trans
            ((finds_endsDeclarators second).trans passes'.finds))
          rw [List.append_nil, List.append_nil, List.append_nil] at inside
          refine Finds.trans (finds_enclosed ?_ inside) findsBody
          rw [opens, closes]
          exact .paren

theorem scans_branchEnd {head : Token} {test : Expr} {whenTrue : Stmt}
    {between behind : TokenStream} (ends : head.kind.EndsDeclarators = true)
    (scans : Scans Expr.definitions rest (test, between))
    (first : ScansStmt between (whenTrue, behind)) :
    ScansStmt (.token head rest) (branchEnd exprDepth fuel depth test whenTrue behind) := by
  unfold branchEnd
  split
  · rename_i span text rest'
    intro clear
    obtain ⟨-, agree'', finds'⟩ := ih.statement depth rest' clear
    obtain ⟨clear, agree', finds⟩ := first trivial
    obtain ⟨-, agree, passes⟩ := scans clear
    refine ⟨trivial, agree_append.mpr ⟨agree, agree_append.mpr ⟨agree', agree''⟩⟩, ?_⟩
    exact (finds_endsDeclarators ends).trans (passes.finds.trans (finds.trans
      ((passes_plain rfl).finds.trans finds')))
  · exact False.elim
  · intro clear
    obtain ⟨clear, agree', finds⟩ := first clear
    obtain ⟨-, agree, passes⟩ := scans clear
    refine ⟨trivial, agree_append.mpr ⟨agree, agree_append.mpr ⟨agree', agree_nil⟩⟩, ?_⟩
    change Finds (whenTrue.names ++ []) _ _
    rw [List.append_nil]
    exact (finds_endsDeclarators ends).trans (passes.finds.trans finds)

/-- A statement declares what its parts do. -/
theorem scans_statement : ScansStmt tokens (statement exprDepth (fuel + 1) depth tokens) := by
  rw [statement]
  cases tokens with
  | flawed error beyond => exact False.elim
  | ended position =>
      refine scans_optionalSemicolon fun clear => ?_
      obtain ⟨-, agree, passes⟩ := ih.assign depth _ clear
      exact ⟨trivial, agree, passes.finds⟩
  | token head rest =>
      obtain ⟨kind, text, span⟩ := head
      dsimp only [TokenStream.peek, TokenStream.advance]
      have marked {names : List (String × Span)} {behind : TokenStream}
          (ends : kind.EndsDeclarators = true) (finds : Finds names rest behind) :
          Finds names (.token ⟨kind, text, span⟩ rest) behind :=
        (finds_endsDeclarators ends).trans finds
      split
      · exact scans_optionalSemicolon fun clear =>
          ⟨trivial, finds_declarators ih depth rfl clear⟩
      · cases rest with
        | flawed error beyond => exact False.elim
        | ended position => exact False.elim
        | token ident rest =>
            dsimp only
            split
            · rename_i named
              intro clear
              obtain ⟨-, agree, passes⟩ := ih.definition depth span rest clear
              refine ⟨trivial, agree, fun inBody state settled =>
                ⟨_, settled.naming _, Search.follows_naming state _, ?_⟩⟩
              rw [search_define settled rfl named]
              exact passes inBody _ (settled.naming _)
            · exact False.elim
      · have test := ih.condition depth rest
        generalize condition exprDepth fuel depth rest = read at test
        obtain ⟨test', outcome⟩ := read
        cases outcome with
        | error error => exact False.elim
        | ok between =>
            exact scans_branchEnd ih depth rfl (test between rfl) (ih.statement depth between)
      · have test := ih.condition depth rest
        generalize condition exprDepth fuel depth rest = read at test
        obtain ⟨test', outcome⟩ := read
        cases outcome with
        | error error => exact False.elim
        | ok between =>
            intro clear
            obtain ⟨clear, agree', finds⟩ := ih.statement depth between clear
            obtain ⟨-, agree, passes⟩ := test between rfl clear
            exact ⟨trivial, agree_append.mpr ⟨agree, agree'⟩,
              marked rfl (passes.finds.trans finds)⟩
      · intro clear
        obtain ⟨-, agree, finds⟩ := ih.forLoop depth rest clear
        exact ⟨trivial, agree, marked rfl finds⟩
      · exact scans_optionalSemicolon fun _ => ⟨trivial, agree_nil, finds_endsDeclarators rfl⟩
      · exact scans_optionalSemicolon fun _ => ⟨trivial, agree_nil, finds_endsDeclarators rfl⟩
      · split
        · exact False.elim
        · split
          · exact scans_optionalSemicolon fun _ => ⟨trivial, agree_nil, finds_endsDeclarators rfl⟩
          · refine scans_optionalSemicolon fun clear => ?_
            obtain ⟨-, agree, passes⟩ := ih.assign depth rest clear
            exact ⟨trivial, agree, marked rfl passes.finds⟩
      · intro clear
        obtain ⟨stmts, ending, same, ⟨closing, closes, rfl⟩, -, agree, finds⟩ :=
          ih.statements depth true [] rest clear
        dsimp only
        rw [same]
        refine ⟨trivial, agree, finds_enclosed ?_ finds⟩
        rw [closes]
        exact .curly
      · exact fun _ => ⟨trivial, agree_nil, finds_endsDeclarators rfl⟩
      · refine scans_optionalSemicolon fun clear => ?_
        obtain ⟨-, agree, passes⟩ := ih.assign depth _ clear
        exact ⟨trivial, agree, passes.finds⟩

end

/-- However much fuel there is, the search agrees with what is read. -/
theorem scansAll (exprDepth : Nat) : (fuel : Nat) → ScansAll exprDepth fuel
  | 0 => scansAll_zero
  | fuel + 1 =>
      have ih := scansAll exprDepth fuel
      { assign := fun _ _ => scans_assign ih
        ternary := fun _ _ => scans_ternary ih
        infixes := fun _ level _ => scans_infixes ih level
        moreInfixes := fun _ level _ _ => scans_moreInfixes ih level
        unary := fun _ _ => scans_unary ih
        postfixes := fun _ _ => scans_postfixes ih
        morePostfixes := fun _ _ _ => scans_morePostfixes ih
        exprList := fun _ _ _ trailing _ _ closes => scans_exprList ih closes trailing
        entries := fun _ _ _ => scans_entries ih
        primary := fun _ _ => scans_primary ih
        definition := fun _ span _ => scans_definition ih span
        statements := fun _ inBlock _ _ => scans_statements ih inBlock
        declarators := fun _ _ _ => scans_declarators ih
        condition := fun _ _ _ found => scans_condition ih found
        statement := fun depth _ => scans_statement ih depth
        forLoop := fun depth _ => scans_forLoop ih depth }

/-- The statements of a unit are read to the end of the text, or one of them is broken. -/
theorem clear_or_broken {read : List Stmt} {depth : Nat} :
    (statements exprDepth fuel depth false read tokens).2.Clear ∨
      ∃ error, .broken error ∈ (statements exprDepth fuel depth false read tokens).1 := by
  induction fuel generalizing read tokens with
  | zero =>
      rw [statements]
      exact .inr ⟨_, List.mem_singleton.mpr rfl⟩
  | succ fuel ih =>
      unfold statements
      dsimp only
      split
      · exact .inr ⟨_, List.mem_reverse.mpr List.mem_cons_self⟩
      · exact .inl trivial
      · rw [if_neg (by simp)]
        exact ih

end Parser

/-- The names that were found ahead for a unit without broken statements are those that its top level
declares, and so they are for every function inside. -/
theorem UnitTree.declared_ofTokens {exprDepth : Nat} {tokens : TokenStream}
    (complete : ∀ error, .broken error ∉ (ofTokens exprDepth tokens).body) :
    (ofTokens exprDepth tokens).declared = Stmt.namesOfAll (ofTokens exprDepth tokens).body ∧
      Agree (Stmt.definitionsOfAll (ofTokens exprDepth tokens).body) := by
  have scans := (Parser.scansAll exprDepth (Parser.fuelFor tokens)).statements 0 false [] tokens
  have read : (Parser.statements exprDepth (Parser.fuelFor tokens) 0 false [] tokens).2.Clear ∨
      ∃ error, .broken error ∈
        (Parser.statements exprDepth (Parser.fuelFor tokens) 0 false [] tokens).1 :=
    Parser.clear_or_broken
  have clear := read.resolve_right fun ⟨error, member⟩ => complete error member
  obtain ⟨stmts, ending, same, ⟨rfl, position, ended⟩, -, agree, finds⟩ := scans clear
  have body : (ofTokens exprDepth tokens).body = stmts := same
  have settled : Declarations.Search.Settled false {} := ⟨⟨rfl, nofun⟩, nofun, nofun⟩
  obtain ⟨after, -, follows, found⟩ := finds false {} settled
  rw [body]
  refine ⟨?_, agree⟩
  change Declarations.search false {} tokens = _
  rw [found, ended, Declarations.search, follows.found rfl]
  exact (congrArg List.reverse (List.append_nil _)).trans (List.reverse_reverse _)

end PocketScript
