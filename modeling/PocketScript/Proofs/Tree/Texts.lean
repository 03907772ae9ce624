import PocketScript.Proofs.Token.Texts
import PocketScript.Tree.Parser

/-!
# The texts in a tree

Every text in a tree, be it a name, a key or the value of a literal, was read from a token. As the
tokens are sound, so are the texts (`UnitTree.texts_ofTokens`), also those in front of the place where
reading failed.
-/

namespace PocketScript

/-! ## Trees -/

section

variable (holds : String → Prop)

mutual

/-- All texts that a compilation of the expression may store hold. -/
def Expr.Texts : Expr → Prop
  | .literal _ | .number _ _ | .broken _ => True
  | .string value _ => holds value
  | .name ident _ => holds ident
  | .unary _ operand => operand.Texts
  | .binary _ left right => left.Texts ∧ right.Texts
  | .logical _ left right => left.Texts ∧ right.Texts
  | .conditional condition whenTrue whenFalse =>
      condition.Texts ∧ whenTrue.Texts ∧ whenFalse.Texts
  | .assignName name _ _ value => holds name ∧ value.Texts
  | .assignElement container key _ value => container.Texts ∧ key.Texts ∧ value.Texts
  | .element container key => container.Texts ∧ key.Texts
  | .call callee args _ => callee.Texts ∧ Expr.TextsOfAll args
  | .array elements _ => Expr.TextsOfAll elements
  | .object entries _ => Entry.TextsOfAll entries
  | .function definition => definition.Texts

def Expr.TextsOfAll : List Expr → Prop
  | [] => True
  | first :: rest => first.Texts ∧ Expr.TextsOfAll rest

def Expr.TextsIfAny : Option Expr → Prop
  | none => True
  | some value => value.Texts

def Entry.Texts : Entry → Prop
  | .property key _ value => holds key ∧ value.Texts
  | .broken _ => True

def Entry.TextsOfAll : List Entry → Prop
  | [] => True
  | first :: rest => first.Texts ∧ Entry.TextsOfAll rest

def Definition.Texts : Definition → Prop
  | .mk _ _ _ body => Stmt.TextsOfAll body

def Declarator.Texts : Declarator → Prop
  | .variable name _ value => holds name ∧ Expr.TextsIfAny value
  | .broken _ => True

def Declarator.TextsOfAll : List Declarator → Prop
  | [] => True
  | first :: rest => first.Texts ∧ Declarator.TextsOfAll rest

def ForStart.Texts : ForStart → Prop
  | .nothing => True
  | .declare declarators => Declarator.TextsOfAll declarators
  | .evaluate value => value.Texts

/-- All texts that a compilation of the statement may store hold. -/
def Stmt.Texts : Stmt → Prop
  | .expression value => value.Texts
  | .declare declarators => Declarator.TextsOfAll declarators
  | .define name _ definition => holds name ∧ definition.Texts
  | .branch condition whenTrue whenFalse =>
      condition.Texts ∧ whenTrue.Texts ∧ Stmt.TextsIfAny whenFalse
  | .whileLoop condition body => condition.Texts ∧ body.Texts
  | .forLoop start condition step body =>
      start.Texts ∧ Expr.TextsIfAny condition ∧ Expr.TextsIfAny step ∧ body.Texts
  | .breakLoop _ | .continueLoop _ | .broken _ => True
  | .return_ value => Expr.TextsIfAny value
  | .block body => Stmt.TextsOfAll body

def Stmt.TextsIfAny : Option Stmt → Prop
  | none => True
  | some stmt => stmt.Texts

def Stmt.TextsOfAll : List Stmt → Prop
  | [] => True
  | first :: rest => first.Texts ∧ Stmt.TextsOfAll rest

end

variable {holds}

/-- The texts of expressions hold when those of each of them do. -/
theorem Expr.textsOfAll_iff {exprs : List Expr} :
    Expr.TextsOfAll holds exprs ↔ ∀ expr ∈ exprs, expr.Texts holds := by
  induction exprs with
  | nil => exact iff_of_true trivial fun _ member => absurd member List.not_mem_nil
  | cons first rest ih => rw [Expr.TextsOfAll, ih, List.forall_mem_cons]

/-- The texts of properties hold when those of each of them do. -/
theorem Entry.textsOfAll_iff {entries : List Entry} :
    Entry.TextsOfAll holds entries ↔ ∀ entry ∈ entries, entry.Texts holds := by
  induction entries with
  | nil => exact iff_of_true trivial fun _ member => absurd member List.not_mem_nil
  | cons first rest ih => rw [Entry.TextsOfAll, ih, List.forall_mem_cons]

/-- The texts of variables hold when those of each of them do. -/
theorem Declarator.textsOfAll_iff {declarators : List Declarator} :
    Declarator.TextsOfAll holds declarators ↔
      ∀ declarator ∈ declarators, declarator.Texts holds := by
  induction declarators with
  | nil => exact iff_of_true trivial fun _ member => absurd member List.not_mem_nil
  | cons first rest ih => rw [Declarator.TextsOfAll, ih, List.forall_mem_cons]

/-- The texts of statements hold when those of each of them do. -/
theorem Stmt.textsOfAll_iff {stmts : List Stmt} :
    Stmt.TextsOfAll holds stmts ↔ ∀ stmt ∈ stmts, stmt.Texts holds := by
  induction stmts with
  | nil => exact iff_of_true trivial fun _ member => absurd member List.not_mem_nil
  | cons first rest ih => rw [Stmt.TextsOfAll, ih, List.forall_mem_cons]

end

/-! ## Tokens that are taken -/

namespace TokenStream

variable {limit : Nat} {tokens rest : TokenStream} {token : Token}

/-- What stands behind a sound token is sound. -/
theorem Sound.advance (sound : tokens.Sound limit) : tokens.advance.Sound limit := by
  cases tokens with
  | token head rest => exact sound.2
  | ended position => exact sound
  | flawed error beyond => exact sound

/-- The token one sees ahead is sound, also the empty one at the end of the text. -/
theorem Sound.peek (sound : tokens.Sound limit) (next : tokens.peek = .ok token) :
    token.Sound limit := by
  cases tokens with
  | token head rest =>
      cases next
      exact sound.1
  | ended position =>
      cases next
      exact ⟨Nat.zero_le _, fun _ _ member => absurd member List.not_mem_nil⟩
  | flawed error beyond => cases next

/-- A token that is taken because its kind is wanted is sound, and so is the rest. -/
theorem Sound.expect {wanted : TokenKind} (sound : tokens.Sound limit)
    (found : Parser.expect wanted tokens = .ok (token, rest)) :
    token.Sound limit ∧ token.kind = wanted ∧ rest.Sound limit := by
  unfold Parser.expect at found
  cases next : tokens.peek with
  | error error =>
      rw [next] at found
      cases found
  | ok token =>
      simp only [next, bind, Except.bind] at found
      split at found
      · rename_i wanted
        cases found
        exact ⟨sound.peek next, wanted, sound.advance⟩
      · cases found

end TokenStream

namespace Access

/-- All texts of an access hold. -/
def Texts (holds : String → Prop) : Access → Prop
  | value expr => expr.Texts holds
  | name ident _ => holds ident
  | element container key => container.Texts holds ∧ key.Texts holds

variable {holds : String → Prop} {access : Access}

/-- To read from what was found needs no text that was not found. -/
theorem Texts.read (texts : access.Texts holds) : access.read.Texts holds := by
  cases access <;> exact texts

/-- Nor does it when a broken token stands behind it. -/
theorem Texts.settle (texts : access.Texts holds) (tokens : TokenStream) :
    (access.settle tokens).Texts holds := by
  cases tokens with
  | token head rest => exact texts.read
  | ended position => exact texts.read
  | flawed error beyond =>
      cases access with
      | value expr => exact ⟨texts, trivial⟩
      | name ident span => exact ⟨texts, trivial⟩
      | element container key => exact ⟨texts.1, texts.2, trivial⟩

end Access

/-! ## Reading -/

namespace Parser

/-- The texts of a tree hold, and the tokens behind it are sound. -/
def Reads {α : Type} (texts : α → Prop) (limit : Nat) (read : α × TokenStream) : Prop :=
  texts read.1 ∧ read.2.Sound limit

/-- With so much fuel, sound tokens are read as trees whose texts can be stored. -/
structure ReadsAll (limit exprDepth fuel : Nat) : Prop where
  assign : ∀ depth tokens, tokens.Sound limit →
    Reads (Expr.Texts (Storable limit)) limit (Parser.assign exprDepth fuel depth tokens)
  ternary : ∀ depth tokens, tokens.Sound limit →
    Reads (Access.Texts (Storable limit)) limit (Parser.ternary exprDepth fuel depth tokens)
  infixes : ∀ depth level tokens, tokens.Sound limit →
    Reads (Access.Texts (Storable limit)) limit (Parser.infixes exprDepth fuel depth level tokens)
  moreInfixes : ∀ depth level left tokens, left.Texts (Storable limit) → tokens.Sound limit →
    Reads (Access.Texts (Storable limit)) limit
      (Parser.moreInfixes exprDepth fuel depth level left tokens)
  unary : ∀ depth tokens, tokens.Sound limit →
    Reads (Access.Texts (Storable limit)) limit (Parser.unary exprDepth fuel depth tokens)
  postfixes : ∀ depth tokens, tokens.Sound limit →
    Reads (Access.Texts (Storable limit)) limit (Parser.postfixes exprDepth fuel depth tokens)
  morePostfixes : ∀ depth subject tokens, subject.Texts (Storable limit) → tokens.Sound limit →
    Reads (Access.Texts (Storable limit)) limit
      (Parser.morePostfixes exprDepth fuel depth subject tokens)
  exprList : ∀ depth closing trailing read tokens, (∀ expr ∈ read, expr.Texts (Storable limit)) →
    tokens.Sound limit → Reads (Expr.TextsOfAll (Storable limit)) limit
      (Parser.exprList exprDepth fuel depth closing trailing read tokens)
  entries : ∀ depth read tokens, (∀ entry ∈ read, entry.Texts (Storable limit)) →
    tokens.Sound limit → Reads (Entry.TextsOfAll (Storable limit)) limit
      (Parser.entries exprDepth fuel depth read tokens)
  primary : ∀ depth tokens, tokens.Sound limit →
    Reads (Access.Texts (Storable limit)) limit (Parser.primary exprDepth fuel depth tokens)
  definition : ∀ depth span tokens, tokens.Sound limit →
    Reads (Definition.Texts (Storable limit)) limit
      (Parser.definition exprDepth fuel depth span tokens)
  statements : ∀ depth inBlock read tokens, (∀ stmt ∈ read, stmt.Texts (Storable limit)) →
    tokens.Sound limit → Reads (Stmt.TextsOfAll (Storable limit)) limit
      (Parser.statements exprDepth fuel depth inBlock read tokens)
  declarators : ∀ depth read tokens,
    (∀ declarator ∈ read, declarator.Texts (Storable limit)) → tokens.Sound limit →
      Reads (Declarator.TextsOfAll (Storable limit)) limit
        (Parser.declarators exprDepth fuel depth read tokens)
  condition : ∀ depth tokens, tokens.Sound limit →
    (Parser.condition exprDepth fuel depth tokens).1.Texts (Storable limit) ∧
      ∀ rest, (Parser.condition exprDepth fuel depth tokens).2 = .ok rest → rest.Sound limit
  statement : ∀ depth tokens, tokens.Sound limit →
    Reads (Stmt.Texts (Storable limit)) limit (Parser.statement exprDepth fuel depth tokens)
  forLoop : ∀ depth tokens, tokens.Sound limit →
    Reads (Stmt.Texts (Storable limit)) limit (Parser.forLoop exprDepth fuel depth tokens)

variable {limit exprDepth fuel : Nat}

/-- A broken expression has no texts, and nothing behind it. -/
theorem reads_brokenExpr (holds : String → Prop) (error : CompileError) :
    Reads (Expr.Texts holds) limit (brokenExpr error) := ⟨trivial, trivial⟩

/-- A broken access has no texts either. -/
theorem reads_brokenAccess (holds : String → Prop) (error : CompileError) :
    Reads (Access.Texts holds) limit (brokenAccess error) := ⟨trivial, trivial⟩

/-- Nor has a broken statement. -/
theorem reads_brokenStmt (holds : String → Prop) (error : CompileError) :
    Reads (Stmt.Texts holds) limit (brokenStmt error) := ⟨trivial, trivial⟩

/-- Without fuel everything that is read is broken. -/
theorem readsAll_zero : ReadsAll limit exprDepth 0 where
  assign _ _ _ := by rw [Parser.assign]; exact reads_brokenExpr _ _
  ternary _ _ _ := by rw [Parser.ternary]; exact reads_brokenAccess _ _
  infixes _ _ _ _ := by rw [Parser.infixes]; exact reads_brokenAccess _ _
  moreInfixes _ _ _ _ _ _ := by rw [Parser.moreInfixes]; exact reads_brokenAccess _ _
  unary _ _ _ := by rw [Parser.unary]; exact reads_brokenAccess _ _
  postfixes _ _ _ := by rw [Parser.postfixes]; exact reads_brokenAccess _ _
  morePostfixes _ _ _ _ _ := by rw [Parser.morePostfixes]; exact reads_brokenAccess _ _
  exprList _ _ _ _ _ _ _ := by rw [Parser.exprList]; exact ⟨⟨trivial, trivial⟩, trivial⟩
  entries _ _ _ _ _ := by rw [Parser.entries]; exact ⟨⟨trivial, trivial⟩, trivial⟩
  primary _ _ _ := by rw [Parser.primary]; exact reads_brokenAccess _ _
  definition _ _ _ _ := by rw [Parser.definition]; exact ⟨⟨trivial, trivial⟩, trivial⟩
  statements _ _ _ _ _ _ := by rw [Parser.statements]; exact ⟨⟨trivial, trivial⟩, trivial⟩
  declarators _ _ _ _ _ := by rw [Parser.declarators]; exact ⟨⟨trivial, trivial⟩, trivial⟩
  condition _ _ _ := by
    rw [Parser.condition]
    exact ⟨trivial, fun _ impossible => by cases impossible⟩
  statement _ _ _ := by rw [Parser.statement]; exact reads_brokenStmt _ _
  forLoop _ _ _ := by rw [Parser.forLoop]; exact reads_brokenStmt _ _

/-- A property key comes from a name, a number or a string token, and can be stored. -/
theorem storable_propertyKey {tokens rest : TokenStream} {key : String} {span : Span}
    (sound : tokens.Sound limit) (found : entries.propertyKey tokens = .ok (key, span, rest)) :
    Storable limit key ∧ rest.Sound limit := by
  unfold entries.propertyKey at found
  cases next : tokens.peek with
  | error error =>
      rw [next] at found
      cases found
  | ok token =>
      simp only [next, bind, Except.bind] at found
      have here := sound.peek next
      split at found
      · rename_i kind
        cases found
        exact ⟨here.name (.inl kind), sound.advance⟩
      · rename_i kind
        cases found
        exact ⟨here.name (.inr kind), sound.advance⟩
      · cases value : Literal.string token with
        | error error =>
            rw [value] at found
            cases found
        | ok text =>
            rw [value] at found
            cases found
            exact ⟨Literal.storable_string here.short value, sound.advance⟩
      · cases found

/-- Where only what stands behind a wanted token is kept, it is sound. -/
theorem sound_map_expect {tokens rest : TokenStream} {wanted : TokenKind}
    (sound : tokens.Sound limit) (found : (expect wanted tokens).map (·.2) = .ok rest) :
    rest.Sound limit := by
  cases taken : expect wanted tokens with
  | error error =>
      rw [taken] at found
      cases found
  | ok pair =>
      rw [taken] at found
      cases found
      exact (sound.expect taken).2.2

/-- What stands behind the parameter names is sound. -/
theorem sound_params {read : List (String × Span)} {tokens rest : TokenStream}
    (sound : tokens.Sound limit) (found : (params read tokens).2 = .ok rest) :
    rest.Sound limit := by
  fun_induction params read tokens with
  | case1 read token _ read' _ _ rest' ih => exact ih sound.2.2 found
  | case2 read token rest' _ read' => exact sound_map_expect sound.2 found
  | case3 => cases found
  | case4 => exact sound_map_expect sound found

/-- And so is what stands behind the parameter list. -/
theorem sound_paramList {tokens rest : TokenStream} (sound : tokens.Sound limit)
    (found : (paramList tokens).2 = .ok rest) : rest.Sound limit := by
  unfold paramList at found
  split at found
  · cases found
  · rename_i taken
    have behind := (sound.expect taken).2.2
    split at found
    · cases found
      exact behind.2
    · exact sound_params behind found

/-- A semicolon behind a statement adds no text to it. -/
theorem reads_optionalSemicolon {stmt : Stmt} {tokens : TokenStream}
    (texts : stmt.Texts (Storable limit)) (sound : tokens.Sound limit) :
    Reads (Stmt.Texts (Storable limit)) limit (optionalSemicolon stmt tokens) := by
  unfold optionalSemicolon
  split
  · exact ⟨⟨texts, trivial, trivial⟩, trivial⟩
  · exact ⟨texts, sound.2⟩
  · exact ⟨texts, sound⟩

/-- What is read behind the first statement of a branch: another one, if an `else` follows. -/
def branchEnd (limit fuel depth : Nat) (test : Expr) (whenTrue : Stmt) :
    TokenStream → Stmt × TokenStream
  | .token ⟨.kwElse, _, _⟩ rest =>
      let (whenFalse, tokens) := statement limit fuel depth rest
      (.branch test whenTrue (some whenFalse), tokens)
  | .flawed error _ => (.branch test whenTrue (some (.broken error)), .broken error)
  | tokens => (.branch test whenTrue none, tokens)

/-! The parts of a `for` loop. -/

/-- What a `for` loop starts with. -/
def loopStart (exprDepth fuel depth : Nat) (tokens : TokenStream) : ForStart × TokenStream :=
  match tokens with
  | .token ⟨.kwVar, _, _⟩ rest =>
      let (read, tokens) := declarators exprDepth fuel depth [] rest
      (ForStart.declare read, tokens)
  | .token ⟨.semicolon, _, _⟩ _ => (ForStart.nothing, tokens)
  | tokens =>
      let (expr, tokens) := assign exprDepth fuel depth tokens
      (ForStart.evaluate expr, tokens)

/-- A clause that is left out in front of a token of a kind. -/
def loopClause (exprDepth fuel depth : Nat) (stop : TokenKind) (tokens : TokenStream) :
    Option Expr × TokenStream :=
  if tokens.nextKind? = some stop then (none, tokens)
  else
    let (expr, tokens) := assign exprDepth fuel depth tokens
    (some expr, tokens)

/-- The clauses of a `for` loop are read one by one with the functions above. -/
theorem forLoop_eq (exprDepth fuel depth : Nat) (tokens : TokenStream) :
    forLoop exprDepth (fuel + 1) depth tokens =
      match expect .openParen tokens with
      | .error error => brokenStmt error
      | .ok (_, tokens) =>
          let start := loopStart exprDepth fuel depth tokens
          match expect .semicolon start.2 with
          | .error error =>
              (.forLoop start.1 (some (.broken error)) none (.block []), .broken error)
          | .ok (_, tokens) =>
              let test := loopClause exprDepth fuel depth .semicolon tokens
              match expect .semicolon test.2 with
              | .error error =>
                  (.forLoop start.1 test.1 (some (.broken error)) (.block []), .broken error)
              | .ok (_, tokens) =>
                  let step := loopClause exprDepth fuel depth .closeParen tokens
                  match expect .closeParen step.2 with
                  | .error error =>
                      (.forLoop start.1 test.1 step.1 (.broken error), .broken error)
                  | .ok (_, tokens) =>
                      let body := statement exprDepth fuel depth tokens
                      (.forLoop start.1 test.1 step.1 body.1, body.2) := by
  rw [forLoop]
  rfl

section

variable (ih : ReadsAll limit exprDepth fuel) {depth : Nat} {tokens : TokenStream}
  (sound : tokens.Sound limit)

include ih sound

/-- An assignment has the texts of its target and its value. -/
theorem reads_assign :
    Reads (Expr.Texts (Storable limit)) limit (assign exprDepth (fuel + 1) depth tokens) := by
  rw [assign]
  dsimp only
  split
  · exact reads_brokenExpr _ _
  · have target := ih.ternary (depth + 1) tokens sound
    generalize ternary exprDepth fuel (depth + 1) tokens = read at target
    obtain ⟨access, rest⟩ := read
    obtain ⟨texts, behind⟩ := target
    dsimp only at texts behind ⊢
    split
    · rename_i operator rest
      split
      · exact ⟨texts.read, behind⟩
      · have value := ih.assign (depth + 1) rest behind.2
        cases access with
        | value expr => exact ⟨⟨texts, trivial⟩, trivial⟩
        | name name span => exact ⟨⟨texts, value.1⟩, value.2⟩
        | element container key => exact ⟨⟨texts.1, texts.2, value.1⟩, value.2⟩
    · exact ⟨texts.settle _, behind⟩

/-- A conditional has the texts of its three parts. -/
theorem reads_ternary :
    Reads (Access.Texts (Storable limit)) limit (ternary exprDepth (fuel + 1) depth tokens) := by
  rw [ternary]
  have condition := ih.infixes depth 0 tokens sound
  generalize infixes exprDepth fuel depth 0 tokens = read at condition
  obtain ⟨access, rest⟩ := read
  obtain ⟨texts, behind⟩ := condition
  dsimp only at texts behind ⊢
  split
  · rename_i rest
    have first := ih.assign depth rest behind.2
    generalize assign exprDepth fuel depth rest = read at first
    obtain ⟨whenTrue, rest⟩ := read
    obtain ⟨whenTrueTexts, behind⟩ := first
    dsimp only at whenTrueTexts behind ⊢
    split
    · exact ⟨⟨texts.read, whenTrueTexts, trivial⟩, trivial⟩
    · rename_i colon rest found
      have second := ih.assign depth rest (behind.expect found).2.2
      exact ⟨⟨texts.read, whenTrueTexts, second.1⟩, second.2⟩
  · exact ⟨texts, behind⟩

/-- The operands of a level are read on the level above it. -/
theorem reads_infixes (level : Nat) :
    Reads (Access.Texts (Storable limit)) limit
      (infixes exprDepth (fuel + 1) depth level tokens) := by
  rw [infixes]
  split
  · exact ih.unary depth tokens sound
  · have left := ih.infixes depth (level + 1) tokens sound
    exact ih.moreInfixes depth level _ _ left.1 left.2

/-- Each further operand adds its texts to those on the left. -/
theorem reads_moreInfixes (level : Nat) {left : Access} (texts : left.Texts (Storable limit)) :
    Reads (Access.Texts (Storable limit)) limit
      (moreInfixes exprDepth (fuel + 1) depth level left tokens) := by
  unfold moreInfixes
  dsimp only
  split
  · rename_i operator rest
    split
    · exact ⟨texts, sound⟩
    · rename_i op _
      have right := ih.infixes depth (level + 1) rest sound.2
      refine ih.moreInfixes depth level _ _ ?_ right.2
      cases op <;> exact ⟨texts.read, right.1.settle _⟩
  · exact ⟨texts, sound⟩

/-- A prefix operator has the texts of its operand. -/
theorem reads_unary :
    Reads (Access.Texts (Storable limit)) limit (unary exprDepth (fuel + 1) depth tokens) := by
  unfold unary
  dsimp only
  split
  · rename_i operator rest
    split
    · exact ih.postfixes depth _ sound
    · split
      · exact reads_brokenAccess _ _
      · have operand := ih.unary (depth + 1) rest sound.2
        exact ⟨operand.1.settle _, operand.2⟩
  · exact ih.postfixes depth _ sound

/-- A primary expression is followed by calls and accesses. -/
theorem reads_postfixes :
    Reads (Access.Texts (Storable limit)) limit (postfixes exprDepth (fuel + 1) depth tokens) := by
  rw [postfixes]
  have subject := ih.primary depth tokens sound
  exact ih.morePostfixes depth _ _ subject.1 subject.2

/-- Calls and accesses add the texts of arguments and keys to those of the subject. -/
theorem reads_morePostfixes {subject : Access} (texts : subject.Texts (Storable limit)) :
    Reads (Access.Texts (Storable limit)) limit
      (morePostfixes exprDepth (fuel + 1) depth subject tokens) := by
  unfold morePostfixes
  dsimp only
  split
  · rename_i rest
    have args := ih.exprList depth .closeParen false [] rest
      (fun _ member => absurd member List.not_mem_nil) sound.2
    exact ih.morePostfixes depth _ _ ⟨texts.read, args.1⟩ args.2
  · rename_i rest
    have key := ih.assign depth rest sound.2
    generalize assign exprDepth fuel depth rest = read at key
    obtain ⟨expr, rest⟩ := read
    obtain ⟨keyTexts, behind⟩ := key
    dsimp only at keyTexts behind ⊢
    split
    · exact ⟨⟨⟨texts.read, keyTexts⟩, trivial⟩, trivial⟩
    · rename_i closing rest found
      exact ih.morePostfixes depth _ _ ⟨texts.read, keyTexts⟩ (behind.expect found).2.2
  · rename_i rest
    split
    · exact ⟨⟨texts.read, trivial⟩, trivial⟩
    · rename_i ident rest found
      obtain ⟨name, kind, behind⟩ := TokenStream.Sound.expect sound.2 found
      exact ih.morePostfixes depth _ _ ⟨texts.read, name.name (.inl kind)⟩ behind
  · exact ⟨texts, sound⟩

/-- Each expression of a list adds its texts to those read before. -/
theorem reads_exprList (closing : TokenKind) (trailing : Bool) {read : List Expr}
    (texts : ∀ expr ∈ read, expr.Texts (Storable limit)) :
    Reads (Expr.TextsOfAll (Storable limit)) limit
      (exprList exprDepth (fuel + 1) depth closing trailing read tokens) := by
  have reversed {read : List Expr} (texts : ∀ expr ∈ read, expr.Texts (Storable limit)) :
      Expr.TextsOfAll (Storable limit) read.reverse :=
    Expr.textsOfAll_iff.mpr fun expr member => texts expr (List.mem_reverse.mp member)
  rw [exprList]
  split
  · exact ⟨reversed texts, sound.advance⟩
  · have next := ih.assign depth tokens sound
    generalize assign exprDepth fuel depth tokens = item at next
    obtain ⟨expr, rest⟩ := item
    obtain ⟨here, behind⟩ := next
    dsimp only at here behind ⊢
    have more : ∀ other ∈ expr :: read, other.Texts (Storable limit) :=
      List.forall_mem_cons.mpr ⟨here, texts⟩
    split
    · exact ih.exprList depth closing trailing _ _ more behind.2
    · split
      · exact ⟨reversed (List.forall_mem_cons.mpr ⟨trivial, more⟩), trivial⟩
      · rename_i found
        exact ⟨reversed more, (behind.expect found).2.2⟩

/-- Each property adds its key and the texts of its value. -/
theorem reads_entries {read : List Entry} (texts : ∀ entry ∈ read, entry.Texts (Storable limit)) :
    Reads (Entry.TextsOfAll (Storable limit)) limit
      (entries exprDepth (fuel + 1) depth read tokens) := by
  have reversed {read : List Entry} (texts : ∀ entry ∈ read, entry.Texts (Storable limit)) :
      Entry.TextsOfAll (Storable limit) read.reverse :=
    Entry.textsOfAll_iff.mpr fun entry member => texts entry (List.mem_reverse.mp member)
  rw [entries]
  split
  · exact ⟨reversed texts, sound.advance⟩
  · split
    · exact ⟨reversed (List.forall_mem_cons.mpr ⟨trivial, texts⟩), trivial⟩
    · rename_i key span rest found
      obtain ⟨storable, behind⟩ := storable_propertyKey sound found
      split
      · exact ⟨reversed (List.forall_mem_cons.mpr ⟨⟨storable, trivial⟩, texts⟩), trivial⟩
      · rename_i colon rest found
        have next := ih.assign depth rest (behind.expect found).2.2
        generalize assign exprDepth fuel depth rest = item at next
        obtain ⟨expr, rest⟩ := item
        obtain ⟨here, behind⟩ := next
        dsimp only at here behind ⊢
        have more : ∀ other ∈ Entry.property key span expr :: read, other.Texts (Storable limit) :=
          List.forall_mem_cons.mpr ⟨⟨storable, here⟩, texts⟩
        split
        · exact ih.entries depth _ _ more behind.2
        · split
          · exact ⟨reversed (List.forall_mem_cons.mpr ⟨trivial, more⟩), trivial⟩
          · rename_i found
            exact ⟨reversed more, (behind.expect found).2.2⟩

/-- The texts of primary expressions come from names, strings and what they enclose. -/
theorem reads_primary :
    Reads (Access.Texts (Storable limit)) limit (primary exprDepth (fuel + 1) depth tokens) := by
  rw [primary]
  split
  · exact reads_brokenAccess _ _
  · rename_i token next
    have here := sound.peek next
    have behind := sound.advance
    dsimp only
    split
    · split
      · exact reads_brokenAccess _ _
      · exact ⟨trivial, behind⟩
    · split
      · exact reads_brokenAccess _ _
      · rename_i text found
        exact ⟨Literal.storable_string here.short found, behind⟩
    · exact ⟨trivial, behind⟩
    · exact ⟨trivial, behind⟩
    · exact ⟨trivial, behind⟩
    · exact ⟨trivial, behind⟩
    · rename_i kind
      exact ⟨here.name (.inl kind), behind⟩
    · have inner := ih.assign depth _ behind
      generalize assign exprDepth fuel depth tokens.advance = read at inner
      obtain ⟨expr, rest⟩ := read
      obtain ⟨texts, behind⟩ := inner
      dsimp only at texts behind ⊢
      split
      · exact ⟨⟨texts, trivial⟩, trivial⟩
      · rename_i found
        exact ⟨texts, (behind.expect found).2.2⟩
    · exact ih.exprList depth .closeSquare true [] _
        (fun _ member => absurd member List.not_mem_nil) behind
    · exact ih.entries depth [] _ (fun _ member => absurd member List.not_mem_nil) behind
    · exact ih.definition depth _ _ behind
    · exact reads_brokenAccess _ _

/-- The texts of a function are those of its body. -/
theorem reads_definition (span : Span) :
    Reads (Definition.Texts (Storable limit)) limit
      (definition exprDepth (fuel + 1) depth span tokens) := by
  rw [definition]
  split
  · exact ⟨⟨trivial, trivial⟩, trivial⟩
  · rename_i names rest taken
    have behind : rest.Sound limit := sound_paramList sound (congrArg Prod.snd taken)
    dsimp only
    split
    · exact ⟨⟨trivial, trivial⟩, trivial⟩
    · rename_i found
      exact ih.statements depth true [] _ (fun _ member => absurd member List.not_mem_nil)
        (behind.expect found).2.2

/-- Each statement adds its texts to those read before. -/
theorem reads_statements (inBlock : Bool) {read : List Stmt}
    (texts : ∀ stmt ∈ read, stmt.Texts (Storable limit)) :
    Reads (Stmt.TextsOfAll (Storable limit)) limit
      (statements exprDepth (fuel + 1) depth inBlock read tokens) := by
  have reversed {read : List Stmt} (texts : ∀ stmt ∈ read, stmt.Texts (Storable limit)) :
      Stmt.TextsOfAll (Storable limit) read.reverse :=
    Stmt.textsOfAll_iff.mpr fun stmt member => texts stmt (List.mem_reverse.mp member)
  unfold statements
  dsimp only
  split
  · exact ⟨reversed (List.forall_mem_cons.mpr ⟨trivial, texts⟩), trivial⟩
  · split
    · exact ⟨reversed (List.forall_mem_cons.mpr ⟨trivial, texts⟩), trivial⟩
    · exact ⟨reversed texts, sound⟩
  · split
    · exact ⟨reversed texts, sound.2⟩
    · have next := ih.statement depth _ sound
      exact ih.statements depth inBlock _ _ (List.forall_mem_cons.mpr ⟨next.1, texts⟩) next.2

/-- Each variable adds its name and the texts of its value. -/
theorem reads_declarators {read : List Declarator}
    (texts : ∀ declarator ∈ read, declarator.Texts (Storable limit)) :
    Reads (Declarator.TextsOfAll (Storable limit)) limit
      (declarators exprDepth (fuel + 1) depth read tokens) := by
  have reversed {read : List Declarator}
      (texts : ∀ declarator ∈ read, declarator.Texts (Storable limit)) :
      Declarator.TextsOfAll (Storable limit) read.reverse :=
    Declarator.textsOfAll_iff.mpr fun declarator member =>
      texts declarator (List.mem_reverse.mp member)
  rw [declarators]
  split
  · exact ⟨reversed (List.forall_mem_cons.mpr ⟨trivial, texts⟩), trivial⟩
  · rename_i ident rest found
    obtain ⟨token, kind, behind⟩ := sound.expect found
    have name := token.name (.inl kind)
    have without : ∀ other ∈ Declarator.variable ident.name ident.span none :: read,
        other.Texts (Storable limit) := List.forall_mem_cons.mpr ⟨⟨name, trivial⟩, texts⟩
    split
    · exact ⟨reversed (List.forall_mem_cons.mpr ⟨trivial, texts⟩), trivial⟩
    · rename_i rest
      have value := ih.assign depth rest behind.2
      generalize assign exprDepth fuel depth rest = item at value
      obtain ⟨expr, rest⟩ := item
      obtain ⟨here, behind⟩ := value
      dsimp only at here behind ⊢
      have more : ∀ other ∈ Declarator.variable ident.name ident.span (some expr) :: read,
          other.Texts (Storable limit) := List.forall_mem_cons.mpr ⟨⟨name, here⟩, texts⟩
      split
      · exact ih.declarators depth _ _ more behind.2
      · exact ⟨reversed more, behind⟩
    · exact ih.declarators depth _ _ without behind.2
    · exact ⟨reversed without, behind⟩

/-- A condition has the texts of the expression in the parentheses. -/
theorem reads_condition :
    (condition exprDepth (fuel + 1) depth tokens).1.Texts (Storable limit) ∧
      ∀ rest, (condition exprDepth (fuel + 1) depth tokens).2 = .ok rest → rest.Sound limit := by
  rw [condition]
  split
  · exact ⟨trivial, fun _ impossible => by cases impossible⟩
  · rename_i found
    have test := ih.assign depth _ (sound.expect found).2.2
    exact ⟨test.1, fun rest taken => sound_map_expect test.2 taken⟩

/-- A statement has the texts of its parts, whatever keyword it starts with. -/
theorem reads_statement :
    Reads (Stmt.Texts (Storable limit)) limit (statement exprDepth (fuel + 1) depth tokens) := by
  rw [statement]
  split
  · exact reads_brokenStmt _ _
  · rename_i token next
    have behind := sound.advance
    dsimp only
    split
    · have names := ih.declarators depth [] _ (fun _ member => absurd member List.not_mem_nil) behind
      exact reads_optionalSemicolon names.1 names.2
    · split
      · exact reads_brokenStmt _ _
      · rename_i ident next
        split
        · rename_i kind
          have body := ih.definition depth token.span _ behind.advance
          exact ⟨⟨(behind.peek next).name (.inl kind), body.1⟩, body.2⟩
        · exact reads_brokenStmt _ _
    · have test := ih.condition depth _ behind
      generalize condition exprDepth fuel depth tokens.advance = read at test
      obtain ⟨expr, outcome⟩ := read
      obtain ⟨texts, sounds⟩ := test
      cases outcome with
      | error error => exact ⟨⟨texts, trivial, trivial⟩, trivial⟩
      | ok rest =>
          have first := ih.statement depth rest (sounds rest rfl)
          dsimp only at texts ⊢
          generalize statement exprDepth fuel depth rest = read at first
          obtain ⟨whenTrue, rest⟩ := read
          obtain ⟨whenTrueTexts, behind⟩ := first
          dsimp only at whenTrueTexts behind ⊢
          split
          · have second := ih.statement depth _ behind.2
            exact ⟨⟨texts, whenTrueTexts, second.1⟩, second.2⟩
          · exact ⟨⟨texts, whenTrueTexts, trivial⟩, trivial⟩
          · exact ⟨⟨texts, whenTrueTexts, trivial⟩, behind⟩
    · have test := ih.condition depth _ behind
      generalize condition exprDepth fuel depth tokens.advance = read at test
      obtain ⟨expr, outcome⟩ := read
      obtain ⟨texts, sounds⟩ := test
      cases outcome with
      | error error => exact ⟨⟨texts, trivial⟩, trivial⟩
      | ok rest =>
          have body := ih.statement depth rest (sounds rest rfl)
          exact ⟨⟨texts, body.1⟩, body.2⟩
    · exact ih.forLoop depth _ behind
    · exact reads_optionalSemicolon trivial behind
    · exact reads_optionalSemicolon trivial behind
    · split
      · exact reads_brokenStmt _ _
      · split
        · exact reads_optionalSemicolon trivial behind
        · have value := ih.assign depth _ behind
          exact reads_optionalSemicolon value.1 value.2
    · have body := ih.statements depth true [] _ (fun _ member => absurd member List.not_mem_nil)
        behind
      exact body
    · exact ⟨trivial, behind⟩
    · have value := ih.assign depth _ sound
      exact reads_optionalSemicolon value.1 value.2

variable (depth)

/-- What a `for` loop starts with has the texts of its variables or its expression. -/
theorem reads_loopStart :
    Reads (ForStart.Texts (Storable limit)) limit (loopStart exprDepth fuel depth tokens) := by
  unfold loopStart
  split
  · exact ih.declarators depth [] _ (fun _ member => absurd member List.not_mem_nil) sound.2
  · exact ⟨trivial, sound⟩
  · exact ih.assign depth _ sound

/-- A further clause of a `for` loop has the texts of its expression, if it has one. -/
theorem reads_loopClause (stop : TokenKind) :
    Reads (Expr.TextsIfAny (Storable limit)) limit
      (loopClause exprDepth fuel depth stop tokens) := by
  unfold loopClause
  split
  · exact ⟨trivial, sound⟩
  · exact ih.assign depth tokens sound

/-- A `for` loop has the texts of its clauses and its body. -/
theorem reads_forLoop :
    Reads (Stmt.Texts (Storable limit)) limit (forLoop exprDepth (fuel + 1) depth tokens) := by
  rw [forLoop_eq]
  split
  · exact reads_brokenStmt _ _
  · rename_i found
    have start := reads_loopStart ih depth (sound.expect found).2.2
    dsimp only
    split
    · exact ⟨⟨start.1, trivial, trivial, trivial⟩, trivial⟩
    · rename_i found
      have test := reads_loopClause ih depth (start.2.expect found).2.2 .semicolon
      split
      · exact ⟨⟨start.1, test.1, trivial, trivial⟩, trivial⟩
      · rename_i found
        have step := reads_loopClause ih depth (test.2.expect found).2.2 .closeParen
        split
        · exact ⟨⟨start.1, test.1, step.1, trivial⟩, trivial⟩
        · rename_i found
          have body := ih.statement depth _ (step.2.expect found).2.2
          exact ⟨⟨start.1, test.1, step.1, body.1⟩, body.2⟩

end

/-- However much fuel there is, sound tokens are read as trees whose texts can be stored. -/
theorem readsAll (limit exprDepth : Nat) : (fuel : Nat) → ReadsAll limit exprDepth fuel
  | 0 => readsAll_zero
  | fuel + 1 =>
      have ih := readsAll limit exprDepth fuel
      { assign := fun _ _ sound => reads_assign ih sound
        ternary := fun _ _ sound => reads_ternary ih sound
        infixes := fun _ level _ sound => reads_infixes ih sound level
        moreInfixes := fun _ level _ _ texts sound => reads_moreInfixes ih sound level texts
        unary := fun _ _ sound => reads_unary ih sound
        postfixes := fun _ _ sound => reads_postfixes ih sound
        morePostfixes := fun _ _ _ texts sound => reads_morePostfixes ih sound texts
        exprList := fun _ closing trailing _ _ texts sound =>
          reads_exprList ih sound closing trailing texts
        entries := fun _ _ _ texts sound => reads_entries ih sound texts
        primary := fun _ _ sound => reads_primary ih sound
        definition := fun _ span _ sound => reads_definition ih sound span
        statements := fun _ inBlock _ _ texts sound => reads_statements ih sound inBlock texts
        declarators := fun _ _ _ texts sound => reads_declarators ih sound texts
        condition := fun _ _ sound => reads_condition ih sound
        statement := fun _ _ sound => reads_statement ih sound
        forLoop := fun depth _ sound => reads_forLoop ih depth sound }

end Parser

/-- All texts of the tree of sound tokens can be stored. -/
theorem UnitTree.texts_ofTokens (exprDepth : Nat) {limit : Nat} {tokens : TokenStream}
    (sound : tokens.Sound limit) :
    Stmt.TextsOfAll (Storable limit) (ofTokens exprDepth tokens).body :=
  ((Parser.readsAll limit exprDepth _).statements 0 false [] tokens
    (fun _ member => absurd member List.not_mem_nil) sound).1

end PocketScript
