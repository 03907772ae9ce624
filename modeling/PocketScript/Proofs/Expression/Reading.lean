import PocketScript.Proofs.Expression.Failing
import PocketScript.Proofs.Expression.Term

/-!
# Reading what was spelled

The parser reads back every term from the tokens that spell it, whatever stands behind them as long
as it does not go on with the expression (`Parser.reads_spells`). It may also give up, with a tree
that does not compile: the text may nest too deeply. A function of the parser that reads operands of
a level collects operators of this level to the left, so what it does with the tokens of a term is
told as what the collecting function does from there on.
-/

namespace PocketScript

open Compiling

namespace Term

/-- An access that the reading of a term may end with. -/
inductive MeantBy : Term → Access → Prop
  | value {term tree} : Denotes term tree → MeantBy term (.value tree)
  | name {name span} : MeantBy (.variable name) (.name name span)
  | element {container key first second} :
      Denotes container first → Denotes key second →
        MeantBy (.element container key) (.element first second)

/-- The access that the reading of a term without parentheses around it ends with, to which a value
could be assigned. -/
def ReadAs (term : Term) (access : Access) : Prop :=
  match term with
  | .variable name => ∃ span, access = .name name span
  | .element container key =>
      ∃ first second, access = .element first second ∧ container.Denotes first ∧ key.Denotes second
  | term => ∃ tree, access = .value tree ∧ term.Denotes tree

variable {term : Term} {access : Access}

/-- What a term is read as stands for it. -/
theorem ReadAs.meantBy (read : term.ReadAs access) : term.MeantBy access := by
  unfold ReadAs at read
  split at read
  · obtain ⟨span, rfl⟩ := read
    exact .name
  · obtain ⟨first, second, rfl, one, two⟩ := read
    exact .element one two
  · obtain ⟨tree, rfl, denotes⟩ := read
    exact .value denotes

theorem MeantBy.read (meant : term.MeantBy access) : term.Denotes access.read := by
  cases meant with
  | value denotes => exact denotes
  | name => exact .variable
  | element one two => exact .element one two

/-- The access as an operand stands for the term, or it does not compile. -/
theorem MeantBy.settle (meant : term.MeantBy access) (tokens : TokenStream) :
    term.Denotes (access.settle tokens) ∨ Fails (expr (access.settle tokens)) := by
  cases tokens with
  | token head rest => exact .inl meant.read
  | ended position => exact .inl meant.read
  | flawed error beyond => exact .inr (Access.fails_stopBefore access error)

end Term

namespace Parser

/-- The level on which a token goes on with an expression. -/
def continuing? : TokenKind → Option Nat
  | .equal | .plusEqual | .minusEqual | .starEqual | .slashEqual | .percentEqual => some 0
  | .question => some 1
  | .orOr => some 2
  | .andAnd => some 3
  | .bar => some 4
  | .caret => some 5
  | .ampersand => some 6
  | .equalEqual | .notEqual => some 7
  | .less | .lessEqual | .greater | .greaterEqual => some 8
  | .shiftLeft | .shiftRight => some 9
  | .plus | .minus => some 10
  | .star | .slash | .percent => some 11
  | .openParen | .openSquare | .dot => some 13
  | _ => none

/-- The next token does not go on with an expression of a level. -/
def Stops (level : Nat) (rest : TokenStream) : Prop :=
  ∀ kind found, rest.nextKind? = some kind → continuing? kind = some found → found < level

variable {level : Nat} {rest : TokenStream} {access : Access}

theorem Stops.mono {level' : Nat} (stops : Stops level rest) (below : level ≤ level') :
    Stops level' rest :=
  fun kind found next continues => Nat.lt_of_lt_of_le (stops kind found next continues) below

/-- A token stops every expression of a level above its own. -/
theorem stops_token {token : Token}
    (below : ∀ found, continuing? token.kind = some found → found < level) :
    Stops level (.token token rest) := by
  intro kind found next continues
  injection next with same
  subst same
  exact below found continues

theorem continuing?_of_infixAt? {kind : TokenKind} {op : Infix}
    (there : infixAt? level kind = some op) : continuing? kind = some (2 + level) := by
  unfold infixAt? at there
  split at there <;> first | rfl | cases there

theorem infixAt?_binary (op : BinaryOp) : infixAt? op.level op.kind = some (.binary op) := by
  cases op <;> rfl

theorem infixAt?_logical (op : LogicalOp) : infixAt? op.level op.kind = some (.logical op) := by
  cases op <;> rfl

theorem unaryOp?_kind (op : UnaryOp) : unaryOp? op.kind = some op := by
  cases op <;> rfl

theorem assignment?_kind {op : Option BinaryOp} {kind : TokenKind}
    (written : assignmentKind? op = some kind) : assignment? kind = some op := by
  unfold assignmentKind? at written
  split at written <;> first | (injection written with same; subst same; rfl) | cases written

/-- An assignment continues its target. -/
theorem continuing?_assignment {op : Option BinaryOp} {kind : TokenKind}
    (written : assignmentKind? op = some kind) : continuing? kind = some 0 := by
  unfold assignmentKind? at written
  split at written <;> first | (injection written with same; subst same; rfl) | cases written

/-- No other token does. -/
theorem assignment?_eq_none {kind : TokenKind} (other : continuing? kind ≠ some 0) :
    assignment? kind = none := by
  unfold assignment?
  split <;> first | rfl | exact absurd rfl other

theorem binary_level_lt (op : BinaryOp) : op.level < 10 := by
  cases op <;> decide

theorem logical_level_lt (op : LogicalOp) : op.level < 10 := by
  cases op <;> decide

/-! ## Collecting to the left -/

/-- Without an operator of its level nothing is collected. -/
theorem moreInfixes_stops (limit fuel depth : Nat) (stops : Stops (2 + level) rest) :
    moreInfixes limit (fuel + 1) depth level access rest = (access, rest) := by
  unfold moreInfixes
  split
  · rename_i operator more
    split
    · rfl
    · rename_i op there
      have below := stops _ _ rfl (continuing?_of_infixAt? there)
      omega
  · rfl

/-- Without a bracket or a point nothing is collected. -/
theorem morePostfixes_stops (limit fuel depth : Nat) (stops : Stops 13 rest) :
    morePostfixes limit (fuel + 1) depth access rest = (access, rest) := by
  unfold morePostfixes
  split
  · exact absurd (stops _ _ rfl rfl) (Nat.lt_irrefl _)
  · exact absurd (stops _ _ rfl rfl) (Nat.lt_irrefl _)
  · exact absurd (stops _ _ rfl rfl) (Nat.lt_irrefl _)
  · rfl

/-! ## What reading a level means -/

/-- An access of some kind was read up to a point, or one that does not compile. -/
def Yields (good : Access → Prop) (outcome : Access × TokenStream) (rest : TokenStream) : Prop :=
  (good outcome.1 ∧ outcome.2 = rest) ∨ outcome.1.Fails

def ReadsPrimary (good : Access → Prop) (tokens : List Token) : Prop :=
  ∀ limit fuel depth rest, Yields good (primary limit fuel depth (rest.behind tokens)) rest

def ReadsPostfix (good : Access → Prop) (tokens : List Token) : Prop :=
  ∀ limit fuel depth rest,
    (∃ fuel' access, good access ∧
      postfixes limit fuel depth (rest.behind tokens) =
        morePostfixes limit fuel' depth access rest) ∨
      (postfixes limit fuel depth (rest.behind tokens)).1.Fails

def ReadsUnary (good : Access → Prop) (tokens : List Token) : Prop :=
  ∀ limit fuel depth rest, Stops 13 rest →
    Yields good (unary limit fuel depth (rest.behind tokens)) rest

def ReadsInfix (level : Nat) (good : Access → Prop) (tokens : List Token) : Prop :=
  ∀ limit fuel depth rest, Stops (3 + level) rest →
    (∃ fuel' access, good access ∧
      infixes limit fuel depth level (rest.behind tokens) =
        moreInfixes limit fuel' depth level access rest) ∨
      (infixes limit fuel depth level (rest.behind tokens)).1.Fails

/-- Operands of a level and of those that bind tighter. -/
def ReadsTight (level : Nat) (good : Access → Prop) (tokens : List Token) : Prop :=
  ∀ limit fuel depth rest, Stops (2 + level) rest →
    Yields good (infixes limit fuel depth level (rest.behind tokens)) rest

def ReadsTernary (level : Nat) (good : Access → Prop) (tokens : List Token) : Prop :=
  ∀ limit fuel depth rest, Stops level rest →
    Yields good (ternary limit fuel depth (rest.behind tokens)) rest

def ReadsAssign (term : Term) (tokens : List Token) : Prop :=
  ∀ limit fuel depth rest, Stops 0 rest →
    let outcome := assign limit fuel depth (rest.behind tokens)
    (term.Denotes outcome.1 ∧ outcome.2 = rest) ∨ Fails (expr outcome.1)

/-- The tokens start with none of the prefix operators. -/
def StartsOperand (tokens : List Token) : Prop :=
  ∃ token more, tokens = token :: more ∧ unaryOp? token.kind = none

variable {good good' : Access → Prop} {tokens : List Token} {term : Term}

/-- Less may be asked of what is yielded. -/
theorem Yields.mono {outcome : Access × TokenStream} (yields : Yields good outcome rest)
    (weaker : ∀ access, good access → good' access) : Yields good' outcome rest := by
  rcases yields with ⟨read, rest⟩ | failing
  · exact .inl ⟨weaker _ read, rest⟩
  · exact .inr failing

theorem ReadsPostfix.mono (reads : ReadsPostfix good tokens)
    (weaker : ∀ access, good access → good' access) : ReadsPostfix good' tokens := by
  intro limit fuel depth rest
  rcases reads limit fuel depth rest with ⟨fuel', access, read, same⟩ | failing
  · exact .inl ⟨fuel', access, weaker _ read, same⟩
  · exact .inr failing

theorem ReadsInfix.mono (reads : ReadsInfix level good tokens)
    (weaker : ∀ access, good access → good' access) : ReadsInfix level good' tokens := by
  intro limit fuel depth rest stops
  rcases reads limit fuel depth rest stops with ⟨fuel', access, read, same⟩ | failing
  · exact .inl ⟨fuel', access, weaker _ read, same⟩
  · exact .inr failing

theorem ReadsTight.mono (reads : ReadsTight level good tokens)
    (weaker : ∀ access, good access → good' access) : ReadsTight level good' tokens :=
  fun limit fuel depth rest stops => (reads limit fuel depth rest stops).mono weaker

/-! ## From one level to the next

Without fuel nothing is read, and what is read instead does not compile. -/

theorem spent_primary (limit depth : Nat) (tokens : TokenStream) :
    (primary limit 0 depth tokens).1.Fails := by
  unfold primary
  exact fails_brokenAccess _

theorem readsPrimary_of_fuel (reads : ∀ limit fuel depth rest,
      Yields good (primary limit (fuel + 1) depth (rest.behind tokens)) rest) :
    ReadsPrimary good tokens := by
  intro limit fuel
  cases fuel with
  | zero => exact fun _ _ => .inr (spent_primary _ _ _)
  | succ fuel => exact reads limit fuel

theorem spent_postfixes (limit depth : Nat) (tokens : TokenStream) :
    (postfixes limit 0 depth tokens).1.Fails := by
  unfold postfixes
  exact fails_brokenAccess _

theorem spent_morePostfixes (limit depth : Nat) (access : Access) (tokens : TokenStream) :
    (morePostfixes limit 0 depth access tokens).1.Fails := by
  unfold morePostfixes
  exact fails_brokenAccess _

theorem spent_unary (limit depth : Nat) (tokens : TokenStream) :
    (unary limit 0 depth tokens).1.Fails := by
  unfold unary
  exact fails_brokenAccess _

theorem spent_infixes (limit depth level : Nat) (tokens : TokenStream) :
    (infixes limit 0 depth level tokens).1.Fails := by
  unfold infixes
  exact fails_brokenAccess _

theorem spent_moreInfixes (limit depth level : Nat) (access : Access) (tokens : TokenStream) :
    (moreInfixes limit 0 depth level access tokens).1.Fails := by
  unfold moreInfixes
  exact fails_brokenAccess _

theorem spent_ternary (limit depth : Nat) (tokens : TokenStream) :
    (ternary limit 0 depth tokens).1.Fails := by
  unfold ternary
  exact fails_brokenAccess _

theorem spent_assign (limit depth : Nat) (tokens : TokenStream) :
    Fails (expr (assign limit 0 depth tokens).1) := by
  unfold assign
  exact fails_broken _

theorem ReadsPrimary.postfixed (reads : ReadsPrimary good tokens) : ReadsPostfix good tokens := by
  intro limit fuel depth rest
  cases fuel with
  | zero => exact .inr (spent_postfixes _ _ _)
  | succ fuel =>
      unfold postfixes
      rcases reads limit fuel depth rest with ⟨read, same⟩ | failing
      · refine .inl ⟨fuel, _, read, ?_⟩
        change morePostfixes limit fuel depth _ (primary limit fuel depth (rest.behind tokens)).2 = _
        rw [same]
      · exact .inr (fails_morePostfixes limit failing)

theorem ReadsPostfix.unary (reads : ReadsPostfix good tokens) (starts : StartsOperand tokens) :
    ReadsUnary good tokens := by
  intro limit fuel depth rest stops
  obtain ⟨token, more, rfl, operand⟩ := starts
  cases fuel with
  | zero => exact .inr (spent_unary _ _ _)
  | succ fuel =>
      unfold Parser.unary
      simp only [TokenStream.behind_cons, operand]
      rcases reads limit fuel depth rest with ⟨fuel', access, read, same⟩ | failing
      · rw [TokenStream.behind_cons] at same
        rw [same]
        cases fuel' with
        | zero => exact .inr (spent_morePostfixes _ _ _ _)
        | succ fuel' =>
            rw [morePostfixes_stops _ _ _ stops]
            exact .inl ⟨read, rfl⟩
      · exact .inr failing

theorem ReadsUnary.tight (reads : ReadsUnary good tokens) : ReadsTight 10 good tokens := by
  intro limit fuel depth rest stops
  cases fuel with
  | zero => exact .inr (spent_infixes _ _ _ _)
  | succ fuel =>
      unfold infixes
      rw [if_pos (show levelCount ≤ 10 from Nat.le_refl _)]
      exact reads limit fuel depth rest (stops.mono (by omega))

/-- No token goes on with an expression between prefix operators and accesses. -/
theorem Stops.prefixed (stops : Stops 13 rest) : Stops 12 rest := by
  intro kind found next continues
  have below := stops kind found next continues
  have other : found ≠ 12 := by
    rintro rfl
    revert continues
    cases kind <;> exact nofun
  omega

/-- And such an operand may stand behind a prefix. -/
theorem ReadsTight.unary (reads : ReadsTight 10 good tokens) : ReadsUnary good tokens := by
  intro limit fuel depth rest stops
  have same : infixes limit (fuel + 1) depth 10 (rest.behind tokens) =
      Parser.unary limit fuel depth (rest.behind tokens) := by
    conv => lhs; unfold infixes
    rw [if_pos (show levelCount ≤ 10 from Nat.le_refl _)]
  rw [← same]
  exact reads limit (fuel + 1) depth rest stops.prefixed

theorem ReadsTight.infixed (reads : ReadsTight (level + 1) good tokens) (inside : level < 10) :
    ReadsInfix level good tokens := by
  intro limit fuel depth rest stops
  cases fuel with
  | zero => exact .inr (spent_infixes _ _ _ _)
  | succ fuel =>
      unfold infixes
      rw [if_neg (show ¬ levelCount ≤ level by unfold levelCount; omega)]
      rcases reads limit fuel depth rest (stops.mono (by omega)) with ⟨read, same⟩ | failing
      · refine .inl ⟨fuel, _, read, ?_⟩
        change moreInfixes limit fuel depth level _
          (infixes limit fuel depth (level + 1) (rest.behind tokens)).2 = _
        rw [same]
      · exact .inr (fails_moreInfixes limit failing)

theorem ReadsInfix.tight (reads : ReadsInfix level good tokens) : ReadsTight level good tokens := by
  intro limit fuel depth rest stops
  rcases reads limit fuel depth rest (stops.mono (by omega)) with ⟨fuel', access, read, same⟩ | failing
  · rw [same]
    cases fuel' with
    | zero => exact .inr (spent_moreInfixes _ _ _ _ _)
    | succ fuel' =>
        rw [moreInfixes_stops _ _ _ stops]
        exact .inl ⟨read, rfl⟩
  · exact .inr failing

/-- Whatever is read on a level is read on those that bind less. -/
theorem ReadsTight.lower {level' : Nat} (reads : ReadsTight level' good tokens)
    (below : level ≤ level') (inside : level' ≤ 10) : ReadsTight level good tokens := by
  induction level' with
  | zero =>
      obtain rfl : level = 0 := by omega
      exact reads
  | succ level' ih =>
      by_cases same : level = level' + 1
      · subst same
        exact reads
      · exact ih (reads.infixed (by omega)).tight (by omega) (by omega)

theorem ReadsTight.ternary (reads : ReadsTight 0 good tokens) : ReadsTernary 1 good tokens := by
  intro limit fuel depth rest stops
  cases fuel with
  | zero => exact .inr (spent_ternary _ _ _)
  | succ fuel =>
      unfold Parser.ternary
      have condition := reads limit fuel depth rest (stops.mono (by omega))
      generalize infixes limit fuel depth 0 (rest.behind tokens) = outcome at condition
      obtain ⟨access, tokens⟩ := outcome
      simp only
      rcases condition with ⟨read, same⟩ | failing
      · obtain rfl : tokens = rest := same
        split
        · exact absurd (stops _ _ rfl rfl) (Nat.lt_irrefl _)
        · exact .inl ⟨read, rfl⟩
      · split
        · split
          · exact .inr (fails_conditional (.inl failing.read))
          · exact .inr (fails_conditional (.inl failing.read))
        · exact .inr failing

/-- A failing target of an assignment does not compile with any value. -/
theorem fails_assign_of_ternary {limit fuel depth : Nat} {tokens : TokenStream}
    (failing : (ternary limit fuel (depth + 1) tokens).1.Fails) :
    Fails (expr (assign limit (fuel + 1) depth tokens).1) := by
  unfold assign
  simp only
  split
  · exact fails_broken _
  · generalize ternary limit fuel (depth + 1) tokens = outcome at failing
    obtain ⟨target, tokens⟩ := outcome
    simp only at failing ⊢
    split
    · split
      · exact failing.read
      · split
        · exact fails_element (.inl failing)
        · exact failing.elim
        · rcases failing with failing | failing
          · exact fails_assignElement (.inl failing)
          · exact fails_assignElement (.inr (.inl failing))
    · exact failing.settle _

/-- And an assignment without an operator. -/
theorem ReadsTernary.assign (reads : ReadsTernary level term.MeantBy tokens) :
    ReadsAssign term tokens := by
  intro limit fuel depth rest stops
  cases fuel with
  | zero => exact .inr (spent_assign _ _ _)
  | succ fuel =>
      rcases reads limit fuel (depth + 1) rest (stops.mono (Nat.zero_le _)) with
        ⟨meant, same⟩ | failing
      · unfold Parser.assign
        simp only
        split
        · exact .inr (fails_broken _)
        · simp only [same]
          split
          · rename_i operator more
            have none : assignment? operator.kind = none := by
              apply assignment?_eq_none
              intro continues
              exact Nat.not_lt_zero _ (stops _ _ rfl continues)
            simp only [none]
            exact .inl ⟨meant.read, trivial⟩
          · rcases meant.settle rest with denotes | failing
            · exact .inl ⟨denotes, rfl⟩
            · exact .inr failing
      · exact .inr (fails_assign_of_ternary failing)

end Parser

end PocketScript
