import PocketScript.Proofs.Expression.Reading

/-!
# Every spelled term is read back

For each form of term, what the parser makes of its tokens follows from what it makes of those of
its parts. The recursion over the spelling at the end (`Parser.reads_spells`) puts these together.
-/

namespace PocketScript

open Compiling

namespace Parser

variable {level wanted fuel depth limit : Nat} {rest : TokenStream} {good : Access → Prop}
  {tokens more : List Token} {term : Term} {text text' : List UInt8} {span span' : Span}

/-- All that is to be known of the tokens of a term, as an operand of a level. -/
structure Readable (wanted : Nat) (good : Access → Prop) (term : Term) (tokens : List Token) :
    Prop where
  assign : ReadsAssign term tokens
  tight : ∀ level ≤ 10, 2 + level ≤ wanted → ReadsTight level good tokens
  collected : ∀ level < 10, 2 + level ≤ wanted → ReadsInfix level good tokens
  subject : 13 ≤ wanted → ReadsPostfix good tokens ∧ StartsOperand tokens
  opens : ∃ token more, tokens = token :: more ∧ token.kind ≠ .closeSquare

theorem Readable.of_assign (low : wanted < 2) (reads : ReadsAssign term tokens)
    (opens : ∃ token more, tokens = token :: more ∧ token.kind ≠ .closeSquare) :
    Readable wanted good term tokens :=
  ⟨reads, fun level _ above => absurd above (by omega), fun level _ above => absurd above (by omega),
    fun above => absurd above (by omega), opens⟩

theorem Readable.of_infixed (inside : level < 10) (reads : ReadsInfix level good tokens)
    (weaker : ∀ access, good access → term.MeantBy access)
    (opens : ∃ token more, tokens = token :: more ∧ token.kind ≠ .closeSquare) :
    Readable (2 + level) good term tokens := by
  have tight := reads.tight
  refine ⟨((tight.lower (Nat.zero_le _) (by omega)).mono weaker).ternary.assign,
    fun level' _ above => tight.lower (by omega) (by omega), fun level' below above => ?_,
    fun above => absurd above (by omega), opens⟩
  by_cases same : level' = level
  · subst same
    exact reads
  · exact (@ReadsTight.lower (level' + 1) _ _ _ tight (by omega) (by omega)).infixed below

theorem Readable.of_unary (reads : ReadsUnary good tokens) (small : wanted ≤ 12)
    (weaker : ∀ access, good access → term.MeantBy access)
    (opens : ∃ token more, tokens = token :: more ∧ token.kind ≠ .closeSquare) :
    Readable wanted good term tokens := by
  have tight := reads.tight
  exact ⟨((tight.lower (Nat.zero_le _) (by omega)).mono weaker).ternary.assign,
    fun level' below _ => tight.lower below (by omega),
    fun level' below _ => (@ReadsTight.lower (level' + 1) _ _ _ tight (by omega) (by omega)).infixed
      below,
    fun above => absurd above (by omega), opens⟩

theorem Readable.of_postfixed (reads : ReadsPostfix good tokens) (starts : StartsOperand tokens)
    (weaker : ∀ access, good access → term.MeantBy access)
    (opens : ∃ token more, tokens = token :: more ∧ token.kind ≠ .closeSquare) :
    Readable wanted good term tokens := by
  have tight := (reads.unary starts).tight
  exact ⟨((tight.lower (Nat.zero_le _) (by omega)).mono weaker).ternary.assign,
    fun level' below _ => tight.lower below (by omega),
    fun level' below _ => (@ReadsTight.lower (level' + 1) _ _ _ tight (by omega) (by omega)).infixed
      below,
    fun _ => ⟨reads, starts⟩, opens⟩

theorem Readable.of_primary {token : Token} (reads : ReadsPrimary term.ReadAs (token :: tokens))
    (starts : unaryOp? token.kind = none) (opens : token.kind ≠ .closeSquare) :
    Readable term.level term.ReadAs term (token :: tokens) :=
  .of_postfixed reads.postfixed ⟨token, tokens, rfl, starts⟩ (fun _ read => read.meantBy)
    ⟨token, tokens, rfl, opens⟩

/-- What is read as it is can be read where less is wanted. -/
theorem Readable.plain (reads : Readable term.level term.ReadAs term tokens)
    (below : wanted ≤ term.level) : Readable wanted term.MeantBy term tokens :=
  ⟨reads.assign,
    fun level inside above => (reads.tight level inside (by omega)).mono fun _ => (·.meantBy),
    fun level inside above => (reads.collected level inside (by omega)).mono fun _ => (·.meantBy),
    fun above =>
      ⟨(reads.subject (by omega)).1.mono fun _ => (·.meantBy), (reads.subject (by omega)).2⟩,
    reads.opens⟩

theorem stops_of_none {kind : TokenKind} (none : continuing? kind = none) :
    Stops level (.token ⟨kind, text, span⟩ rest) := by
  refine stops_token fun found continues => ?_
  rw [none] at continues
  cases continues

/-- In parentheses a term is read wherever an operand is wanted. -/
theorem Readable.enclosed (reads : ReadsAssign term tokens) :
    Readable wanted term.MeantBy term
      (⟨.openParen, text, span⟩ :: (tokens ++ [⟨.closeParen, text', span'⟩])) := by
  refine .of_postfixed (ReadsPrimary.postfixed ?_) ⟨_, _, rfl, rfl⟩ (fun _ => id)
    ⟨_, _, rfl, TokenKind.noConfusion⟩
  refine readsPrimary_of_fuel fun limit fuel depth rest => ?_
  have inner := reads limit fuel depth (.token ⟨.closeParen, text', span'⟩ rest)
    (stops_of_none rfl)
  unfold primary
  simp only [TokenStream.behind_cons, TokenStream.behind_append, TokenStream.behind_nil,
    TokenStream.peek, TokenStream.advance]
  generalize Parser.assign limit fuel depth _ = outcome at inner ⊢
  obtain ⟨tree, left⟩ := outcome
  rcases inner with ⟨denotes, same⟩ | failing
  · obtain rfl : left = _ := same
    exact .inl ⟨.value denotes, rfl⟩
  · simp only
    split
    · exact .inr (fails_element (.inl failing))
    · exact .inr failing

/-! ## What stands for itself -/

/-- A literal is read from its keyword. -/
theorem primary_literal (value : Literal) :
    ReadsPrimary (Term.literal value).ReadAs [⟨value.kind, text, span⟩] := by
  refine readsPrimary_of_fuel fun limit fuel depth rest => ?_
  unfold primary
  simp only [TokenStream.behind_cons, TokenStream.behind_nil, TokenStream.peek,
    TokenStream.advance]
  cases value <;> exact .inl ⟨⟨_, rfl, .literal⟩, rfl⟩

theorem primary_number {value : Number} (known : Literal.number? text = some value) :
    ReadsPrimary (Term.number value).ReadAs [⟨.number, text, span⟩] := by
  refine readsPrimary_of_fuel fun limit fuel depth rest => ?_
  unfold primary
  simp only [TokenStream.behind_cons, TokenStream.behind_nil, TokenStream.peek,
    TokenStream.advance, known]
  exact .inl ⟨⟨_, rfl, .number⟩, rfl⟩

theorem primary_string {value : String}
    (known : Literal.string ⟨.string, text, span⟩ = .ok value) :
    ReadsPrimary (Term.string value).ReadAs [⟨.string, text, span⟩] := by
  refine readsPrimary_of_fuel fun limit fuel depth rest => ?_
  unfold primary
  simp only [TokenStream.behind_cons, TokenStream.behind_nil, TokenStream.peek,
    TokenStream.advance, known]
  exact .inl ⟨⟨_, rfl, .string⟩, rfl⟩

/-- A name is read as a variable. -/
theorem primary_variable :
    ReadsPrimary (Term.variable (Token.name ⟨.ident, text, span⟩)).ReadAs
      [⟨.ident, text, span⟩] := by
  refine readsPrimary_of_fuel fun limit fuel depth rest => ?_
  unfold primary
  exact .inl ⟨⟨_, rfl⟩, rfl⟩

/-! ## Operators -/

/-- A prefix is read with the operand behind it. -/
theorem unary_unary {op : UnaryOp} {operand : Term} (reads : ReadsUnary operand.MeantBy tokens) :
    ReadsUnary (Term.unary op operand).ReadAs (⟨op.kind, text, span⟩ :: tokens) := by
  intro limit fuel depth rest stops
  cases fuel with
  | zero => exact .inr (spent_unary _ _ _)
  | succ fuel =>
      unfold unary
      simp only [TokenStream.behind_cons, unaryOp?_kind]
      split
      · exact .inr (fails_brokenAccess _)
      · have inner := reads limit fuel (depth + 1) rest stops
        generalize unary limit fuel (depth + 1) (rest.behind tokens) = outcome at inner ⊢
        obtain ⟨access, left⟩ := outcome
        rcases inner with ⟨meant, same⟩ | failing
        · obtain rfl : left = rest := same
          rcases meant.settle left with denotes | failing
          · exact .inl ⟨⟨_, rfl, .unary denotes⟩, rfl⟩
          · exact .inr (fails_unary failing)
        · exact .inr (fails_unary (failing.settle _))

/-- An operator of the level is taken with the operand behind it. -/
theorem moreInfixes_operator {kind : TokenKind} {op : Infix} {access : Access}
    (known : infixAt? level kind = some op) :
    moreInfixes limit (fuel + 1) depth level access (.token ⟨kind, text, span⟩ rest) =
      let operand := infixes limit fuel depth (level + 1) rest
      moreInfixes limit fuel depth level
        (.value (op.apply access.read (operand.1.settle operand.2))) operand.2 := by
  conv => lhs; unfold moreInfixes
  simp only [known]

/-- An operator of a level joins what was collected on the level to what is read after it. -/
theorem infix_joined {left right : Term} {op : Infix} {kind : TokenKind} {joined : Term}
    (known : infixAt? level kind = some op) (one : ReadsInfix level left.MeantBy tokens)
    (two : ReadsTight (level + 1) right.MeantBy more)
    (denotes : ∀ first second, left.Denotes first → right.Denotes second →
      joined.ReadAs (.value (op.apply first second))) :
    ReadsInfix level joined.ReadAs (tokens ++ ⟨kind, text, span⟩ :: more) := by
  intro limit fuel depth rest stops
  have here : Stops (3 + level) (.token ⟨kind, text, span⟩ (rest.behind more)) := by
    refine stops_token fun found continues => ?_
    rw [continuing?_of_infixAt? known] at continues
    injection continues with same
    omega
  rw [TokenStream.behind_append, TokenStream.behind_cons]
  rcases one limit fuel depth _ here with ⟨fuel', access, meant, same⟩ | failing
  · rw [same]
    cases fuel' with
    | zero => exact .inr (spent_moreInfixes _ _ _ _ _)
    | succ fuel' =>
        rw [moreInfixes_operator known]
        have inner := two limit fuel' depth rest (stops.mono (by omega))
        generalize infixes limit fuel' depth (level + 1) (rest.behind more) = outcome at inner ⊢
        obtain ⟨right, left⟩ := outcome
        simp only
        rcases inner with ⟨meant', same⟩ | failing
        · obtain rfl : left = rest := same
          rcases meant'.settle left with denotes' | failing
          · exact .inl ⟨fuel', _, denotes _ _ meant.read denotes', rfl⟩
          · exact .inr (fails_moreInfixes limit (Infix.fails_apply (.inr failing)))
        · exact .inr (fails_moreInfixes limit (Infix.fails_apply (.inr (failing.settle _))))
  · exact .inr failing

/-- A conditional is read with its condition and both values. -/
theorem assign_conditional {condition whenTrue whenFalse : Term} {first second : List Token}
    (one : ReadsTight 0 condition.MeantBy tokens) (two : ReadsAssign whenTrue first)
    (three : ReadsAssign whenFalse second) :
    ReadsAssign (.conditional condition whenTrue whenFalse)
      (tokens ++ ⟨.question, text, span⟩ :: (first ++ ⟨.colon, text', span'⟩ :: second)) := by
  have reads : ReadsTernary 0 (Term.conditional condition whenTrue whenFalse).MeantBy
      (tokens ++ ⟨.question, text, span⟩ :: (first ++ ⟨.colon, text', span'⟩ :: second)) := by
    intro limit fuel depth rest stops
    cases fuel with
    | zero => exact .inr (spent_ternary _ _ _)
    | succ fuel =>
        unfold ternary
        simp only [TokenStream.behind_append, TokenStream.behind_cons]
        have test := one limit fuel depth
          (.token ⟨.question, text, span⟩
            ((TokenStream.token ⟨.colon, text', span'⟩ (rest.behind second)).behind first))
          (stops_token fun found continues => by injection continues with same; omega)
        generalize infixes limit fuel depth 0 _ = outcome at test ⊢
        obtain ⟨access, left⟩ := outcome
        simp only
        rcases test with ⟨meant, same⟩ | failing
        · obtain rfl : left = _ := same
          simp only
          have yes := two limit fuel depth (.token ⟨.colon, text', span'⟩ (rest.behind second))
            (stops_of_none rfl)
          generalize assign limit fuel depth
            ((TokenStream.token ⟨.colon, text', span'⟩ (rest.behind second)).behind first) =
              outcome at yes ⊢
          obtain ⟨whenTrueTree, left⟩ := outcome
          rcases yes with ⟨denotes, same⟩ | failing
          · obtain rfl : left = _ := same
            simp only [expect, TokenStream.peek, TokenStream.advance, bind, Except.bind, pure,
              Except.pure, ↓reduceIte]
            have no := three limit fuel depth rest stops
            generalize assign limit fuel depth (rest.behind second) = outcome at no ⊢
            obtain ⟨whenFalseTree, left⟩ := outcome
            rcases no with ⟨denotes', same⟩ | failing
            · exact .inl ⟨.value (.conditional meant.read denotes denotes'), same⟩
            · exact .inr (fails_conditional (.inr (.inr failing)))
          · simp only
            split
            · exact .inr (fails_conditional (.inr (.inl failing)))
            · exact .inr (fails_conditional (.inr (.inl failing)))
        · split
          · split
            · exact .inr (fails_conditional (.inl failing.read))
            · exact .inr (fails_conditional (.inl failing.read))
          · exact .inr failing
  exact reads.assign

/-! ## Assignments -/

/-- The value of an assignment is read behind its target, which has to be a variable or an
element. -/
theorem assign_target {op : Option BinaryOp} {kind : TokenKind} {value : Term} {target : Term}
    (written : assignmentKind? op = some kind) (one : ReadsTernary 1 good tokens)
    (two : ReadsAssign value more)
    (assigns : ∀ access, good access →
      (∃ name span, access = .name name span ∧
        ∀ tree, value.Denotes tree → target.Denotes (.assignName name span op tree)) ∨
      (∃ container key, access = .element container key ∧
        ∀ tree, value.Denotes tree → target.Denotes (.assignElement container key op tree))) :
    ReadsAssign target (tokens ++ ⟨kind, text, span⟩ :: more) := by
  intro limit fuel depth rest stops
  have here : Stops 1 (.token ⟨kind, text, span⟩ (rest.behind more)) := by
    refine stops_token fun found continues => ?_
    rw [continuing?_assignment written] at continues
    injection continues with same
    omega
  rw [TokenStream.behind_append, TokenStream.behind_cons]
  cases fuel with
  | zero => exact .inr (spent_assign _ _ _)
  | succ fuel =>
      have inner := one limit fuel (depth + 1) _ here
      by_cases failing :
          (ternary limit fuel (depth + 1)
            ((TokenStream.token ⟨kind, text, span⟩ (rest.behind more)).behind tokens)).1.Fails
      · exact .inr (fails_assign_of_ternary failing)
      · obtain ⟨meant, same⟩ := inner.resolve_right failing
        unfold assign
        simp only
        split
        · exact .inr (fails_broken _)
        · generalize ternary limit fuel (depth + 1) _ = outcome at meant same
          obtain ⟨access, left⟩ := outcome
          obtain rfl : left = _ := same
          have last := two limit fuel (depth + 1) rest stops
          simp only [assignment?_kind written]
          rcases assigns access meant with ⟨name, span, rfl, denotes⟩ | ⟨container, key, rfl, denotes⟩
          · rcases last with ⟨denotes', same⟩ | failing
            · exact .inl ⟨denotes _ denotes', same⟩
            · exact .inr (fails_assignName failing)
          · rcases last with ⟨denotes', same⟩ | failing
            · exact .inl ⟨denotes _ denotes', same⟩
            · exact .inr (fails_assignElement (.inr (.inr failing)))

/-! ## Elements and properties -/

/-- A bracket is taken with the key and the bracket behind it. -/
theorem morePostfixes_bracket {access : Access} :
    morePostfixes limit (fuel + 1) depth access (.token ⟨.openSquare, text, span⟩ rest) =
      let key := assign limit fuel depth rest
      match expect .closeSquare key.2 with
      | .error error =>
          (.value (.element (.element access.read key.1) (.broken error)), .broken error)
      | .ok (_, tokens) => morePostfixes limit fuel depth (.element access.read key.1) tokens := by
  exact (morePostfixes.eq_def _ _ _ _ _).trans rfl

/-- A point is taken with the name behind it. -/
theorem morePostfixes_point {access : Access} :
    morePostfixes limit (fuel + 1) depth access
        (.token ⟨.dot, text, span⟩ (.token ⟨.ident, text', span'⟩ rest)) =
      morePostfixes limit fuel depth
        (.element access.read (.string (Token.name ⟨.ident, text', span'⟩) span')) rest := by
  conv => lhs; unfold morePostfixes
  rfl

/-- An access in brackets is read with its key. -/
theorem postfix_element {container key : Term}
    (one : ReadsPostfix container.MeantBy tokens) (two : ReadsAssign key more) :
    ReadsPostfix (Term.element container key).ReadAs
      (tokens ++ ⟨.openSquare, text, span⟩ :: (more ++ [⟨.closeSquare, text', span'⟩])) := by
  intro limit fuel depth rest
  simp only [TokenStream.behind_append, TokenStream.behind_cons, TokenStream.behind_nil]
  rcases one limit fuel depth (.token ⟨.openSquare, text, span⟩
    ((TokenStream.token ⟨.closeSquare, text', span'⟩ rest).behind more)) with
    ⟨fuel', access, meant, same⟩ | failing
  · rw [same]
    cases fuel' with
    | zero => exact .inr (spent_morePostfixes _ _ _ _)
    | succ fuel' =>
        rw [morePostfixes_bracket]
        have inner := two limit fuel' depth (.token ⟨.closeSquare, text', span'⟩ rest)
          (stops_of_none rfl)
        generalize assign limit fuel' depth
          ((TokenStream.token ⟨.closeSquare, text', span'⟩ rest).behind more) = outcome at inner ⊢
        obtain ⟨tree, left⟩ := outcome
        rcases inner with ⟨denotes, same⟩ | failing
        · obtain rfl : left = _ := same
          exact .inl ⟨fuel', _, ⟨_, _, rfl, meant.read, denotes⟩, rfl⟩
        · simp only
          split
          · exact .inr (fails_element (.inl (fails_element (.inr failing))))
          · exact .inr (fails_morePostfixes limit (.inr failing))
  · exact .inr failing

/-- Behind a dot the key is a name. -/
theorem postfix_property {container : Term} (one : ReadsPostfix container.MeantBy tokens) :
    ReadsPostfix (Term.element container (.string (Token.name ⟨.ident, text', span'⟩))).ReadAs
      (tokens ++ [⟨.dot, text, span⟩, ⟨.ident, text', span'⟩]) := by
  intro limit fuel depth rest
  simp only [TokenStream.behind_append, TokenStream.behind_cons, TokenStream.behind_nil]
  rcases one limit fuel depth (.token ⟨.dot, text, span⟩ (.token ⟨.ident, text', span'⟩ rest)) with
    ⟨fuel', access, meant, same⟩ | failing
  · rw [same]
    cases fuel' with
    | zero => exact .inr (spent_morePostfixes _ _ _ _)
    | succ fuel' =>
        rw [morePostfixes_point]
        exact .inl ⟨fuel', _, ⟨_, _, rfl, meant.read, .string⟩, rfl⟩
  · exact .inr failing

/-! ## Array and object literals -/

/-- What was read before stays in the list. -/
theorem fails_exprList {closing : TokenKind} {trailing : Bool} {read : List Expr} {tree : Expr}
    {tokens : TokenStream} (inside : tree ∈ read) (failing : Fails (expr tree)) :
    Fails (exprs (exprList limit fuel depth closing trailing read tokens).1) := by
  induction fuel generalizing read tokens with
  | zero =>
      unfold exprList
      exact fails_exprs List.mem_cons_self (fails_broken _)
  | succ fuel ih =>
      unfold exprList
      simp only
      split
      · exact fails_exprs (List.mem_reverse.mpr inside) failing
      · split
        · exact ih (List.mem_cons_of_mem _ inside)
        · split
          · refine fails_exprs (List.mem_reverse.mpr ?_) failing
            exact List.mem_cons_of_mem _ (List.mem_cons_of_mem _ inside)
          · exact fails_exprs (List.mem_reverse.mpr (List.mem_cons_of_mem _ inside)) failing

/-- Items up to the bracket that closes them are read behind those before. -/
def ReadsItems (items : List Term) (tokens : List Token) : Prop :=
  ∀ limit fuel depth text span rest read,
    let outcome := exprList limit fuel depth .closeSquare true read
      ((TokenStream.token ⟨.closeSquare, text, span⟩ rest).behind tokens)
    (∃ trees, Term.DenotesAll items trees ∧ outcome = (read.reverse ++ trees, rest)) ∨
      Fails (exprs outcome.1)

theorem nextKind?_behind (opens : ∃ token more, tokens = token :: more ∧ token.kind ≠ .closeSquare)
    (rest : TokenStream) : (rest.behind tokens).nextKind? ≠ some .closeSquare := by
  obtain ⟨token, more, rfl, other⟩ := opens
  intro same
  injection same with same
  exact other same

/-- Without fuel no items are read. -/
theorem spent_exprList (limit depth : Nat) (closing : TokenKind) (trailing : Bool) (read : List Expr)
    (tokens : TokenStream) :
    Fails (exprs (exprList limit 0 depth closing trailing read tokens).1) := by
  unfold exprList
  exact fails_exprs List.mem_cons_self (fails_broken _)

/-- What is read behind an item: further ones if a comma follows, or else the closing bracket. -/
def moreItems (limit fuel depth : Nat) (read : List Expr) : TokenStream → List Expr × TokenStream
  | .token ⟨.comma, _, _⟩ rest => exprList limit fuel depth .closeSquare true read rest
  | tokens =>
      match expect .closeSquare tokens with
      | .error error => ((.broken error :: read).reverse, .broken error)
      | .ok (_, tokens) => (read.reverse, tokens)

theorem reads_item (reads : Readable 0 good term tokens) (rest : TokenStream) (stops : Stops 0 rest)
    (limit fuel depth : Nat) (read : List Expr) :
    let outcome := exprList limit (fuel + 1) depth .closeSquare true read (rest.behind tokens)
    (∃ tree, term.Denotes tree ∧ outcome = moreItems limit fuel depth (tree :: read) rest) ∨
      Fails (exprs outcome.1) := by
  unfold exprList
  simp only [nextKind?_behind reads.opens, false_and, ↓reduceIte]
  have inner := reads.assign limit fuel depth rest stops
  generalize Parser.assign limit fuel depth _ = outcome at inner ⊢
  obtain ⟨tree, left⟩ := outcome
  rcases inner with ⟨denotes, same⟩ | failing
  · obtain rfl : left = rest := same
    exact .inl ⟨tree, denotes, rfl⟩
  · right
    simp only
    split
    · exact fails_exprList List.mem_cons_self failing
    · split
      · refine fails_exprs (List.mem_reverse.mpr ?_) failing
        exact List.mem_cons_of_mem _ List.mem_cons_self
      · exact fails_exprs (List.mem_reverse.mpr List.mem_cons_self) failing

theorem items_last (reads : Readable 0 good term tokens) : ReadsItems [term] tokens := by
  intro limit fuel depth text span rest read
  cases fuel with
  | zero => exact .inr (spent_exprList _ _ _ _ _ _)
  | succ fuel =>
      rcases reads_item reads (.token ⟨.closeSquare, text, span⟩ rest) (stops_of_none rfl) limit fuel
        depth read with ⟨tree, denotes, same⟩ | failing
      · refine .inl ⟨[tree], .cons denotes .nil, ?_⟩
        rw [same, ← List.reverse_cons]
        rfl
      · exact .inr failing

theorem items_more {items : List Term} (reads : Readable 0 good term tokens)
    (others : ReadsItems items more) :
    ReadsItems (term :: items) (tokens ++ ⟨.comma, text, span⟩ :: more) := by
  intro limit fuel depth text' span' rest read
  rw [TokenStream.behind_append, TokenStream.behind_cons]
  cases fuel with
  | zero => exact .inr (spent_exprList _ _ _ _ _ _)
  | succ fuel =>
      rcases reads_item reads (.token ⟨.comma, text, span⟩ _) (stops_of_none rfl) limit fuel depth read
        with ⟨tree, denotes, same⟩ | failing
      · rw [same]
        rcases others limit fuel depth text' span' rest (tree :: read) with
          ⟨trees, all, same⟩ | failing
        · refine .inl ⟨tree :: trees, .cons denotes all, ?_⟩
          rw [List.reverse_cons, List.append_assoc] at same
          exact same
        · exact .inr failing
      · exact .inr failing

theorem primary_array {items : List Term} (reads : ReadsItems items tokens) :
    ReadsPrimary (Term.array items).ReadAs
      (⟨.openSquare, text, span⟩ :: (tokens ++ [⟨.closeSquare, text', span'⟩])) := by
  refine readsPrimary_of_fuel fun limit fuel depth rest => ?_
  have inner := reads limit fuel depth text' span' rest []
  unfold primary
  simp only [TokenStream.behind_cons, TokenStream.behind_append, TokenStream.behind_nil,
    TokenStream.peek, TokenStream.advance]
  generalize exprList limit fuel depth .closeSquare true [] _ = outcome at inner ⊢
  rcases inner with ⟨trees, all, rfl⟩ | failing
  · exact .inl ⟨⟨_, rfl, .array all⟩, rfl⟩
  · exact .inr (fails_array failing)

theorem primary_emptyArray :
    ReadsPrimary (Term.array []).ReadAs
      [⟨.openSquare, text, span⟩, ⟨.closeSquare, text', span'⟩] := by
  refine readsPrimary_of_fuel fun limit fuel depth rest => ?_
  unfold primary
  cases fuel with
  | zero => exact .inr (fails_array (spent_exprList _ _ _ _ _ _))
  | succ fuel =>
      unfold exprList
      exact .inl ⟨⟨_, rfl, .array .nil⟩, rfl⟩

/-- What was read before stays among the properties. -/
theorem fails_readEntries {read : List Entry} {tree : Entry} {tokens : TokenStream}
    (inside : tree ∈ read) (failing : Fails (entry tree)) :
    Fails (Compiling.entries (Parser.entries limit fuel depth read tokens).1) := by
  induction fuel generalizing read tokens with
  | zero =>
      unfold Parser.entries
      exact fails_entries List.mem_cons_self (fails_entry_broken _)
  | succ fuel ih =>
      have kept : ∀ first : Entry, tree ∈ (first :: read).reverse := fun first =>
        List.mem_reverse.mpr (List.mem_cons_of_mem _ inside)
      unfold Parser.entries
      simp only
      split
      · exact fails_entries (List.mem_reverse.mpr inside) failing
      · split
        · exact fails_entries (kept _) failing
        · split
          · exact fails_entries (kept _) failing
          · split
            · exact ih (List.mem_cons_of_mem _ inside)
            · split
              · refine fails_entries (List.mem_reverse.mpr ?_) failing
                exact List.mem_cons_of_mem _ (List.mem_cons_of_mem _ inside)
              · exact fails_entries (kept _) failing

/-- Properties up to the brace that closes them are read behind those before. -/
def ReadsProperties (properties : List Property) (tokens : List Token) : Prop :=
  ∀ limit fuel depth text span rest read,
    let outcome := Parser.entries limit fuel depth read
      ((TokenStream.token ⟨.closeCurly, text, span⟩ rest).behind tokens)
    (∃ trees, Term.DenotesProperties properties trees ∧ outcome = (read.reverse ++ trees, rest)) ∨
      Fails (Compiling.entries outcome.1)

/-- The name of a property is read, and does not close the literal. -/
theorem propertyKey_spelled {key : String} {token : Token} (spelled : Term.SpellsKey key token)
    (rest : TokenStream) :
    token.kind ≠ .closeCurly ∧
      Parser.entries.propertyKey (.token token rest) = .ok (key, token.span, rest) := by
  cases spelled with
  | word word =>
      rcases word with rfl | rfl
      · exact ⟨TokenKind.noConfusion, rfl⟩
      · exact ⟨TokenKind.noConfusion, rfl⟩
  | string known =>
      refine ⟨TokenKind.noConfusion, ?_⟩
      unfold Parser.entries.propertyKey
      simp only [TokenStream.peek, TokenStream.advance, bind, Except.bind, known]
      rfl

/-- Without fuel no properties are read. -/
theorem spent_entries (limit depth : Nat) (read : List Entry) (tokens : TokenStream) :
    Fails (Compiling.entries (Parser.entries limit 0 depth read tokens).1) := by
  unfold Parser.entries
  exact fails_entries List.mem_cons_self (fails_entry_broken _)

/-- What is read behind a property: further ones if a comma follows, or else the closing brace. -/
def moreEntries (limit fuel depth : Nat) (read : List Entry) :
    TokenStream → List Entry × TokenStream
  | .token ⟨.comma, _, _⟩ rest => Parser.entries limit fuel depth read rest
  | tokens =>
      match expect .closeCurly tokens with
      | .error error => ((.broken error :: read).reverse, .broken error)
      | .ok (_, tokens) => (read.reverse, tokens)

theorem reads_property {key : String} {value : Term} {token : Token}
    (spelled : Term.SpellsKey key token) (reads : ReadsAssign value tokens) (rest : TokenStream)
    (stops : Stops 0 rest) (limit fuel depth : Nat) (read : List Entry) :
    let outcome := Parser.entries limit (fuel + 1) depth read
      (rest.behind (token :: ⟨.colon, text, span⟩ :: tokens))
    (∃ tree, value.Denotes tree ∧
      outcome = moreEntries limit fuel depth (.property key token.span tree :: read) rest) ∨
        Fails (Compiling.entries outcome.1) := by
  obtain ⟨other, known⟩ := propertyKey_spelled spelled
    (.token ⟨.colon, text, span⟩ (rest.behind tokens))
  have goesOn : some token.kind ≠ some .closeCurly := fun same => other (Option.some.inj same)
  unfold Parser.entries
  simp only [TokenStream.behind_cons, TokenStream.nextKind?, goesOn, ↓reduceIte, known, expect,
    TokenStream.peek, TokenStream.advance, bind, Except.bind, pure, Except.pure]
  have inner := reads limit fuel depth rest stops
  generalize assign limit fuel depth _ = outcome at inner ⊢
  obtain ⟨tree, left⟩ := outcome
  rcases inner with ⟨denotes, same⟩ | failing
  · obtain rfl : left = rest := same
    exact .inl ⟨tree, denotes, rfl⟩
  · right
    have broken := @fails_property tree key token.span failing
    simp only
    split
    · exact fails_readEntries List.mem_cons_self broken
    · split
      · refine fails_entries (List.mem_reverse.mpr ?_) broken
        exact List.mem_cons_of_mem _ List.mem_cons_self
      · exact fails_entries (List.mem_reverse.mpr List.mem_cons_self) broken

theorem properties_last {key : String} {value : Term} {token : Token}
    (spelled : Term.SpellsKey key token) (reads : ReadsAssign value tokens) :
    ReadsProperties [.mk key value] (token :: ⟨.colon, text, span⟩ :: tokens) := by
  intro limit fuel depth text' span' rest read
  cases fuel with
  | zero => exact .inr (spent_entries _ _ _ _)
  | succ fuel =>
      rcases reads_property spelled reads (.token ⟨.closeCurly, text', span'⟩ rest)
        (stops_of_none rfl) limit fuel depth read with ⟨tree, denotes, same⟩ | failing
      · refine .inl ⟨[.property key token.span tree], .cons denotes .nil, ?_⟩
        rw [same, ← List.reverse_cons]
        rfl
      · exact .inr failing

theorem properties_more {key : String} {value : Term} {properties : List Property} {token : Token}
    (spelled : Term.SpellsKey key token) (reads : ReadsAssign value tokens)
    (others : ReadsProperties properties more) :
    ReadsProperties (.mk key value :: properties)
      (token :: ⟨.colon, text, span⟩ :: (tokens ++ ⟨.comma, text', span'⟩ :: more)) := by
  intro limit fuel depth closing closed rest read
  rw [← List.cons_append, ← List.cons_append, TokenStream.behind_append,
    TokenStream.behind_cons _ ⟨.comma, text', span'⟩]
  cases fuel with
  | zero => exact .inr (spent_entries _ _ _ _)
  | succ fuel =>
      rcases reads_property spelled reads (.token ⟨.comma, text', span'⟩ _) (stops_of_none rfl) limit
        fuel depth read with ⟨tree, denotes, same⟩ | failing
      · rw [same]
        rcases others limit fuel depth closing closed rest (.property key token.span tree :: read)
          with ⟨trees, all, same⟩ | failing
        · refine .inl ⟨.property key token.span tree :: trees, .cons denotes all, ?_⟩
          rw [List.reverse_cons, List.append_assoc] at same
          exact same
        · exact .inr failing
      · exact .inr failing

theorem primary_object {properties : List Property} (reads : ReadsProperties properties tokens) :
    ReadsPrimary (Term.object properties).ReadAs
      (⟨.openCurly, text, span⟩ :: (tokens ++ [⟨.closeCurly, text', span'⟩])) := by
  refine readsPrimary_of_fuel fun limit fuel depth rest => ?_
  have inner := reads limit fuel depth text' span' rest []
  unfold primary
  simp only [TokenStream.behind_cons, TokenStream.behind_append, TokenStream.behind_nil,
    TokenStream.peek, TokenStream.advance]
  generalize Parser.entries limit fuel depth [] _ = outcome at inner ⊢
  rcases inner with ⟨trees, all, rfl⟩ | failing
  · exact .inl ⟨⟨_, rfl, .object all⟩, rfl⟩
  · exact .inr (fails_object failing)

theorem primary_emptyObject :
    ReadsPrimary (Term.object []).ReadAs
      [⟨.openCurly, text, span⟩, ⟨.closeCurly, text', span'⟩] := by
  refine readsPrimary_of_fuel fun limit fuel depth rest => ?_
  unfold primary
  cases fuel with
  | zero => exact .inr (fails_object (spent_entries _ _ _ _))
  | succ fuel =>
      unfold Parser.entries
      exact .inl ⟨⟨_, rfl, .object .nil⟩, rfl⟩

/-! ## The recursion over the spelling -/

theorem opens_append (opens : ∃ token more, tokens = token :: more ∧ token.kind ≠ .closeSquare)
    (others : List Token) :
    ∃ token more, tokens ++ others = token :: more ∧ token.kind ≠ .closeSquare := by
  obtain ⟨token, rest, rfl, other⟩ := opens
  exact ⟨token, rest ++ others, rfl, other⟩

theorem startsOperand_append (starts : StartsOperand tokens) (others : List Token) :
    StartsOperand (tokens ++ others) := by
  obtain ⟨token, rest, rfl, operand⟩ := starts
  exact ⟨token, rest ++ others, rfl, operand⟩

theorem Readable.ternary (reads : Readable wanted good term tokens) (above : 2 ≤ wanted) :
    ReadsTernary 1 good tokens :=
  (reads.tight 0 (by omega) (by omega)).ternary

mutual

/-- The tokens of a term are read as it is. -/
theorem reads_spells {term : Term} {tokens : List Token} (spells : Term.Spells term tokens) :
    Readable term.level term.ReadAs term tokens := by
  cases spells with
  | @literal value =>
      refine .of_primary (primary_literal value) ?_ ?_
      · cases value <;> rfl
      · cases value <;> exact nofun
  | number known => exact .of_primary (primary_number known) rfl nofun
  | string known => exact .of_primary (primary_string known) rfl nofun
  | «variable» => exact .of_primary primary_variable rfl nofun
  | @unary op operand text span tokens spells =>
      have inner := reads_spellsAt spells
      refine .of_unary (unary_unary (inner.tight 10 (by omega) (by omega)).unary) (Nat.le_refl _)
        (fun _ read => read.meantBy) ⟨_, _, rfl, ?_⟩
      cases op <;> exact nofun
  | @binary op _ _ _ _ _ _ first second =>
      have one := reads_spellsAt first
      have two := reads_spellsAt second
      have inside := binary_level_lt op
      exact .of_infixed inside
        (infix_joined (infixAt?_binary op) (one.collected op.level inside (by omega))
          (two.tight (op.level + 1) (by omega) (by omega))
          fun _ _ left right => ⟨_, rfl, .binary left right⟩)
        (fun _ read => read.meantBy) (opens_append one.opens _)
  | @logical op _ _ _ _ _ _ first second =>
      have one := reads_spellsAt first
      have two := reads_spellsAt second
      have inside := logical_level_lt op
      exact .of_infixed inside
        (infix_joined (infixAt?_logical op) (one.collected op.level inside (by omega))
          (two.tight (op.level + 1) (by omega) (by omega))
          fun _ _ left right => ⟨_, rfl, .logical left right⟩)
        (fun _ read => read.meantBy) (opens_append one.opens _)
  | conditional test yes no =>
      have one := reads_spellsAt test
      exact .of_assign Nat.one_lt_two
        (assign_conditional (one.tight 0 (by omega) (by omega)) (reads_spellsAt yes).assign
          (reads_spellsAt no).assign)
        (opens_append one.opens _)
  | @assign _ _ _ text span _ _ _ written spells =>
      have one := Readable.of_primary (@primary_variable text span) rfl nofun
      refine .of_assign Nat.zero_lt_two
        (assign_target written (one.ternary (Nat.le_add_left 2 12)) (reads_spellsAt spells).assign ?_)
        (opens_append one.opens _)
      rintro access ⟨span, rfl⟩
      exact .inl ⟨_, span, rfl, fun tree denotes => .assign denotes⟩
  | assignElement written target value =>
      have one := reads_spells target
      refine .of_assign Nat.zero_lt_two
        (assign_target written (one.ternary (Nat.le_add_left 2 11)) (reads_spellsAt value).assign ?_)
        (opens_append one.opens _)
      rintro access ⟨first, second, rfl, container, key⟩
      exact .inr ⟨first, second, rfl, fun tree denotes => .assignElement container key denotes⟩
  | element container key =>
      have one := reads_spellsAt container
      obtain ⟨subject, starts⟩ := one.subject (Nat.le_refl _)
      exact .of_postfixed (postfix_element subject (reads_spellsAt key).assign)
        (startsOperand_append starts _) (fun _ read => read.meantBy) (opens_append one.opens _)
  | property container =>
      have one := reads_spellsAt container
      obtain ⟨subject, starts⟩ := one.subject (Nat.le_refl _)
      exact .of_postfixed (postfix_property subject) (startsOperand_append starts _)
        (fun _ read => read.meantBy) (opens_append one.opens _)
  | emptyArray => exact .of_primary primary_emptyArray rfl nofun
  | array items => exact .of_primary (primary_array (reads_spellsItems items)) rfl nofun
  | emptyObject => exact .of_primary primary_emptyObject rfl nofun
  | object properties =>
      exact .of_primary (primary_object (reads_spellsProperties properties)) rfl nofun
termination_by (tokens.length, 0)
decreasing_by all_goals simp only [List.length_append, List.length_cons, List.length_nil]; omega

/-- The tokens of an operand of a level are read on that level. -/
theorem reads_spellsAt {wanted : Nat} {term : Term} {tokens : List Token}
    (spells : Term.SpellsAt wanted term tokens) : Readable wanted term.MeantBy term tokens :=
  match spells with
  | .plain below spells => (reads_spells spells).plain below
  | .enclosed _ spells => .enclosed (reads_spells spells).assign
termination_by (tokens.length, 1)
decreasing_by
  · exact Prod.Lex.right _ Nat.zero_lt_one
  · simp only [List.length_append, List.length_cons, List.length_nil]
    omega

/-- Items are read back. -/
theorem reads_spellsItems {items : List Term} {tokens : List Token}
    (spells : Term.SpellsItems items tokens) : ReadsItems items tokens :=
  match spells with
  | .last item => items_last (reads_spellsAt item)
  | .more item others => items_more (reads_spellsAt item) (reads_spellsItems others)
termination_by (tokens.length, 2)
decreasing_by
  · exact Prod.Lex.right _ Nat.one_lt_two
  all_goals simp only [List.length_append, List.length_cons]; omega

/-- And so are properties. -/
theorem reads_spellsProperties {properties : List Property} {tokens : List Token}
    (spells : Term.SpellsProperties properties tokens) : ReadsProperties properties tokens := by
  cases spells with
  | last key value => exact properties_last key (reads_spellsAt value).assign
  | more key value others =>
      exact properties_more key (reads_spellsAt value).assign (reads_spellsProperties others)
termination_by (tokens.length, 2)
decreasing_by all_goals simp only [List.length_append, List.length_cons]; omega

end

end Parser

end PocketScript
