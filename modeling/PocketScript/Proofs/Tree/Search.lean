import PocketScript.Tree.Declarations

/-!
# How the search for names goes through tokens

The search for declared names reads tokens one by one, without a grammar. Where it stands is told by
a few counters; between the parts of a program these are in order (`Search.Settled`), and a part
leaves them as they were but for the names that it declares (`Search.Follows`). What each kind of
token does to the search is said here once.
-/

namespace PocketScript

namespace TokenKind

/-- Tokens that the search passes over. -/
def IsPlain : TokenKind → Bool
  | .openParen | .closeParen | .openCurly | .closeCurly | .openSquare | .closeSquare
  | .comma | .semicolon | .kwVar | .kwDef
  | .kwIf | .kwWhile | .kwFor | .kwReturn | .kwBreak | .kwContinue => false
  | _ => true

/-- Tokens at which the declarators of a `var` statement may end. -/
def EndsDeclarators : TokenKind → Bool
  | .semicolon | .kwIf | .kwWhile | .kwFor | .kwReturn | .kwBreak | .kwContinue => true
  | _ => false

def IsBracket : TokenKind → Bool
  | .openParen | .closeParen | .openCurly | .closeCurly | .openSquare | .closeSquare => true
  | _ => false

/-- One bracket closes the other. -/
inductive Closes : TokenKind → TokenKind → Prop
  | paren : Closes .openParen .closeParen
  | square : Closes .openSquare .closeSquare
  | curly : Closes .openCurly .closeCurly

/-- How many open braces a bracket adds. -/
def braces : TokenKind → Int
  | .openCurly => 1
  | _ => 0

end TokenKind

/-- No error comes next: neither a lexical one nor one that was put in the place of the tokens behind
a broken part. -/
def TokenStream.Clear : TokenStream → Prop
  | .flawed _ _ => False
  | _ => True

namespace Declarations

namespace Search

variable {before middle after state : Search} {inBody : Bool} {opening closing kind : TokenKind}
  {names more : List (String × Span)}

/-- No name is awaited, and the `var` statement whose declarators go on is around. -/
structure Calm (state : Search) : Prop where
  quiet : state.expectsName = false
  within : ∀ depth, state.declarators = some depth → depth ≤ state.brackets

/-- The search stands between two parts of a program: the body of an inner function that is passed
over is around, and so is the body that is searched. -/
structure Settled (inBody : Bool) (state : Search) : Prop extends Calm state where
  inner : ∀ depth, state.innerBody = some depth → depth ≤ state.braces
  body : inBody = true → 0 < state.braces

/-- A part of a program has been read that declares some names: they are found, unless an inner
function is passed over. -/
structure Follows (before : Search) (names : List (String × Span)) (after : Search) : Prop where
  passed : before.innerBody.isSome → after = before
  braces : after.braces = before.braces
  brackets : after.brackets = before.brackets
  innerBody : after.innerBody = before.innerBody
  found : before.innerBody = none → after.found = names.reverse ++ before.found

theorem Follows.refl (state : Search) : Follows state [] state :=
  ⟨fun _ => rfl, rfl, rfl, rfl, fun _ => rfl⟩

theorem Follows.trans (first : Follows before names middle) (second : Follows middle more after) :
    Follows before (names ++ more) after where
  passed passing := by
    have same := first.passed passing
    exact (second.passed (by rw [same]; exact passing)).trans same
  braces := second.braces.trans first.braces
  brackets := second.brackets.trans first.brackets
  innerBody := second.innerBody.trans first.innerBody
  found none := by
    rw [second.found (first.innerBody.trans none), first.found none, List.reverse_append,
      List.append_assoc]

/-- The search waits for the name of a declarator, unless an inner function is passed over. -/
def awaiting (state : Search) : Search :=
  match state.innerBody with
  | some _ => state
  | none => { state with declarators := some state.brackets, expectsName := true }

/-- The search has found the names of some declarators, and there may be more of them. -/
def noting (state : Search) (names : List (String × Span)) : Search :=
  match state.innerBody with
  | some _ => state
  | none =>
      { state with declarators := some state.brackets, found := names.reverse ++ state.found }

/-- The search has found the name of a function. -/
def naming (state : Search) (name : String × Span) : Search :=
  match state.innerBody with
  | some _ => state
  | none => { state with found := name :: state.found }

/-- The search passes over the parameters and the body of a function. -/
def passing (state : Search) : Search :=
  match state.innerBody with
  | some _ => state
  | none => { state with innerBody := some (state.braces + 1) }

/-- A settled search stays so when it notes names. -/
theorem Settled.noting (settled : state.Settled inBody) (names : List (String × Span)) :
    (state.noting names).Settled inBody := by
  obtain ⟨braces, brackets, innerBody, declarators, expectsName, found⟩ := state
  cases innerBody with
  | some depth => exact settled
  | none =>
      exact ⟨⟨settled.quiet, fun _ same => Int.le_of_eq (Option.some.inj same).symm⟩, nofun,
        settled.body⟩

/-- It has found them then. -/
theorem follows_noting (state : Search) (names : List (String × Span)) :
    Follows state names (state.noting names) := by
  obtain ⟨braces, brackets, innerBody, declarators, expectsName, found⟩ := state
  cases innerBody with
  | some depth => exact ⟨fun _ => rfl, rfl, rfl, rfl, nofun⟩
  | none => exact ⟨nofun, rfl, rfl, rfl, fun _ => rfl⟩

/-- Names may be noted in two parts. -/
theorem noting_noting (state : Search) (names more : List (String × Span)) :
    (state.noting names).noting more = state.noting (names ++ more) := by
  obtain ⟨braces, brackets, innerBody, declarators, expectsName, found⟩ := state
  cases innerBody with
  | some depth => rfl
  | none => simp only [noting, List.reverse_append, List.append_assoc]

/-- And so it stays when it names a function. -/
theorem Settled.naming (settled : state.Settled inBody) (name : String × Span) :
    (state.naming name).Settled inBody := by
  obtain ⟨braces, brackets, innerBody, declarators, expectsName, found⟩ := state
  cases innerBody with
  | some depth => exact settled
  | none => exact ⟨⟨settled.quiet, settled.within⟩, nofun, settled.body⟩

/-- It has found that name then. -/
theorem follows_naming (state : Search) (name : String × Span) :
    Follows state [name] (state.naming name) := by
  obtain ⟨braces, brackets, innerBody, declarators, expectsName, found⟩ := state
  cases innerBody with
  | some depth => exact ⟨fun _ => rfl, rfl, rfl, rfl, nofun⟩
  | none => exact ⟨nofun, rfl, rfl, rfl, fun _ => rfl⟩

theorem Settled.calm_passing (settled : state.Settled inBody) : state.passing.Calm := by
  obtain ⟨braces, brackets, innerBody, declarators, expectsName, found⟩ := state
  cases innerBody <;> exact ⟨settled.quiet, settled.within⟩

theorem isSome_passing (state : Search) : state.passing.innerBody.isSome := by
  obtain ⟨braces, brackets, innerBody, declarators, expectsName, found⟩ := state
  cases innerBody <;> rfl

/-! ## Brackets -/

theorem filter_eq_self {depth? : Option Int} {bound : Int}
    (all : ∀ depth, depth? = some depth → depth ≤ bound) :
    depth?.filter (fun depth => depth ≤ bound) = depth? := by
  cases depth? with
  | none => rfl
  | some depth => rw [Option.filter_some, if_pos (decide_eq_true (all depth rfl))]

/-- Tokens that are no brackets count for nothing. -/
theorem Calm.countBracket (calm : state.Calm) (none : kind.IsBracket = false) :
    state.countBracket kind = state := by
  have same : { state with
      declarators := state.declarators.filter fun depth => depth ≤ state.brackets } = state := by
    rw [filter_eq_self calm.within]
  cases kind <;> first | exact same | cases none

/-- Behind an opening bracket the declarators of a `var` statement do not go on. -/
theorem Calm.enter (calm : state.Calm) (closes : opening.Closes closing) :
    (state.countBracket opening).Calm ∧
      (state.countBracket opening).declarators ≠ some (state.countBracket opening).brackets := by
  have within : ∀ depth, state.declarators = some depth → depth ≤ state.brackets + 1 :=
    fun depth some => Int.le_trans (calm.within depth some) (Int.le_add_one (Int.le_refl _))
  cases closes <;>
  · refine ⟨⟨calm.quiet, ?_⟩, ?_⟩ <;> simp only [Search.countBracket, filter_eq_self within]
    · exact within
    · intro same
      have := calm.within _ same
      omega

/-- A settled search stays so inside brackets. -/
theorem Settled.enter (settled : state.Settled inBody) (closes : opening.Closes closing) :
    (state.countBracket opening).Settled inBody := by
  obtain ⟨calm, -⟩ := settled.toCalm.enter closes
  cases closes with
  | paren | square => exact ⟨calm, settled.inner, settled.body⟩
  | curly =>
      exact ⟨calm, fun depth some => Int.le_add_one (settled.inner depth some),
        fun inside => Int.lt_add_one_of_le (Int.le_of_lt (settled.body inside))⟩

/-- A closing bracket takes back what the opening one counted. -/
theorem Settled.leave (settled : state.Settled inBody) (closes : opening.Closes closing) :
    (state.countBracket opening).countBracket closing = state := by
  have within : ∀ depth, state.declarators = some depth → depth ≤ state.brackets + 1 :=
    fun depth some => Int.le_trans (settled.within depth some) (Int.le_add_one (Int.le_refl _))
  cases closes <;>
    simp only [countBracket, filter_eq_self within, Int.add_sub_cancel,
      filter_eq_self settled.within, filter_eq_self settled.inner]

/-- Behind a pair of parentheses it is as before. -/
theorem Calm.leave_paren (calm : state.Calm) :
    (state.countBracket .openParen).countBracket .closeParen = state := by
  have within : ∀ depth, state.declarators = some depth → depth ≤ state.brackets + 1 :=
    fun depth some => Int.le_trans (calm.within depth some) (Int.le_add_one (Int.le_refl _))
  simp only [Search.countBracket, filter_eq_self within, Int.add_sub_cancel,
    filter_eq_self calm.within]

/-- The closing brace of a function that is passed over ends its body. -/
theorem Settled.leave_passing (settled : state.Settled inBody) :
    (state.passing.countBracket .openCurly).countBracket .closeCurly = state := by
  obtain ⟨braces, brackets, innerBody, declarators, expectsName, found⟩ := state
  have within : ∀ depth, declarators = some depth → depth ≤ brackets := settled.within
  have within' : ∀ depth, declarators = some depth → depth ≤ brackets + 1 :=
    fun depth some => Int.le_trans (within depth some) (Int.le_add_one (Int.le_refl _))
  have outside : ¬ braces + 1 ≤ braces := by omega
  cases innerBody with
  | some depth => exact settled.leave .curly
  | none =>
      change Search.mk (braces + 1 - 1) (brackets + 1 - 1)
        ((some (braces + 1)).filter fun depth => depth ≤ braces + 1 - 1)
        ((declarators.filter fun depth => depth ≤ brackets + 1).filter
          fun depth => depth ≤ brackets + 1 - 1) expectsName found = _
      rw [Int.add_sub_cancel, Int.add_sub_cancel, filter_eq_self within', filter_eq_self within,
        Option.filter_some, if_neg (by rw [decide_eq_true_iff]; exact outside)]

/-- And so it is inside the braces of a function. -/
theorem Settled.enter_passing (settled : state.Settled inBody) :
    (state.passing.countBracket .openCurly).Settled inBody := by
  obtain ⟨calm, -⟩ := settled.calm_passing.enter .curly
  obtain ⟨braces, brackets, innerBody, declarators, expectsName, found⟩ := state
  cases innerBody with
  | some depth => exact settled.enter .curly
  | none =>
      exact ⟨calm, fun depth same => Int.le_of_eq (Option.some.inj same).symm,
        fun inside => Int.lt_add_one_of_le (Int.le_of_lt (settled.body inside))⟩

/-- An opening bracket adds one to the depth. -/
theorem countBracket_opening (state : Search) (closes : opening.Closes closing) :
    (state.countBracket opening).braces = state.braces + opening.braces ∧
      (state.countBracket opening).brackets = state.brackets + 1 ∧
        (state.countBracket opening).innerBody = state.innerBody ∧
          (state.countBracket opening).found = state.found := by
  cases closes with
  | paren | square => exact ⟨(Int.add_zero _).symm, rfl, rfl, rfl⟩
  | curly => exact ⟨rfl, rfl, rfl, rfl⟩

/-- And a closing one takes it away. -/
theorem countBracket_closing (state : Search) (closes : opening.Closes closing) :
    (state.countBracket closing).braces = state.braces - opening.braces ∧
      (state.countBracket closing).brackets = state.brackets - 1 ∧
        (state.innerBody = none → (state.countBracket closing).innerBody = none) ∧
          (state.countBracket closing).found = state.found ∧
            (state.countBracket closing).expectsName = state.expectsName ∧
              ∀ depth, (state.countBracket closing).declarators = some depth →
                depth ≤ (state.countBracket closing).brackets := by
  have within {depth? : Option Int} {bound : Int} : ∀ depth,
      depth?.filter (fun depth => depth ≤ bound) = some depth → depth ≤ bound :=
    fun depth some => of_decide_eq_true (Option.filter_eq_some_iff.mp some).2
  cases closes with
  | paren | square => exact ⟨(Int.sub_zero _).symm, rfl, id, rfl, rfl, within⟩
  | curly =>
      refine ⟨rfl, rfl, fun none => ?_, rfl, rfl, within⟩
      change state.innerBody.filter _ = Option.none
      rw [none, Option.filter_none]

/-- What stands between brackets declares its names. -/
theorem Follows.leave (follows : Follows (before.countBracket opening) names after)
    (settled : before.Settled inBody) (quiet : after.expectsName = false)
    (closes : opening.Closes closing) :
    Follows before names (after.countBracket closing) ∧
      (after.countBracket closing).Settled inBody := by
  obtain ⟨braces, brackets, innerBody, found⟩ := countBracket_opening before closes
  cases inner : before.innerBody with
  | some depth =>
      obtain rfl := follows.passed (by rw [innerBody, inner]; rfl)
      rw [settled.leave closes]
      exact ⟨⟨fun _ => rfl, rfl, rfl, rfl, fun none => by cases inner.symm.trans none⟩, settled⟩
  | none =>
      obtain ⟨braces', brackets', innerBody', found', quiet', within⟩ :=
        countBracket_closing after closes
      have none := innerBody' (follows.innerBody.trans (innerBody.trans inner))
      rw [follows.braces, braces, Int.add_sub_cancel] at braces'
      rw [follows.brackets, brackets, Int.add_sub_cancel] at brackets'
      rw [follows.found (innerBody.trans inner), found] at found'
      refine ⟨⟨fun some => ?_, braces', brackets', none.trans inner.symm, fun _ => found'⟩,
        ⟨quiet'.trans quiet, within⟩, fun depth some => ?_, fun inside => ?_⟩
      · rw [inner] at some
        cases some
      · cases none.symm.trans some
      · rw [braces']
        exact settled.body inside

/-! ## Tokens -/

/-- A plain token declares nothing. -/
theorem declare_of_isPlain (plain : kind.IsPlain = true) (next : Except CompileError Token) :
    state.declare kind next = state := by
  cases kind <;> first | rfl | cases plain

/-- Nor does a bracket. -/
theorem declare_of_isBracket (bracket : kind.IsBracket = true) (next : Except CompileError Token) :
    state.declare kind next = state := by
  cases kind <;> first | rfl | cases bracket

end Search

open Search

variable {state before after : Search} {inBody : Bool} {token : Token} {rest : TokenStream}
  {opening closing : TokenKind}

/-- A token that is not awaited is counted, and counts for the names outside inner functions. -/
theorem search_token (quiet : state.expectsName = false)
    (clear : token.kind = .kwDef → rest.Clear) :
    search inBody state (.token token rest) =
      if inBody ∧ token.kind = .closeCurly ∧ (state.countBracket token.kind).braces ≤ 0 then
        (state.countBracket token.kind).found.reverse
      else if (state.countBracket token.kind).innerBody.isSome then
        search inBody (state.countBracket token.kind) rest
      else search inBody ((state.countBracket token.kind).declare token.kind rest.peek) rest := by
  have same : { state with expectsName := false } = state := by
    rw [← quiet]
  rw [search, quiet, if_neg (by simp), same]
  dsimp only
  split
  · rfl
  · split
    · rfl
    · split
      · rename_i error beyond kind
        exact absurd (clear kind) id
      · rfl

/-- So plain tokens are passed over. -/
theorem search_plain (calm : state.Calm) (plain : token.kind.IsPlain = true) :
    search inBody state (.token token rest) = search inBody state rest := by
  have noBracket : token.kind.IsBracket = false := by
    generalize token.kind = kind at plain
    cases kind <;> first | rfl | cases plain
  have notDef : token.kind ≠ .kwDef := fun same => by rw [same] at plain; cases plain
  have notClosing : ¬ (inBody = true ∧ token.kind = .closeCurly ∧ state.braces ≤ 0) :=
    fun ⟨_, same, _⟩ => by rw [same] at plain; cases plain
  rw [search_token calm.quiet fun same => absurd same notDef, calm.countBracket noBracket,
    if_neg notClosing, declare_of_isPlain plain, ite_self]

/-- A comma counts only among the declarators of a `var` statement. -/
theorem search_comma (calm : state.Calm) (comma : token.kind = .comma)
    (among : state.innerBody.isSome ∨ state.declarators ≠ some state.brackets) :
    search inBody state (.token token rest) = search inBody state rest := by
  rw [search_token calm.quiet fun same => absurd (comma.symm.trans same) nofun, comma,
    calm.countBracket rfl, if_neg (by simp)]
  split
  · rfl
  · rename_i searching
    rw [Search.declare, if_neg (among.resolve_left searching)]

/-- An opening bracket is counted. -/
theorem search_opening (calm : state.Calm) (closes : opening.Closes closing)
    (kind : token.kind = opening) :
    search inBody state (.token token rest) = search inBody (state.countBracket opening) rest := by
  have bracket : opening.IsBracket = true := by cases closes <;> rfl
  rw [search_token calm.quiet fun same => ?_, kind, declare_of_isBracket bracket, ite_self, if_neg]
  · rintro ⟨-, same, -⟩
    cases closes <;> cases same
  · cases closes <;> cases kind.symm.trans same

theorem search_closing (calm : state.Calm) (closes : opening.Closes closing)
    (kind : token.kind = closing)
    (body : inBody = true → closing = .closeCurly → 0 < (state.countBracket closing).braces) :
    search inBody state (.token token rest) = search inBody (state.countBracket closing) rest := by
  have bracket : closing.IsBracket = true := by cases closes <;> rfl
  rw [search_token calm.quiet fun same => ?_, kind, declare_of_isBracket bracket, ite_self, if_neg]
  · rintro ⟨inside, curly, ended⟩
    exact absurd (body inside curly) (Int.not_lt.mpr ended)
  · cases closes <;> cases kind.symm.trans same

/-- The search for the names of a function ends with its body. -/
theorem search_ending (calm : state.Calm) (kind : token.kind = .closeCurly)
    (braces : state.braces = 1) :
    search true state (.token token rest) = state.found.reverse := by
  rw [search_token calm.quiet fun same => absurd (kind.symm.trans same) nofun, kind, if_pos]
  · rfl
  · refine ⟨rfl, rfl, ?_⟩
    change state.braces - 1 ≤ 0
    rw [braces]
    exact Int.le_refl _

/-- Brackets that close what they open are passed over with what stands between them. -/
theorem search_enclosed (settled : state.Settled inBody) (closes : opening.Closes closing)
    (kind : token.kind = closing) :
    search inBody (state.countBracket opening) (.token token rest) = search inBody state rest := by
  rw [search_closing (settled.toCalm.enter closes).1 closes kind fun inside _ => ?_,
    settled.leave closes]
  rw [settled.leave closes]
  exact settled.body inside

/-- The declarators of a `var` statement may end with a token that ends statements, or starts one. -/
theorem search_endsDeclarators (settled : state.Settled inBody)
    (ends : token.kind.EndsDeclarators = true) :
    ∃ after, after.Settled inBody ∧ state.Follows [] after ∧
      search inBody state (.token token rest) = search inBody after rest := by
  have noBracket : token.kind.IsBracket = false := by
    generalize token.kind = kind at ends
    cases kind <;> first | rfl | cases ends
  have notDef : token.kind ≠ .kwDef := fun same => by rw [same] at ends; cases ends
  have notClosing : ¬ (inBody = true ∧ token.kind = .closeCurly ∧ state.braces ≤ 0) :=
    fun ⟨_, same, _⟩ => by rw [same] at ends; cases ends
  rw [search_token settled.quiet fun same => absurd same notDef,
    settled.countBracket noBracket, if_neg notClosing]
  split
  · exact ⟨state, settled, .refl _, rfl⟩
  · rename_i searching
    have none : state.innerBody = none := Option.not_isSome_iff_eq_none.mp searching
    have ended : { state with declarators := Option.none }.Settled inBody :=
      ⟨⟨settled.quiet, nofun⟩, settled.inner, settled.body⟩
    have follows : state.Follows [] { state with declarators := Option.none } :=
      ⟨fun some => absurd some searching, rfl, rfl, rfl, fun _ => rfl⟩
    have either : state.declare token.kind rest.peek = state ∨
        state.declare token.kind rest.peek = { state with declarators := Option.none } := by
      generalize token.kind = kind at ends
      cases kind with
      | semicolon =>
          rw [Search.declare]
          split
          · exact .inr rfl
          · exact .inl rfl
      | kwIf | kwWhile | kwFor | kwReturn | kwBreak | kwContinue => exact .inr rfl
      | _ => cases ends
    obtain same | same := either
    · exact ⟨state, settled, .refl _, by rw [same]⟩
    · exact ⟨_, ended, follows, by rw [same]⟩

/-! ## Declarations -/

/-- Behind `var` a name is awaited. -/
theorem search_var (settled : state.Settled inBody) (kind : token.kind = .kwVar) :
    search inBody state (.token token rest) = search inBody state.awaiting rest := by
  rw [search_token settled.quiet fun same => absurd (kind.symm.trans same) nofun, kind,
    settled.countBracket rfl, if_neg (by simp)]
  obtain ⟨braces, brackets, innerBody, declarators, expectsName, found⟩ := state
  cases innerBody with
  | some depth => rfl
  | none =>
      rw [if_neg (by simp)]
      rfl

/-- The name that comes is noted. -/
theorem search_declared (settled : state.Settled inBody) (kind : token.kind = .ident) :
    search inBody state.awaiting (.token token rest) =
      search inBody (state.noting [(token.name, token.span)]) rest := by
  obtain ⟨braces, brackets, innerBody, declarators, expectsName, found⟩ := state
  obtain rfl : expectsName = false := settled.quiet
  cases innerBody with
  | some depth => exact search_plain settled.toCalm (by rw [kind]; rfl)
  | none =>
      rw [awaiting, search, if_pos ⟨rfl, kind⟩]
      rfl

/-- Behind a comma the next declarator is awaited. -/
theorem search_noting (settled : state.Settled inBody) (kind : token.kind = .comma)
    (names : List (String × Span)) :
    search inBody (state.noting names) (.token token rest) =
      search inBody (state.noting names).awaiting rest := by
  have calm := (settled.noting names).toCalm
  rw [search_token calm.quiet fun same => absurd (kind.symm.trans same) nofun, kind,
    calm.countBracket rfl, if_neg (by simp)]
  obtain ⟨braces, brackets, innerBody, declarators, expectsName, found⟩ := state
  cases innerBody with
  | some depth => rfl
  | none =>
      have among : (noting ⟨braces, brackets, none, declarators, expectsName, found⟩ names).declarators
          = some (noting ⟨braces, brackets, none, declarators, expectsName, found⟩ names).brackets :=
        rfl
      rw [if_neg (by simp [noting]), Search.declare, if_pos among]
      rfl

/-- A function without a name declares none. -/
theorem search_function (settled : state.Settled inBody) (kind : token.kind = .kwDef)
    (next : rest.nextKind? = some .openParen) :
    search inBody state (.token token rest) = search inBody state.passing rest := by
  cases rest with
  | flawed error beyond => cases next
  | ended position => cases next
  | token head rest =>
      have clear : (TokenStream.token head rest).Clear := trivial
      rw [search_token settled.quiet fun _ => clear, kind, settled.countBracket rfl,
        if_neg (by simp)]
      obtain ⟨braces, brackets, innerBody, declarators, expectsName, found⟩ := state
      cases innerBody with
      | some depth => rfl
      | none =>
          have other : head.kind ≠ .ident := fun same => by
            rw [TokenStream.nextKind?, same] at next
            cases next
          rw [if_neg (by simp), TokenStream.peek, Search.declare, if_neg other]
          rfl

/-- A function with a name declares it. -/
theorem search_define {ident : Token} (settled : state.Settled inBody)
    (kind : token.kind = .kwDef) (named : ident.kind = .ident) :
    search inBody state (.token token (.token ident rest)) =
      search inBody (state.naming (ident.name, ident.span)).passing rest := by
  have clear : (TokenStream.token ident rest).Clear := trivial
  rw [search_token settled.quiet fun _ => clear, kind, settled.countBracket rfl,
    if_neg (by simp)]
  have plain : ident.kind.IsPlain = true := by rw [named]; rfl
  obtain ⟨braces, brackets, innerBody, declarators, expectsName, found⟩ := state
  cases innerBody with
  | some depth => exact search_plain settled.toCalm plain
  | none =>
      rw [if_neg (by simp), TokenStream.peek, Search.declare, if_pos named]
      exact search_plain ⟨settled.quiet, settled.within⟩ plain

end Declarations

end PocketScript
