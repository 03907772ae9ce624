import PocketScript.Proofs.Compile.Declared
import PocketScript.Proofs.Tree.Alike

/-!
# Like trees are compiled alike

Two compilations are followed side by side: of trees that are the same but for their spans, the first
perhaps within stricter limits and with fewer globals known. As neither spans nor limits get into what
a compilation has produced, both stand at the same state after every step, until they object for the
same reason at like places, or the first one does so alone (`Comparison.runs_unit`).
-/

namespace PocketScript

/-! ## Names and constants within wider limits

How many slots, captures and constants there may be decides only whether there is room for another
one. -/

/-- What succeeds with less room does so in the same way with more; it fails only as is expected. -/
inductive SameWithin (fails : Complaint → Prop) {α : Type} :
    Except Complaint α → Except Complaint α → Prop
  | done (result) : SameWithin fails (.ok result) (.ok result)
  | full {complaint outcome} : fails complaint → SameWithin fails (.error complaint) outcome

/-- Steps in a row do the same when each of them does, as long as there is room. -/
theorem SameWithin.bind {fails : Complaint → Prop} {α β : Type} {one other : Except Complaint α}
    {next : α → Except Complaint β} {next' : α → Except Complaint β}
    (first : SameWithin fails one other)
    (second : ∀ result, SameWithin fails (next result) (next' result)) :
    SameWithin fails (one >>= next) (other >>= next') := by
  cases first with
  | done result => exact second result
  | full reason => exact .full reason

/-- A constant that finds room in a table gets the same index with more room. -/
theorem ConstantTable.add_wider {α : Type} [BEq α] [LawfulBEq α] [Hashable α]
    {table after : ConstantTable α} {item : α} {index : UInt16} {limit limit' : Nat}
    (wider : limit ≤ limit') (added : table.add limit item = (some index, after)) :
    table.add limit' item = (some index, after) := by
  unfold add at added ⊢
  split at added
  · exact added
  · split at added
    · cases added
    · rename_i room
      rw [dif_neg (by omega)]
      exact added

namespace FunctionScope

variable (scope : FunctionScope) (name : String) {limit limit' : Nat} (wider : limit ≤ limit')

include wider

/-- A name gets the same slot with more room. -/
theorem declare_wider :
    SameWithin (· = .tooManyLocals) (scope.declare limit name) (scope.declare limit' name) := by
  unfold declare
  split
  · exact .done _
  · dsimp only
    by_cases full : limit ≤ scope.slots.size ∨ 65535 ≤ scope.slots.size
    · rw [if_pos full]
      exact .full rfl
    · rw [if_neg full, if_neg (by omega)]
      exact .done _

/-- And so does a parameter, unless its name is taken. -/
theorem declareParameter_wider :
    SameWithin (fun complaint => complaint = .duplicateParameter ∨ complaint = .tooManyLocals)
      (scope.declareParameter limit name) (scope.declareParameter limit' name) := by
  unfold declareParameter
  split
  · exact .full (.inl rfl)
  · have declared := scope.declare_wider name wider
    generalize scope.declare limit name = one, scope.declare limit' name = other at declared
    cases declared with
    | done result => exact .done _
    | full reason => exact .full (.inr reason)

/-- A capture gets the same index with more room. -/
theorem capture_wider (source : CaptureSource) :
    SameWithin (· = .tooManyCaptures) (scope.capture limit source)
      (scope.capture limit' source) := by
  unfold capture
  split
  · exact .done _
  · dsimp only
    by_cases full : limit ≤ scope.captures.size
    · rw [if_pos full]
      exact .full rfl
    · rw [if_neg full, if_neg (by omega)]
      exact .done _

end FunctionScope

namespace Scopes

variable {limit limit' : Nat} (wider : limit ≤ limit') (name : String)

include wider

/-- A name that is captured through several functions is found by the same captures. -/
theorem captureFrom_wider (scope : FunctionScope) (outer : Scopes) :
    SameWithin (· = .tooManyCaptures) (captureFrom limit name scope outer)
      (captureFrom limit' name scope outer) := by
  induction outer generalizing scope with
  | nil => exact .done _
  | cons next rest ih =>
      rw [captureFrom, captureFrom]
      split
      · exact (scope.capture_wider wider _).bind fun _ => .done _
      · refine (ih next).bind fun result => ?_
        obtain ⟨through, next, rest⟩ := result
        cases through with
        | none => exact .done _
        | some through => exact (scope.capture_wider wider _).bind fun _ => .done _

/-- And so every name that resolves does so to the same place. -/
theorem resolve_wider (scopes : Scopes) :
    SameWithin (· = .tooManyCaptures) (resolve limit name scopes) (resolve limit' name scopes) := by
  cases scopes with
  | nil => exact .done _
  | cons scope outer =>
      rw [resolve, resolve]
      split
      · exact .done _
      · refine (captureFrom_wider wider name scope outer).bind fun result => ?_
        obtain ⟨found, scope, outer⟩ := result
        cases found <;> exact .done _

end Scopes

/-! ## Side by side -/

/-- Limits that are nowhere above others. -/
structure CompileLimits.Within (one other : CompileLimits) : Prop where
  maxLocals : one.maxLocals ≤ other.maxLocals
  maxExprDepth : one.maxExprDepth ≤ other.maxExprDepth
  maxConstants : one.maxConstants ≤ other.maxConstants

/-- Every compilation is within its own limits. -/
theorem CompileLimits.Within.refl (limits : CompileLimits) : limits.Within limits :=
  ⟨Nat.le_refl _, Nat.le_refl _, Nat.le_refl _⟩

/-- Two compilations that are compared: which texts they have in common, and what each takes for
granted. -/
structure Comparison where
  like : Likeness
  one : CompileContext
  other : CompileContext
  within : one.limits.Within other.limits
  known : ∀ name, one.isKnownGlobal name → other.isKnownGlobal name
  /-- The first may object alone. -/
  lenient : Prop
  strict : lenient ∨ other = one

namespace Comparison

variable (pair : Comparison) {α β : Type}

/-- Both compilations have the same result, or both object for the same reason at like places, or the
first objects alone. -/
inductive Ends : Except CompileError α → Except CompileError α → Prop
  | same (result) : Ends (.ok result) (.ok result)
  | failed {error error'} : pair.like.Error error error' → Ends (.error error) (.error error')
  | adrift {error outcome} : pair.lenient → Ends (.error error) outcome

/-- The steps of both end in the same way, wherever both start from. -/
def Runs (step step' : Compiling α) : Prop :=
  ∀ state, pair.Ends (step pair.one state) (step' pair.other state)

variable {pair}

/-- Two steps that only return a result stay together. -/
theorem runs_pure (result : α) : pair.Runs (pure result) (pure result) := fun _ => .same _

/-- Two pairs of steps in a row stay together. -/
theorem runs_bind {step step' : Compiling α} {next next' : α → Compiling β}
    (first : pair.Runs step step') (second : ∀ result, pair.Runs (next result) (next' result)) :
    pair.Runs (step >>= next) (step' >>= next') := by
  intro state
  change pair.Ends (step pair.one state >>= fun done => next done.1 pair.one done.2)
    (step' pair.other state >>= fun done => next' done.1 pair.other done.2)
  have here := first state
  generalize step pair.one state = one, step' pair.other state = other at here
  cases here with
  | same done => exact second done.1 done.2
  | failed error => exact .failed error
  | adrift may => exact .adrift may

/-- To look at the state keeps both together, as it is the same. -/
theorem runs_get : pair.Runs get get := fun _ => .same _

/-- What follows may depend on what is taken for granted. -/
theorem runs_read {next next' : CompileContext → Compiling α}
    (second : pair.Runs (next pair.one) (next' pair.other)) :
    pair.Runs (read >>= next) (read >>= next') := second

/-- The same change is made on both sides. -/
theorem runs_modify (change : Compilation → Compilation) :
    pair.Runs (modify change : Compiling Unit) (modify change) := fun _ => .same _

/-- Both sides may fail with like errors. -/
theorem runs_throw {error error' : CompileError} (errors : pair.like.Error error error') :
    pair.Runs (throw error : Compiling α) (throw error') := fun _ => .failed errors

variable {role : Token → Prop} {span span' : Span}

/-- Both sides may object for the same reason, at like tokens. -/
theorem runs_complain {complaint : Complaint} (spans : pair.like.Span role span span')
    (concerns : ∀ token, role token → complaint.Concerns token) :
    pair.Runs (Compiling.complain complaint span : Compiling α)
      (Compiling.complain complaint span') := runs_throw (spans.error concerns)

/-- A complaint that stricter limits may be the reason for. -/
theorem runs_complain_strict {complaint : Complaint} {step : Compiling α}
    (spans : pair.like.Span role span span')
    (concerns : ∀ token, role token → complaint.Concerns token)
    (same : pair.other = pair.one → step = Compiling.complain complaint span') :
    pair.Runs (Compiling.complain complaint span) step := by
  rcases pair.strict with may | equal
  · exact fun _ => .adrift may
  · rw [same equal]
    exact runs_complain spans concerns

/-- Where the stricter side finds no room, it objects alone, at a token that the complaint
concerns. -/
theorem runs_orComplain {fails : Complaint → Prop} {outcome outcome' : Except Complaint α}
    (within : SameWithin fails outcome outcome') (same : pair.other = pair.one → outcome' = outcome)
    (spans : pair.like.Span role span span')
    (concerns : ∀ complaint, fails complaint → ∀ token, role token → complaint.Concerns token) :
    pair.Runs (Compiling.orComplain span outcome) (Compiling.orComplain span' outcome') := by
  cases within with
  | done result => exact runs_pure result
  | full reason =>
      exact runs_complain_strict spans (concerns _ reason) fun equal => by rw [same equal]; rfl

/-! ## Code -/

open Compiling

/-- The assembler is changed in the same way. -/
theorem runs_assemble (change : Assembler → Assembler) :
    pair.Runs (assemble change) (assemble change) := runs_modify _

/-- Both sides emit the same instruction. -/
theorem runs_emit (op : Opcode) (a b : UInt16) : pair.Runs (emit op a b) (emit op a b) :=
  runs_assemble _

/-- New labels are the same on both sides. -/
theorem runs_newLabel : pair.Runs newLabel newLabel := fun _ => .same _

/-- And so is the depth of the stack. -/
theorem runs_depth : pair.Runs depth depth := fun _ => .same _

/-- Both sides are at the top level or in a function. -/
theorem runs_isTopLevel : pair.Runs isTopLevel isTopLevel := fun _ => .same _

/-! ## Constants and names -/

/-- The place of a constant, or a complaint where the table is full. -/
def placeOf (complaint : Complaint) (span : Span)
    (add : Compilation → Option UInt16 × Compilation) : Compiling UInt16 := do
  match ← modifyGet add with
  | none => complain complaint span
  | some index => pure index

/-- A constant is placed, or there is an objection that the table is full. -/
theorem placeOf_run (complaint : Complaint) (span : Span)
    (add : Compilation → Option UInt16 × Compilation) (context : CompileContext)
    (state : Compilation) :
    placeOf complaint span add context state =
      match add state with
      | (none, _) => .error { complaint, span }
      | (some index, after) => .ok (index, after) := by
  change (match (add state).1 with
    | none => complain complaint span
    | some index => pure index : Compiling UInt16) context (add state).2 = _
  rcases add state with ⟨_ | index, after⟩ <;> rfl

/-- The table of one compilation may be full before that of the other is. -/
theorem runs_placeOf {complaint : Complaint} {add add' : Compilation → Option UInt16 × Compilation}
    (wider : ∀ state index after, add state = (some index, after) →
      add' state = (some index, after))
    (same : pair.other = pair.one → add' = add) (spans : pair.like.Span role span span')
    (concerns : ∀ token, role token → complaint.Concerns token) :
    pair.Runs (placeOf complaint span add) (placeOf complaint span' add') := by
  intro state
  rw [placeOf_run, placeOf_run]
  cases added : add state with
  | mk place after =>
      cases place with
      | some index =>
          rw [wider state index after added]
          exact .same _
      | none =>
          rcases pair.strict with may | equal
          · exact .adrift may
          · rw [same equal, added]
            exact .failed (spans.error concerns)

/-- A number gets the same index on both sides. -/
theorem runs_addNumber (value : Number) (spans : pair.like.Span (·.kind = .number) span span') :
    pair.Runs (addNumber value span) (addNumber value span') := by
  refine runs_read (runs_placeOf ?_ (fun equal => by rw [equal]) spans fun _ => id)
  intro state index after added
  cases found : state.numbers.add pair.one.limits.maxConstants value with
  | mk place numbers =>
      rw [found] at added
      cases added
      rw [ConstantTable.add_wider pair.within.maxConstants found]

/-- And so does a string. -/
theorem runs_addString (value : String) (spans : pair.like.Span Token.IsText span span') :
    pair.Runs (addString value span) (addString value span') := by
  refine runs_read (runs_placeOf ?_ (fun equal => by rw [equal]) spans fun _ => id)
  intro state index after added
  cases found : state.strings.add pair.one.limits.maxConstants value with
  | mk place strings =>
      rw [found] at added
      cases added
      rw [ConstantTable.add_wider pair.within.maxConstants found]

/-- The wider side has at least as many slots for each function. -/
theorem within_slotLimit :
    max pair.one.limits.maxLocals 1 ≤ max pair.other.limits.maxLocals 1 :=
  max_le_max_right 1 pair.within.maxLocals

/-- A name resolves to the same place, or the stricter side is out of captures. -/
theorem runs_resolve (name : String) (spans : pair.like.Span (·.kind = .ident) span span') :
    pair.Runs (resolve name span) (resolve name span') := by
  refine runs_read (runs_bind runs_get fun state => runs_bind ?_ fun found => ?_)
  · refine runs_orComplain (Scopes.resolve_wider within_slotLimit name state.scopes)
      (fun equal => by rw [equal]) spans ?_
    rintro _ rfl _ kind
    exact kind
  · exact runs_bind (runs_modify _) fun _ => runs_pure _

/-- A name is declared in the same slot, or the stricter side is out of slots. -/
theorem runs_declareSlot (name : String) (spans : pair.like.Span (·.kind = .ident) span span') :
    pair.Runs (declareSlot name span) (declareSlot name span') := by
  refine runs_bind runs_get fun state => ?_
  split
  · exact runs_pure _
  · rename_i scope outer _
    refine runs_read (runs_bind ?_ fun found => ?_)
    · refine runs_orComplain (scope.declare_wider name within_slotLimit)
        (fun equal => by rw [equal]) spans ?_
      rintro _ rfl _ kind
      exact kind
    · exact runs_bind (runs_modify _) fun _ => runs_pure _

/-- The same parameters get the same slots. -/
theorem runs_declareParams {names names' : List (String × Span)}
    (alike : List.Forall₂ pair.like.Name names names') :
    pair.Runs (declareParams names) (declareParams names') := by
  induction alike with
  | nil => exact runs_pure _
  | @cons first first' rest rest' head _ ih =>
      obtain ⟨name, span⟩ := first
      obtain ⟨name', span'⟩ := first'
      obtain ⟨rfl, spans⟩ := head
      refine runs_bind runs_get fun state => ?_
      split
      · exact ih
      · rename_i scope outer _
        refine runs_read (runs_bind ?_ fun found => runs_bind (runs_modify _) fun _ => ih)
        refine runs_orComplain (scope.declareParameter_wider name' within_slotLimit)
          (fun equal => by rw [equal]) spans ?_
        rintro _ (rfl | rfl) _ named
        · exact named.1
        · exact named.1

/-- The names declared ahead get the same slots. -/
theorem runs_declareAhead {names names' : List (String × Span)}
    (alike : List.Forall₂ pair.like.Name names names') :
    pair.Runs (declareAhead names) (declareAhead names') := by
  induction alike with
  | nil => exact runs_pure _
  | @cons first first' rest rest' head _ ih =>
      obtain ⟨name, span⟩ := first
      obtain ⟨name', span'⟩ := first'
      obtain ⟨rfl, spans⟩ := head
      exact runs_bind (runs_bind (runs_declareSlot name' (spans.mono fun _ named => named.1))
        fun _ => runs_pure _) fun _ => ih

/-- The same number is loaded. -/
theorem runs_number (value : Number) (spans : pair.like.Span (·.kind = .number) span span') :
    pair.Runs (number value span) (number value span') := by
  unfold number
  split
  · exact runs_emit _ _ _
  · split
    · exact runs_emit _ _ _
    · exact runs_bind (runs_addNumber value spans) fun _ => runs_emit _ _ _

/-- The same string is loaded. -/
theorem runs_string (value : String) (spans : pair.like.Span Token.IsText span span') :
    pair.Runs (string value span) (string value span') :=
  runs_bind (runs_addString value spans) fun _ => runs_emit _ _ _

section

variable {name : String} (spans : pair.like.Span (Token.IsName name) span span')

include spans

/-- Where a name was resolved to the same place, it is loaded from there. -/
theorem runs_load (place : Place) : pair.Runs (load place name span) (load place name span') := by
  cases place with
  | slot index => exact runs_emit _ _ _
  | capture index => exact runs_emit _ _ _
  | global =>
      exact runs_bind (runs_addString name (spans.mono fun _ => Token.IsName.isText)) fun _ =>
        runs_emit _ _ _

/-- And stored to. -/
theorem runs_store (place : Place) : pair.Runs (store place name span) (store place name span') := by
  cases place with
  | slot index => exact runs_emit _ _ _
  | capture index => exact runs_emit _ _ _
  | global =>
      refine runs_bind runs_get fun state => runs_read ?_
      by_cases known : state.globals.contains name || pair.one.isKnownGlobal name
      · have known' : (state.globals.contains name || pair.other.isKnownGlobal name) = true := by
          rcases Bool.or_eq_true_iff.mp known with declared | before
          · rw [declared, Bool.true_or]
          · rw [pair.known name before, Bool.or_true]
        rw [if_pos known, if_pos known']
        exact runs_bind (runs_addString name (spans.mono fun _ => Token.IsName.isText)) fun _ =>
          runs_emit _ _ _
      · rw [if_neg known]
        refine runs_complain_strict spans (fun _ => id) fun equal => ?_
        rw [equal, if_neg known]

end

/-- The same globals are added, so that they keep their indices. -/
theorem runs_addGlobals {names names' : List (String × Span)}
    (alike : List.Forall₂ pair.like.Name names names') :
    pair.Runs (addGlobals names) (addGlobals names') := by
  induction alike with
  | nil => exact runs_pure _
  | @cons first first' rest rest' head _ ih =>
      obtain ⟨name, span⟩ := first
      obtain ⟨name', span'⟩ := first'
      obtain ⟨rfl, -⟩ := head
      exact runs_bind (runs_modify _) fun _ => ih

/-! ## Functions and loops -/

/-- Functions are opened at the same index. -/
theorem runs_openFunction (spans : pair.like.Span (·.kind = .kwDef) span span') :
    pair.Runs (openFunction span) (openFunction span') := by
  refine runs_bind runs_get fun state => ?_
  dsimp only
  split
  · exact runs_complain spans fun _ => id
  · exact fun _ => .same _

/-- The same captures are pushed for a closure. -/
theorem runs_pushCaptures (sources : List CaptureSource) :
    pair.Runs (pushCaptures sources) (pushCaptures sources) := by
  induction sources with
  | nil => exact runs_pure _
  | cons first rest ih => cases first <;> exact runs_bind (runs_emit _ _ _) fun _ => ih

/-- Completing a function fails where it is too deep or too large. -/
theorem runs_finish (assembler : Assembler) (varCount : Nat) (argCount : UInt16)
    (captured : Array Bool) (isClosure : Bool)
    (spans : pair.like.Span (fun token => token.kind = .kwDef ∨ token.kind = .endOfInput)
      span span') :
    pair.Runs (orComplain span (assembler.finish varCount argCount captured isClosure))
      (orComplain span' (assembler.finish varCount argCount captured isClosure)) := by
  unfold Assembler.finish
  split
  · exact runs_complain spans fun _ => id
  · dsimp only
    split
    · exact runs_complain spans fun _ => id
    · exact runs_pure _

/-- The code of a function is finished in the same way, or objected to on both sides. -/
theorem runs_closeFunction (spans : pair.like.Span (·.kind = .kwDef) span span') (index : Nat)
    (assembler : Assembler) (loops : List LoopLabels) :
    pair.Runs (closeFunction span index assembler loops)
      (closeFunction span' index assembler loops) := by
  refine runs_bind runs_get fun _ => runs_bind runs_get fun _ =>
    runs_bind (runs_finish _ _ _ _ _ (spans.mono fun _ => .inl)) fun _ =>
      runs_bind (runs_modify _) fun _ => ?_
  split
  · exact runs_bind (runs_pushCaptures _) fun _ => runs_emit _ _ _
  · exact runs_emit _ _ _

/-- A jump out of a loop goes to the same label, or there is no loop on either side. -/
theorem runs_loopJump {keyword : TokenKind} (target : LoopLabels → Label)
    (spans : pair.like.Span (·.kind = keyword) span span') :
    pair.Runs (loopJump keyword target span) (loopJump keyword target span') := by
  refine runs_bind runs_get fun state => ?_
  split
  · exact runs_complain spans fun _ => id
  · exact runs_bind runs_depth fun _ => runs_bind (runs_assemble _) fun _ => runs_assemble _

/-- What is done within a loop is done alike. -/
theorem runs_inLoop {step step' : Compiling Unit} (labels : LoopLabels)
    (steps : pair.Runs step step') : pair.Runs (inLoop labels step) (inLoop labels step') :=
  runs_bind runs_get fun _ => runs_bind (runs_modify _) fun _ => runs_bind steps fun _ =>
    runs_modify _

/-! ## Trees -/

/-- Two expressions are compiled alike. -/
def RunsExpr (pair : Comparison) (tree tree' : Expr) : Prop := pair.Runs (expr tree) (expr tree')

/-- Variables are declared alike, with like values. -/
theorem runs_variable {name : String} {value value' : Option Expr}
    (spans : pair.like.Span (Token.IsName name) span span')
    (values : Option.Rel pair.RunsExpr value value') :
    pair.Runs (declarator (.variable name span value)) (declarator (.variable name span' value')) := by
  rw [declarator, declarator]
  refine runs_bind runs_isTopLevel fun topLevel => ?_
  split
  · refine runs_bind (runs_addString _ (spans.mono fun _ => Token.IsName.isText)) fun _ =>
      runs_bind (runs_modify _) fun _ => ?_
    cases values with
    | none => exact runs_emit _ _ _
    | some value => exact runs_bind value fun _ => runs_emit _ _ _
  · refine runs_bind (runs_declareSlot _ (spans.mono fun _ named => named.1)) fun _ => ?_
    cases values with
    | none => exact runs_pure _
    | some value =>
        exact runs_bind value fun _ => runs_bind (runs_emit _ _ _) fun _ => runs_emit _ _ _

/-- The clauses and the body of a `for` loop are compiled alike. -/
theorem runs_forLoop {start start' : ForStart} {test test' step step' : Option Expr}
    {body body' : Stmt} (begins : pair.Runs (forStart start) (forStart start'))
    (tests : Option.Rel pair.RunsExpr test test') (steps : Option.Rel pair.RunsExpr step step')
    (rounds : pair.Runs (stmt body) (stmt body')) :
    pair.Runs (stmt (.forLoop start test step body)) (stmt (.forLoop start' test' step' body')) := by
  have again (done next : Label) :
      pair.Runs
        (do
          inLoop ⟨done, next⟩ (stmt body)
          emitJump .jump next
          placeLabel done)
        (do
          inLoop ⟨done, next⟩ (stmt body')
          emitJump .jump next
          placeLabel done) :=
    runs_bind (runs_inLoop _ rounds) fun _ => runs_bind (runs_assemble _) fun _ => runs_assemble _
  rw [stmt, stmt]
  refine runs_bind begins fun _ => runs_bind runs_newLabel fun first => runs_bind runs_newLabel
    fun done => runs_bind (runs_assemble _) fun _ => ?_
  cases steps with
  | none =>
      cases tests with
      | none => exact runs_bind (runs_pure _) (again done)
      | some tests =>
          exact runs_bind tests fun _ => runs_bind (runs_assemble _) fun _ =>
            runs_bind (runs_pure _) (again done)
  | @some step step' steps =>
      have between :
          pair.Runs
            (do
              let start ← newLabel
              let next ← newLabel
              emitJump .jump start
              placeLabel next
              expr step
              emit .pop
              emitJump .jump first
              placeLabel start
              let next ← pure next
              inLoop ⟨done, next⟩ (stmt body)
              emitJump .jump next
              placeLabel done)
            (do
              let start ← newLabel
              let next ← newLabel
              emitJump .jump start
              placeLabel next
              expr step'
              emit .pop
              emitJump .jump first
              placeLabel start
              let next ← pure next
              inLoop ⟨done, next⟩ (stmt body')
              emitJump .jump next
              placeLabel done) :=
        runs_bind runs_newLabel fun _ => runs_bind runs_newLabel fun _ =>
          runs_bind (runs_assemble _) fun _ => runs_bind (runs_assemble _) fun _ =>
            runs_bind steps fun _ => runs_bind (runs_assemble _) fun _ =>
              runs_bind (runs_assemble _) fun _ => runs_bind (runs_assemble _) fun _ =>
                runs_bind (runs_pure _) (again done)
      cases tests with
      | none => exact between
      | some tests =>
          exact runs_bind tests fun _ => runs_bind (runs_assemble _) fun _ => between

/-- An instruction whose operand would be too large is complained about. -/
theorem runs_emitUnless {complaint : Complaint} (large : Prop) [Decidable large]
    (spans : pair.like.Span role span span')
    (concerns : ∀ token, role token → complaint.Concerns token) (op : Opcode) (a : UInt16) :
    pair.Runs (if large then complain complaint span else emit op a)
      (if large then complain complaint span' else emit op a) := by
  split
  · exact runs_complain spans concerns
  · exact runs_emit _ _ _

/-- Calls of as many arguments are alike, unless these are too many for the stricter side. -/
theorem runs_emitCall (count : Nat) (spans : pair.like.Span (·.kind = .openParen) span span') :
    pair.Runs
      (do
        let limit := (← read).limits.maxLocals
        if limit < count then complain (.tooManyArguments limit) span
        else emit .call (UInt16.ofNat count))
      (do
        let limit := (← read).limits.maxLocals
        if limit < count then complain (.tooManyArguments limit) span'
        else emit .call (UInt16.ofNat count)) := by
  refine runs_read ?_
  by_cases many : pair.one.limits.maxLocals < count
  · rw [if_pos many]
    refine runs_complain_strict spans (fun _ => id) fun equal => ?_
    rw [equal, if_pos many]
  · have within := pair.within.maxLocals
    rw [if_neg many, if_neg (by omega)]
    exact runs_emit _ _ _

mutual

/-- Like expressions are compiled alike. -/
theorem runs_expr : {tree tree' : Expr} → tree.IsLike pair.like tree' →
    pair.Runs (expr tree) (expr tree')
  | .literal _, _, .literal value => runs_emit _ _ _
  | .number _ _, _, .number value spans => runs_number value spans
  | .string _ _, _, .string value spans => runs_string value spans
  | .name _ _, _, .name spans =>
      runs_bind (runs_resolve _ (spans.mono fun _ named => named.1)) (runs_load spans)
  | .unary _ _, _, .unary op operand => runs_bind (runs_expr operand) fun _ => runs_emit _ _ _
  | .binary _ _ _, _, .binary op left right =>
      runs_bind (runs_expr left) fun _ => runs_bind (runs_expr right) fun _ => runs_emit _ _ _
  | .logical _ _ _, _, .logical op left right =>
      runs_bind (runs_expr left) fun _ => runs_bind runs_newLabel fun _ =>
        runs_bind (runs_assemble _) fun _ => runs_bind (runs_expr right) fun _ => runs_assemble _
  | .conditional _ _ _, _, .conditional test whenTrue whenFalse =>
      runs_bind (runs_expr test) fun _ => runs_bind runs_newLabel fun _ =>
        runs_bind runs_newLabel fun _ => runs_bind (runs_assemble _) fun _ =>
          runs_bind runs_depth fun _ => runs_bind (runs_expr whenTrue) fun _ =>
            runs_bind (runs_assemble _) fun _ => runs_bind (runs_assemble _) fun _ =>
              runs_bind (runs_assemble _) fun _ => runs_bind (runs_expr whenFalse) fun _ =>
                runs_assemble _
  | .assignName _ _ none _, _, .assignName none spans value =>
      runs_bind (runs_resolve _ (spans.mono fun _ named => named.1)) fun place =>
        runs_bind (runs_expr value) fun _ => runs_store spans place
  | .assignName _ _ (some _) _, _, .assignName (some op) spans value =>
      runs_bind (runs_resolve _ (spans.mono fun _ named => named.1)) fun place =>
        runs_bind (runs_load spans place) fun _ => runs_bind (runs_expr value) fun _ =>
          runs_bind (runs_emit _ _ _) fun _ => runs_store spans place
  | .assignElement _ _ none _, _, .assignElement none container key value =>
      runs_bind (runs_expr container) fun _ => runs_bind (runs_expr key) fun _ =>
        runs_bind (runs_expr value) fun _ => runs_emit _ _ _
  | .assignElement _ _ (some _) _, _, .assignElement (some op) container key value =>
      runs_bind (runs_expr container) fun _ => runs_bind (runs_expr key) fun _ =>
        runs_bind (runs_emit _ _ _) fun _ => runs_bind (runs_emit _ _ _) fun _ =>
          runs_bind (runs_expr value) fun _ => runs_bind (runs_emit _ _ _) fun _ => runs_emit _ _ _
  | .element _ _, _, .element container key =>
      runs_bind (runs_expr container) fun _ => runs_bind (runs_expr key) fun _ => runs_emit _ _ _
  | .call _ _ _, _, .call callee args spans =>
      runs_bind (runs_expr callee) fun _ => runs_bind (runs_exprs args) fun _ => by
        rw [← args.length_eq]
        exact runs_emitCall _ spans
  | .array _ _, _, .array elements spans =>
      runs_bind (runs_exprs elements) fun _ => by
        rw [← elements.length_eq]
        exact runs_emitUnless _ spans (fun _ => id) _ _
  | .object _ _, _, .object properties spans =>
      runs_bind (runs_entries properties) fun _ => by
        rw [← properties.length_eq]
        exact runs_emitUnless _ spans (fun _ => id) _ _
  | .function _, _, .function body => runs_definition body
  | .broken _, _, .broken error => runs_throw error

/-- And so are expressions that may be left out. -/
theorem runs_ifAny : {tree tree' : Option Expr} → Option.Rel (Expr.IsLike pair.like) tree tree' →
    Option.Rel pair.RunsExpr tree tree'
  | none, _, .none => .none
  | some _, _, .some value => .some (runs_expr value)

/-- And expressions in a row. -/
theorem runs_exprs : {trees trees' : List Expr} →
    List.Forall₂ (Expr.IsLike pair.like) trees trees' → pair.Runs (exprs trees) (exprs trees')
  | [], _, .nil => runs_pure _
  | _ :: _, _, .cons first rest => runs_bind (runs_expr first) fun _ => runs_exprs rest

/-- Like properties are compiled alike, one after the other. -/
theorem runs_entries : {trees trees' : List Entry} →
    List.Forall₂ (Entry.IsLike pair.like) trees trees' → pair.Runs (entries trees) (entries trees')
  | [], _, .nil => runs_pure _
  | _ :: _, _, .cons first rest => runs_bind (runs_entry first) fun _ => runs_entries rest

/-- And so is each of them. -/
theorem runs_entry : {tree tree' : Entry} → tree.IsLike pair.like tree' →
    pair.Runs (entry tree) (entry tree')
  | .property _ _ _, _, .property key spans value =>
      runs_bind (runs_string key spans) fun _ => runs_expr value
  | .broken _, _, .broken error => runs_throw error

/-- Like functions are compiled alike. -/
theorem runs_definition : {tree tree' : Definition} → tree.IsLike pair.like tree' →
    pair.Runs (definition tree) (definition tree')
  | .mk _ _ _ _, _, .mk spans params declared body =>
      runs_bind (runs_openFunction spans) fun _ => runs_bind (runs_declareParams params) fun _ =>
        runs_bind (runs_declareAhead declared) fun _ => runs_bind (runs_stmts body) fun _ =>
          runs_bind (runs_emit _ _ _) fun _ => runs_closeFunction spans _ _ _

/-- Like variables are declared alike, one after the other. -/
theorem runs_declarators : {trees trees' : List Declarator} →
    List.Forall₂ (Declarator.IsLike pair.like) trees trees' →
      pair.Runs (declarators trees) (declarators trees')
  | [], _, .nil => runs_pure _
  | _ :: _, _, .cons first rest => runs_bind (runs_declarator first) fun _ => runs_declarators rest

/-- And so is each of them. -/
theorem runs_declarator : {tree tree' : Declarator} → tree.IsLike pair.like tree' →
    pair.Runs (declarator tree) (declarator tree')
  | .variable _ _ _, _, .variable spans value => runs_variable spans (runs_ifAny value)
  | .broken _, _, .broken error => runs_throw error

/-- Like statements are compiled alike. -/
theorem runs_stmt : {tree tree' : Stmt} → tree.IsLike pair.like tree' →
    pair.Runs (stmt tree) (stmt tree')
  | .expression _, _, .expression value => by
      refine runs_bind (runs_expr value) fun _ => runs_bind runs_isTopLevel fun topLevel => ?_
      split
      · exact runs_bind (runs_emit _ _ _) fun _ => runs_emit _ _ _
      · exact runs_emit _ _ _
  | .declare _, _, .declare names => runs_declarators names
  | .define _ _ _, _, .define spans body => by
      refine runs_bind runs_isTopLevel fun topLevel => ?_
      split
      · exact runs_bind (runs_addString _ (spans.mono fun _ => Token.IsName.isText)) fun _ =>
          runs_bind (runs_modify _) fun _ => runs_bind (runs_definition body) fun _ =>
            runs_emit _ _ _
      · exact runs_bind (runs_declareSlot _ (spans.mono fun _ named => named.1)) fun _ =>
          runs_bind (runs_definition body) fun _ => runs_bind (runs_emit _ _ _) fun _ =>
            runs_emit _ _ _
  | .branch _ _ none, _, .branch test whenTrue .none =>
      runs_bind (runs_expr test) fun _ => runs_bind runs_newLabel fun _ =>
        runs_bind (runs_assemble _) fun _ => runs_bind (runs_stmt whenTrue) fun _ =>
          runs_assemble _
  | .branch _ _ (some _), _, .branch test whenTrue (.some whenFalse) =>
      runs_bind (runs_expr test) fun _ => runs_bind runs_newLabel fun _ =>
        runs_bind (runs_assemble _) fun _ => runs_bind (runs_stmt whenTrue) fun _ =>
          runs_bind runs_newLabel fun _ => runs_bind (runs_assemble _) fun _ =>
            runs_bind (runs_assemble _) fun _ => runs_bind (runs_stmt whenFalse) fun _ =>
              runs_assemble _
  | .whileLoop _ _, _, .whileLoop test body =>
      runs_bind runs_newLabel fun _ => runs_bind runs_newLabel fun _ =>
        runs_bind (runs_assemble _) fun _ => runs_bind (runs_expr test) fun _ =>
          runs_bind (runs_assemble _) fun _ => runs_bind (runs_inLoop _ (runs_stmt body)) fun _ =>
            runs_bind (runs_assemble _) fun _ => runs_assemble _
  | .forLoop _ _ _ _, _, .forLoop start test step body =>
      runs_forLoop (runs_forStart start) (runs_ifAny test) (runs_ifAny step) (runs_stmt body)
  | .breakLoop _, _, .breakLoop spans => runs_loopJump _ spans
  | .continueLoop _, _, .continueLoop spans => runs_loopJump _ spans
  | .return_ none, _, .return_ .none =>
      runs_bind runs_depth fun _ => runs_bind (runs_emit _ _ _) fun _ => runs_assemble _
  | .return_ (some _), _, .return_ (.some value) =>
      runs_bind runs_depth fun _ => runs_bind (runs_expr value) fun _ =>
        runs_bind (runs_emit _ _ _) fun _ => runs_assemble _
  | .block _, _, .block body => runs_stmts body
  | .broken _, _, .broken error => runs_throw error

/-- And so is what loops start with. -/
theorem runs_forStart : {tree tree' : ForStart} → tree.IsLike pair.like tree' →
    pair.Runs (forStart tree) (forStart tree')
  | .nothing, _, .nothing => runs_pure _
  | .declare _, _, .declare names => runs_declarators names
  | .evaluate _, _, .evaluate value => runs_bind (runs_expr value) fun _ => runs_emit _ _ _

/-- And statements in a row. -/
theorem runs_stmts : {trees trees' : List Stmt} →
    List.Forall₂ (Stmt.IsLike pair.like) trees trees' → pair.Runs (stmts trees) (stmts trees')
  | [], _, .nil => runs_pure _
  | _ :: _, _, .cons first rest => runs_bind (runs_stmt first) fun _ => runs_stmts rest

end

/-! ## Units -/

/-- Where the first step always objects, whatever comes next does not matter. -/
theorem runs_bind_of_fails {step step' : Compiling α} {next next' : α → Compiling β}
    (first : pair.Runs step step')
    (fails : ∀ state result after, ¬ Leads pair.one step state result after) :
    pair.Runs (step >>= next) (step' >>= next') := by
  intro state
  change pair.Ends (step pair.one state >>= fun done => next done.1 pair.one done.2)
    (step' pair.other state >>= fun done => next' done.1 pair.other done.2)
  have here := first state
  cases ended : step pair.one state with
  | ok done => exact absurd ended (fails state done.1 done.2)
  | error error =>
      rw [ended] at here
      generalize step' pair.other state = other at here
      cases here with
      | failed error => exact .failed error
      | adrift may => exact .adrift may

/-- The units as a whole are compiled alike. -/
theorem runs_unit {tree tree' : UnitTree} (compares : tree.Compares pair.like pair.lenient tree') :
    pair.Runs (unit tree) (unit tree') := by
  cases compares with
  | whole declared body ending =>
      exact runs_bind (runs_addGlobals declared) fun _ => runs_bind (runs_stmts body) fun _ =>
        runs_bind (runs_emit _ _ _) fun _ => runs_bind (runs_emit _ _ _) fun _ =>
          runs_bind runs_get fun _ =>
            runs_bind (runs_finish _ _ _ _ _ (ending.mono fun _ => .inr)) fun _ _ => .same _
  | broken declared body member =>
      exact runs_bind (runs_addGlobals declared) fun _ =>
        runs_bind_of_fails (runs_stmts body) fun _ _ _ leads => not_mem_broken leads member
  | @adrift declared body ending error other may member =>
      intro state
      cases ran : unit ⟨declared, body, ending⟩ pair.one state with
      | error error => exact .adrift may
      | ok done =>
          obtain ⟨named, -, ended, stmts, -⟩ := leads_unit ran
          exact absurd member (not_mem_broken stmts)

/-- How the compilations of like texts end. -/
theorem ends_compile {bytes bytes' : List UInt8}
    (alike : (TokenStream.ofBytes bytes).IsLike pair.like (TokenStream.ofBytes bytes')) :
    pair.Ends (compile bytes pair.one.limits pair.one.isKnownGlobal)
      (compile bytes' pair.other.limits pair.other.isKnownGlobal) := by
  have depths : pair.lenient ∨
      pair.other.limits.maxExprDepth = pair.one.limits.maxExprDepth :=
    pair.strict.imp_right fun equal => by rw [equal]
  have runs := runs_unit (UnitTree.compares_ofTokens pair.within.maxExprDepth depths alike) .start
  unfold compile
  dsimp only
  change pair.Ends
    (unit (UnitTree.ofTokens _ (TokenStream.ofBytes bytes)) pair.one .start >>= _)
    (unit (UnitTree.ofTokens _ (TokenStream.ofBytes bytes')) pair.other .start >>= _)
  generalize unit _ pair.one .start = one, unit _ pair.other .start = other at runs
  cases runs with
  | same done => exact .same _
  | failed error => exact .failed error
  | adrift may => exact .adrift may

end Comparison

end PocketScript
