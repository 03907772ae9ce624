import Mathlib.Data.List.Pairwise
import PocketScript.Proofs.Compile.Stretches

/-!
# The control flow of compiled statements

The code of statements seen as the code of their flow (`FlowAt`): which instructions stand between the
stretches of code that are the expressions, and where the jumps among them lead. The stretches of a
flow lie one behind the other, and something stands between any two of them (`FlowAt.ordered`).
-/

namespace PocketScript

/-- The expressions of a flow, in the order of their code. -/
def Flow.stretches : Flow → List Stretch
  | .evaluate value _ => [value]
  | .sequence first second => first.stretches ++ second.stretches
  | .branch test whenTrue whenFalse => test :: (whenTrue.stretches ++ whenFalse.stretches)
  | .loop test step body => test.toList ++ (step.toList ++ body.stretches)
  | .return_ value => value.toList
  | .nothing | .declare _ | .breakLoop | .continueLoop => []

/-- The expressions of a flow whose value decides how it goes on. -/
def Flow.tests : Flow → List Stretch
  | .sequence first second => first.tests ++ second.tests
  | .branch test whenTrue whenFalse => test :: (whenTrue.tests ++ whenFalse.tests)
  | .loop test _ body => test.toList ++ body.tests
  | .nothing | .evaluate _ _ | .declare _ | .breakLoop | .continueLoop | .return_ _ => []

namespace CompleteCode

/-- An expression is a stretch of the code. -/
abbrev Has (code : CompleteCode) (value : Stretch) : Prop := code.Computes value.start value.stop

variable (code : CompleteCode)

/-- The code of a loop's test, whose failure leads to the end of the loop. -/
inductive TestFlowAt (done : Nat) : Option Stretch → Nat → Nat → Prop
  | none {start} : TestFlowAt done none start start
  | some {test : Stretch} :
      code.Has test → code.Jumps test.stop .jumpIfFalse done →
        TestFlowAt done (some test) test.start (test.stop + 1)

/-- The code of a loop's step clause, behind which the test follows again. The next round starts with
it, or with the test when there is none. -/
inductive StepFlowAt (test : Nat) : Option Stretch → Nat → Nat → Nat → Prop
  | none {start} : StepFlowAt test none test start start
  | some {step : Stretch} {start} :
      step.start = start + 1 → code.Jumps start .jump (step.stop + 2) → code.Has step →
        code.Holds step.stop .pop → code.Jumps (step.stop + 1) .jump test →
          StepFlowAt test (some step) step.start start (step.stop + 2)

/-- The code of a flow inside some loops, the innermost one first. -/
inductive FlowAt : List LoopLabels → Flow → Nat → Nat → Prop
  | nothing {loops start} : FlowAt loops .nothing start start
  | evaluate {loops stop} {value : Stretch} {sink : Sink} :
      code.Has value → code.SinkAt sink value.stop stop →
        FlowAt loops (.evaluate value sink) value.start stop
  | declare {loops start name} :
      code.Holds start .declareGlobal name → FlowAt loops (.declare name) start (start + 1)
  | sequence {loops first second start middle stop} :
      FlowAt loops first start middle → FlowAt loops second middle stop →
        FlowAt loops (.sequence first second) start stop
  | branch {loops stop whenTrue} {test : Stretch} :
      code.Has test → code.Jumps test.stop .jumpIfFalse stop →
        FlowAt loops whenTrue (test.stop + 1) stop →
          FlowAt loops (.branch test whenTrue .nothing) test.start stop
  | branchElse {loops between stop whenTrue whenFalse} {test : Stretch} :
      code.Has test → code.Jumps test.stop .jumpIfFalse (between + 1) →
        FlowAt loops whenTrue (test.stop + 1) between → code.Jumps between .jump stop →
          FlowAt loops whenFalse (between + 1) stop →
            FlowAt loops (.branch test whenTrue whenFalse) test.start stop
  | loop {loops labels test step body start tested next entry stop} :
      TestFlowAt code (stop + 1) test start tested →
        StepFlowAt code start step next tested entry →
          code.Places labels.breakTo (stop + 1) → code.Places labels.continueTo next →
            FlowAt (labels :: loops) body entry stop → code.Jumps stop .jump next →
              FlowAt loops (.loop test step body) start (stop + 1)
  | breakLoop {loops labels start} :
      code.JumpsTo start .jump labels.breakTo →
        FlowAt (labels :: loops) .breakLoop start (start + 1)
  | continueLoop {loops labels start} :
      code.JumpsTo start .jump labels.continueTo →
        FlowAt (labels :: loops) .continueLoop start (start + 1)
  | returnNothing {loops start} :
      code.Holds start .retUndefined → FlowAt loops (.return_ none) start (start + 1)
  | return_ {loops} {value : Stretch} :
      code.Has value → code.Holds value.stop .ret →
        FlowAt loops (.return_ (some value)) value.start (value.stop + 1)

variable {code} {start middle stop done next index : Nat} {loops : List LoopLabels} {flow : Flow}

/-! ## Statements as flows -/

theorem DeclaratorAt.flowAt {tree : Declarator} (layout : code.DeclaratorAt tree flow start stop) :
    code.FlowAt loops flow start stop := by
  cases layout with
  | empty => exact .nothing
  | declared holds => exact .declare holds
  | @value _ _ _ _ middle _ _ inner sinks =>
      exact @FlowAt.evaluate code _ _ ⟨start, middle⟩ _ inner.computes sinks

theorem DeclaratorsAt.flowAt {trees : List Declarator}
    (layout : code.DeclaratorsAt trees flow start stop) : code.FlowAt loops flow start stop := by
  induction layout with
  | nil => exact .nothing
  | cons first _ ih => exact .sequence first.flowAt ih

theorem ForStartAt.flowAt {tree : ForStart} (layout : code.ForStartAt tree flow start stop) :
    code.FlowAt loops flow start stop := by
  cases layout with
  | nothing => exact .nothing
  | declare names => exact names.flowAt
  | @evaluate _ _ stop inner pops =>
      exact @FlowAt.evaluate code _ _ ⟨start, stop⟩ .drop inner.computes ⟨rfl, pops⟩

theorem TestAt.flowAt {tree : Option Expr} {test : Option Stretch}
    (layout : code.TestAt done tree test start stop) : code.TestFlowAt done test start stop := by
  cases layout with
  | none => exact .none
  | @some _ _ stop condition tests =>
      exact @TestFlowAt.some code _ ⟨start, stop⟩ condition.computes tests

theorem StepAt.flowAt {test : Nat} {tree : Option Expr} {clause : Option Stretch}
    (layout : code.StepAt test tree clause next start stop) :
    code.StepFlowAt test clause next start stop := by
  cases layout with
  | none => exact .none
  | @some _ _ stop skips step pops repeats =>
      exact @StepFlowAt.some code _ ⟨start + 1, stop⟩ _ rfl skips step.computes pops repeats

mutual

/-- The code of a statement is that of its flow. -/
theorem StmtAt.flowAt {loops : List LoopLabels} {tree : Stmt} {flow : Flow} {start stop : Nat}
    (layout : code.StmtAt loops tree flow start stop) : code.FlowAt loops flow start stop := by
  cases layout with
  | @expression _ _ _ middle _ _ value sinks =>
      exact @FlowAt.evaluate code _ _ ⟨start, middle⟩ _ value.computes sinks
  | declare names => exact names.flowAt
  | @define _ _ _ _ _ middle _ _ function sinks =>
      exact @FlowAt.evaluate code _ _ ⟨start, middle⟩ _ function.computes sinks
  | @branch _ _ _ _ _ middle _ condition tests whenTrue =>
      exact @FlowAt.branch code _ _ _ ⟨start, middle⟩ condition.computes tests whenTrue.flowAt
  | @branchElse _ _ _ _ _ _ _ middle _ _ condition tests whenTrue jumps whenFalse =>
      exact @FlowAt.branchElse code _ _ _ _ _ ⟨start, middle⟩ condition.computes tests
        whenTrue.flowAt jumps whenFalse.flowAt
  | @whileLoop _ _ _ _ _ _ middle _ condition tests breaks continues body repeats =>
      exact .loop (@TestFlowAt.some code _ ⟨start, middle⟩ condition.computes tests) .none breaks
        continues body.flowAt repeats
  | forLoop begin test step breaks continues body repeats =>
      exact .sequence begin.flowAt
        (.loop test.flowAt step.flowAt breaks continues body.flowAt repeats)
  | breakLoop jumps => exact .breakLoop jumps
  | continueLoop jumps => exact .continueLoop jumps
  | returnNothing holds => exact .returnNothing holds
  | @return_ _ _ _ stop value holds =>
      exact @FlowAt.return_ code _ ⟨start, stop⟩ value.computes holds
  | block body => exact body.flowAt

theorem StmtsAt.flowAt {loops : List LoopLabels} {trees : List Stmt} {flow : Flow}
    {start stop : Nat} (layout : code.StmtsAt loops trees flow start stop) :
    code.FlowAt loops flow start stop := by
  cases layout with
  | nil => exact .nothing
  | cons first rest => exact .sequence first.flowAt rest.flowAt

end

/-! ## Where the expressions of a flow stand -/

/-- Expressions whose code lies between two indices, one behind the other and with something behind
each of them. -/
structure Ordered (code : CompleteCode) (start stop : Nat) (values : List Stretch) : Prop where
  order : start ≤ stop
  inside : ∀ value ∈ values, code.Has value ∧ start ≤ value.start ∧ value.stop < stop
  apart : values.Pairwise fun first second => first.stop < second.start

theorem Ordered.nil (order : start ≤ stop) : code.Ordered start stop [] :=
  ⟨order, fun _ member => absurd member List.not_mem_nil, .nil⟩

theorem Ordered.single {value : Stretch} (has : code.Has value) (above : start ≤ value.start)
    (below : value.stop < stop) : code.Ordered start stop [value] := by
  have nonempty := has.nonempty
  refine ⟨by omega, fun other member => ?_, List.pairwise_singleton _ _⟩
  rw [List.mem_singleton.mp member]
  exact ⟨has, above, below⟩

theorem Ordered.append {first second : List Stretch} (one : code.Ordered start middle first)
    (two : code.Ordered middle stop second) : code.Ordered start stop (first ++ second) := by
  refine ⟨Nat.le_trans one.order two.order, fun value member => ?_, ?_⟩
  · have before := one.order
    have behind := two.order
    rcases List.mem_append.mp member with early | late
    · obtain ⟨has, above, below⟩ := one.inside value early
      exact ⟨has, above, by omega⟩
    · obtain ⟨has, above, below⟩ := two.inside value late
      exact ⟨has, by omega, below⟩
  · refine List.pairwise_append.mpr ⟨one.apart, two.apart, fun value early other late => ?_⟩
    have below := (one.inside value early).2.2
    have above := (two.inside other late).2.1
    omega

theorem Ordered.widen {values : List Stretch} {low high : Nat} (ordered : code.Ordered start stop values)
    (lower : low ≤ start) (higher : stop ≤ high) : code.Ordered low high values := by
  have order := ordered.order
  refine ⟨by omega, fun value member => ?_, ordered.apart⟩
  obtain ⟨has, above, below⟩ := ordered.inside value member
  exact ⟨has, by omega, by omega⟩

theorem TestFlowAt.ordered {test : Option Stretch} (layout : code.TestFlowAt done test start stop) :
    code.Ordered start stop test.toList := by
  cases layout with
  | none => exact .nil (Nat.le_refl _)
  | some has => exact .single has (Nat.le_refl _) (Nat.lt_succ_self _)

theorem StepFlowAt.ordered {test : Nat} {step : Option Stretch}
    (layout : code.StepFlowAt test step next start stop) : code.Ordered start stop step.toList := by
  cases layout with
  | none => exact .nil (Nat.le_refl _)
  | some behind _ has => exact .single has (by omega) (by omega)

/-- The expressions of a flow lie one behind the other in its code. -/
theorem FlowAt.ordered (layout : code.FlowAt loops flow start stop) :
    code.Ordered start stop flow.stretches := by
  induction layout with
  | nothing => exact .nil (Nat.le_refl _)
  | evaluate has sinks => exact .single has (Nat.le_refl _) sinks.bounds
  | declare => exact .nil (Nat.le_succ _)
  | sequence _ _ one two => exact one.append two
  | branch has _ _ body =>
      exact (Ordered.single has (Nat.le_refl _) (Nat.lt_succ_self _)).append
        (body.append (.nil (Nat.le_refl _)))
  | branchElse has _ _ _ _ one two =>
      exact (Ordered.single has (Nat.le_refl _) (Nat.lt_succ_self _)).append
        (one.append (two.widen (Nat.le_succ _) (Nat.le_refl _)))
  | loop test step _ _ _ _ body =>
      exact test.ordered.append (step.ordered.append (body.widen (Nat.le_refl _) (Nat.le_succ _)))
  | breakLoop => exact .nil (Nat.le_succ _)
  | continueLoop => exact .nil (Nat.le_succ _)
  | returnNothing => exact .nil (Nat.le_succ _)
  | return_ has => exact .single has (Nat.le_refl _) (Nat.lt_succ_self _)

/-- Behind a test stands the jump that it decides about. -/
theorem FlowAt.tests (layout : code.FlowAt loops flow start stop) :
    ∀ test ∈ flow.tests, test ∈ flow.stretches ∧
      ∃ target, code.Jumps test.stop .jumpIfFalse target := by
  induction layout with
  | sequence _ _ one two =>
      intro test member
      rcases List.mem_append.mp member with early | late
      · exact ⟨List.mem_append_left _ (one test early).1, (one test early).2⟩
      · exact ⟨List.mem_append_right _ (two test late).1, (two test late).2⟩
  | branch _ jumps _ body =>
      intro test member
      rcases List.mem_cons.mp member with rfl | inner
      · exact ⟨List.mem_cons_self, _, jumps⟩
      · obtain ⟨listed, decides⟩ := body test (by simpa [Flow.tests] using inner)
        exact ⟨List.mem_cons_of_mem _ (List.mem_append_left _ listed), decides⟩
  | branchElse _ jumps _ _ _ one two =>
      intro test member
      rcases List.mem_cons.mp member with rfl | inner
      · exact ⟨List.mem_cons_self, _, jumps⟩
      · rcases List.mem_append.mp inner with early | late
        · exact ⟨List.mem_cons_of_mem _ (List.mem_append_left _ (one test early).1),
            (one test early).2⟩
        · exact ⟨List.mem_cons_of_mem _ (List.mem_append_right _ (two test late).1),
            (two test late).2⟩
  | @loop _ _ test _ _ _ _ _ _ _ tests _ _ _ _ _ body =>
      intro other member
      rcases List.mem_append.mp member with early | late
      · cases tests with
        | none => cases early
        | some has jumps =>
            obtain rfl := List.mem_singleton.mp early
            exact ⟨List.mem_append_left _ early, _, jumps⟩
      · obtain ⟨listed, decides⟩ := body other late
        exact ⟨List.mem_append_right _ (List.mem_append_right _ listed), decides⟩
  | nothing | evaluate | declare | breakLoop | continueLoop | returnNothing | return_ =>
      intro test member
      cases member

end CompleteCode

end PocketScript
