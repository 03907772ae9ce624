import PocketScript.Proofs.Machine.Structured

/-!
# What there is to do, and where its code is

The code of a list of tasks begins at an index when only jumps lead from there to the code of the first
task, and behind that code there is the code of the others (`CompleteCode.Follows`). Where a loop ends
early or goes on early, its code holds a jump to the place where the tasks that are left have theirs
(`CompleteCode.Follows.toLoop`).
-/

namespace PocketScript

variable {code : CompleteCode} {whole flow : Flow} {index middle target stop start next : Nat}
  {loops : List LoopLabels} {labels : LoopLabels} {tasks : List Task} {test step : Option Stretch}
  {body : Flow}

/-- A flow has no expressions but those of another one. -/
structure Flow.PartOf (part whole : Flow) : Prop where
  stretches : part.stretches ⊆ whole.stretches
  tests : part.tests ⊆ whole.tests

namespace Flow.PartOf

theorem refl (whole : Flow) : whole.PartOf whole := ⟨fun _ => id, fun _ => id⟩

theorem nothing : Flow.nothing.PartOf whole :=
  ⟨fun _ impossible => (by cases impossible), fun _ impossible => (by cases impossible)⟩

theorem first {second : Flow} (part : (Flow.sequence flow second).PartOf whole) :
    flow.PartOf whole :=
  ⟨fun _ member => part.stretches (List.mem_append_left _ member),
    fun _ member => part.tests (List.mem_append_left _ member)⟩

theorem second {first : Flow} (part : (Flow.sequence first flow).PartOf whole) :
    flow.PartOf whole :=
  ⟨fun _ member => part.stretches (List.mem_append_right _ member),
    fun _ member => part.tests (List.mem_append_right _ member)⟩

theorem whenTrue {test : Stretch} {other : Flow} (part : (Flow.branch test flow other).PartOf whole) :
    flow.PartOf whole :=
  ⟨fun _ member => part.stretches (List.mem_cons_of_mem _ (List.mem_append_left _ member)),
    fun _ member => part.tests (List.mem_cons_of_mem _ (List.mem_append_left _ member))⟩

theorem whenFalse {test : Stretch} {other : Flow} (part : (Flow.branch test other flow).PartOf whole) :
    flow.PartOf whole :=
  ⟨fun _ member => part.stretches (List.mem_cons_of_mem _ (List.mem_append_right _ member)),
    fun _ member => part.tests (List.mem_cons_of_mem _ (List.mem_append_right _ member))⟩

theorem round (part : (Flow.loop test step flow).PartOf whole) : flow.PartOf whole :=
  ⟨fun _ member =>
      part.stretches (List.mem_append_right _ (List.mem_append_right _ member)),
    fun _ member => part.tests (List.mem_append_right _ member)⟩

/-- The step clause of a loop. -/
theorem clause {value : Stretch} {sink : Sink} (part : (Flow.loop test (some value) flow).PartOf whole) :
    (Flow.evaluate value sink).PartOf whole :=
  ⟨fun _ member => part.stretches (List.mem_append_right _ (List.mem_append_left _ member)),
    fun _ impossible => (by cases impossible)⟩

end Flow.PartOf

namespace CompleteCode

/-- Only jumps lead from one index to another one. -/
inductive Reaches (code : CompleteCode) : Nat → Nat → Prop
  | here (index : Nat) : Reaches code index index
  | jump {index target stop : Nat} :
      code.Jumps index .jump target → Reaches code target stop → Reaches code index stop

theorem Reaches.trans (first : code.Reaches index middle) (second : code.Reaches middle stop) :
    code.Reaches index stop := by
  induction first with
  | here => exact second
  | jump jumps _ ih => exact .jump jumps (ih second)

theorem Jumps.reaches (jumps : code.Jumps index .jump target) : code.Reaches index target :=
  .jump jumps (.here target)

/-- The code of a loop with a certain next round. -/
structure LoopAt (code : CompleteCode) (whole : Flow) (loops : List LoopLabels) (labels : LoopLabels)
    (test step : Option Stretch) (body : Flow) (start next stop : Nat) : Prop where
  layout : ∃ tested entry, code.TestFlowAt (stop + 1) test start tested ∧
    code.StepFlowAt start step next tested entry ∧ code.FlowAt (labels :: loops) body entry stop
  breaks : code.Places labels.breakTo (stop + 1)
  continues : code.Places labels.continueTo next
  repeats : code.Jumps stop .jump next
  part : (Flow.loop test step body).PartOf whole

theorem LoopAt.flowAt
    (loop : code.LoopAt whole loops labels test step body start next stop) :
    code.FlowAt loops (.loop test step body) start (stop + 1) := by
  obtain ⟨⟨tested, entry, tests, steps, inner⟩, breaks, continues, repeats, -⟩ := loop
  exact .loop tests steps breaks continues inner repeats

/-- The code of some tasks inside some loops, the innermost one first. -/
inductive Follows (code : CompleteCode) (whole : Flow) : List LoopLabels → List Task → Nat → Prop
  | ends {index stop : Nat} :
      code.Reaches index stop → code.Holds stop .retUndefined → Follows code whole [] [] index
  | run {loops : List LoopLabels} {flow : Flow} {tasks : List Task} {index start stop : Nat} :
      code.Reaches index start → code.FlowAt loops flow start stop → flow.PartOf whole →
        Follows code whole loops tasks stop → Follows code whole loops (.run flow :: tasks) index
  | again {loops : List LoopLabels} {labels : LoopLabels} {test step : Option Stretch} {body : Flow}
      {tasks : List Task} {index middle start next stop : Nat} :
      code.Reaches index middle → code.Jumps middle .jump next →
        code.LoopAt whole loops labels test step body start next stop →
          Follows code whole loops tasks (stop + 1) →
            Follows code whole (labels :: loops) (.again test step body :: tasks) index

/-- Jumps may come first. -/
theorem Follows.reach (follows : code.Follows whole loops tasks middle)
    (reaches : code.Reaches index middle) : code.Follows whole loops tasks index := by
  cases follows with
  | ends others holds => exact .ends (reaches.trans others) holds
  | run others flow part rest => exact .run (reaches.trans others) flow part rest
  | again others jumps loop rest => exact .again (reaches.trans others) jumps loop rest

/-- What there is to do inside a loop is at last to go on with it. -/
theorem Follows.toLoop (follows : code.Follows whole (labels :: loops) tasks index) :
    ∃ test step body rest start next stop,
      Task.toLoop tasks = .again test step body :: rest ∧
        code.LoopAt whole loops labels test step body start next stop ∧
          code.Follows whole loops rest (stop + 1) := by
  generalize inside : labels :: loops = around at follows
  induction follows with
  | ends => cases inside
  | run _ _ _ _ ih =>
      obtain ⟨test, step, body, rest, start, next, stop, same, found⟩ := ih inside
      exact ⟨test, step, body, rest, start, next, stop, same, found⟩
  | again _ _ loop rest =>
      cases inside
      exact ⟨_, _, _, _, _, _, _, rfl, loop, rest⟩

/-- A loop starts with its test, and then its body. -/
theorem StepFlowAt.reaches {value : Option Stretch}
    (layout : code.StepFlowAt start value next index stop) : code.Reaches index stop := by
  cases layout with
  | none => exact .here _
  | some _ jumps => exact jumps.reaches

/-- What there is to do in the rounds of a loop, the first of which begins with the body. -/
theorem LoopAt.round (loop : code.LoopAt whole loops labels test step body start next stop)
    (rest : code.Follows whole loops tasks (stop + 1)) :
    ∃ tested, code.TestFlowAt (stop + 1) test start tested ∧
      code.Follows whole (labels :: loops) (.run body :: .again test step body :: tasks) tested := by
  obtain ⟨tested, entry, tests, steps, inner⟩ := loop.layout
  exact ⟨tested, tests, .run steps.reaches inner loop.part.round
    (.again (.here stop) loop.repeats loop rest)⟩

/-- The next round of a loop begins with its step clause, or with its test when there is none. -/
theorem LoopAt.nextRound (loop : code.LoopAt whole loops labels test step body start next stop)
    (rest : code.Follows whole loops tasks (stop + 1)) :
    match step with
    | none => code.Follows whole loops (.run (.loop test none body) :: tasks) next
    | some value => code.Follows whole loops
        (.run (.evaluate value .drop) :: .run (.loop test (some value) body) :: tasks) next := by
  obtain ⟨tested, entry, tests, steps, inner⟩ := loop.layout
  cases steps with
  | none => exact .run (.here _) loop.flowAt loop.part rest
  | some behind skips has pops repeats =>
      exact .run (.here _) (.evaluate has ⟨rfl, pops⟩) loop.part.clause
        (.run repeats.reaches loop.flowAt loop.part rest)

/-- The code that makes use of the value of an expression, behind the expression. -/
def UseAt (code : CompleteCode) (whole : Flow) (value : Stretch) (use : Use) (tasks : List Task) :
    Prop :=
  match use with
  | .sink sink => ∃ loops stop,
      code.SinkAt sink value.stop stop ∧ code.Follows whole loops tasks stop
  | .test whenTrue whenFalse => value ∈ whole.tests ∧ ∃ target,
      code.Jumps value.stop .jumpIfFalse target ∧
        (∃ loops, code.Follows whole loops (whenTrue ++ tasks) (value.stop + 1)) ∧
          ∃ loops, code.Follows whole loops (whenFalse ++ tasks) target
  | .return_ => code.Holds value.stop .ret

end CompleteCode

end PocketScript
