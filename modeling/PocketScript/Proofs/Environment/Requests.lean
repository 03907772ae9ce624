import PocketScript.Proofs.Compile.Orderly
import PocketScript.Proofs.Environment.Accounted
import PocketScript.Proofs.Environment.Answers

/-!
# The accounts of requests

Whoever asks something of an environment hands references over with the request and is given others
with the answer (`Request.takes`, `Request.gives`); of some values it must be known that they are
kept by somebody (`Request.reads`). Then the answer keeps the environment balanced, and is a fair
one: a program that was compiled is verified, and a failure is an ordinary one
(`Environment.served_answer`).
-/

namespace PocketScript

/-- What is owned by whoever has taken a due timer. -/
def DueTimer.references (due : DueTimer) : List Reference :=
  .value due.callback :: .value due.param :: due.block.toList.map .timer

namespace Request

/-- The references that are handed over with a request. -/
def takes : Request → List Reference
  | .release value => [.value value]
  | .settle due => due.references
  | _ => []

/-- The values that are kept more often afterwards. -/
def reads : Request → List Value
  | .retain value => [value]
  | .startTimer _ callback _ param => [callback, param]
  | _ => []

/-- Only verified programs are loaded. -/
def IsSound : Request → Prop
  | .load program => program.Verified
  | _ => True

/-- The references that are handed over with an answer. The top level of a loaded program is a
function without a block. -/
def gives : (request : Request) → request.Answer → List Reference
  | .retain value, _ => [.value value]
  | .allocString _, .ok value => [.value value]
  | .takeDue _, due => due.flatMap DueTimer.references
  | .load _, .ok unit => [.value (.function ⟨unit, 0⟩)]
  | _, _ => []

/-- What is known of an answer. -/
def Fair : (request : Request) → request.Answer → Prop
  | .allocString _, .error fault | .startTimer _ _ _ _, .error fault | .load _, .error fault =>
      fault.isOrdinary = true
  | .compile _, .ok program => program.Verified
  | _, _ => True

end Request

namespace Environment

variable {trusted : Prop} {programs : Array Program} {env : Environment}
  {outside other : List Reference} {value : Value}

/-- With these programs, the environment is balanced with further references. -/
structure Books (trusted : Prop) (programs : Array Program) (outside : List Reference)
    (env : Environment) : Prop where
  programs : env.programs = programs
  balanced : env.Balanced trusted outside

/-- Somebody keeps the value, or there is nothing to keep. -/
def Covers (outside : List Reference) (value : Value) : Prop :=
  .value value ∈ outside ∨ value.IsPlain

/-- More references cover no less. -/
theorem Covers.mono (covers : Covers outside value)
    (more : ∀ reference ∈ outside, reference ∈ other) : Covers other value :=
  covers.imp (more _) id

namespace Books

theorem knows (books : Books trusted programs outside env) (covers : Covers outside value) :
    env.Knows trusted value :=
  covers.elim books.balanced.knows fun plain => plain.knows env

theorem perm (books : Books trusted programs outside env) (same : outside.Perm other) :
    Books trusted programs other env :=
  ⟨books.programs, books.balanced.perm same⟩

theorem retain (books : Books trusted programs outside env)
    (knows : env.Knows trusted value) :
    Books trusted programs (.value value :: outside) (Environment.retain value env).2 :=
  ⟨books.programs, Heap.Balanced.retainValue books.balanced knows⟩

theorem retainCovered (books : Books trusted programs outside env)
    (covers : Covers outside value) :
    Books trusted programs (.value value :: outside) (Environment.retain value env).2 :=
  books.retain (books.knows covers)

/-- A reference may be released. -/
theorem release (books : Books trusted programs (.value value :: outside) env) :
    Books trusted programs outside (Environment.release value env).2 :=
  ⟨books.programs, Heap.Balanced.release books.balanced⟩

/-- And so may the block of a timer. -/
theorem releaseTimerBlock {block : Handle}
    (books : Books trusted programs (.timer block :: outside) env) :
    Books trusted programs outside (Environment.releaseBlock block env).2 :=
  ⟨books.programs, Heap.Balanced.releaseBlock books.balanced rfl⟩

/-- The log is no part of the books. -/
theorem logLine (books : Books trusted programs outside env) (line : String) :
    Books trusted programs outside (Environment.logLine line env).2 :=
  ⟨books.programs, books.balanced⟩

/-- References go from the timers to others, or from others to the timers. -/
theorem setTimers (books : Books trusted programs outside env) {timers : TimerList}
    (same : (outside ++ env.timers.timers.flatMap Timer.references).Perm
      (other ++ timers.timers.flatMap Timer.references)) :
    Books trusted programs other { env with timers } where
  programs := books.programs
  balanced := by
    refine Heap.Balanced.perm books.balanced (perm_of_count fun reference => ?_)
    have counts := same.count_eq reference
    simp only [kept, List.count_append] at counts ⊢
    omega

/-! ## Timers -/

/-- A timer gives up all that it refers to. -/
theorem releaseTimer {timer : Timer}
    (books : Books trusted programs (timer.references ++ outside) env) :
    Books trusted programs outside (Environment.releaseTimer timer env).2 := by
  have books : Books trusted programs (.value timer.callback :: .value timer.param ::
    .timer timer.block :: outside) env := books
  exact books.release.release.releaseTimerBlock

/-- And so do several timers. -/
theorem releaseTimers : ∀ {timers : List Timer} {env : Environment},
    Books trusted programs (timers.flatMap Timer.references ++ outside) env →
      Books trusted programs outside
        ((timers.forM Environment.releaseTimer : Update Unit) env).2
  | [], _, books => books
  | timer :: rest, env, books => by
      rw [List.flatMap_cons, List.append_assoc] at books
      change Books trusted programs outside ((rest.forM Environment.releaseTimer : Update Unit)
        (Environment.releaseTimer timer env).2).2
      exact releaseTimers books.releaseTimer

/-- What was kept for a timer that was due is given up. -/
theorem settle {due : DueTimer}
    (books : Books trusted programs (due.references ++ outside) env) :
    Books trusted programs outside (Environment.settle due env).2 := by
  have books : Books trusted programs (.value due.callback :: .value due.param ::
    (due.block.toList.map .timer ++ outside)) env := books
  have blocks : ∀ {blocks : List Handle} {env : Environment},
      Books trusted programs (blocks.map .timer ++ outside) env →
        Books trusted programs outside
          ((blocks.forM Environment.releaseBlock : Update Unit) env).2 := by
    intro blocks
    induction blocks with
    | nil => exact id
    | cons block rest ih => exact fun books => ih books.releaseTimerBlock
  exact blocks books.release.release

/-- What the taking of a due timer moves away from the timers. -/
def moved (due : DueTimer) : List Reference := if due.block.isNone then [] else due.references

/-- A timer that goes on shares its values with the one that is due. -/
theorem retainDue {due : DueTimer} (books : Books trusted programs (moved due ++ outside) env)
    (kept : due.block.isNone = true → .value due.callback ∈ env.kept ∧
      .value due.param ∈ env.kept) :
    Books trusted programs (due.references ++ outside) (Environment.retainDue due env).2 := by
  unfold moved at books
  unfold Environment.retainDue
  cases block : due.block with
  | some owned =>
      rw [block] at books
      exact books
  | none =>
      rw [block, Option.isNone_none, if_pos rfl, List.nil_append] at books
      rw [block] at kept
      have knows : ∀ value, .value value ∈ env.kept → env.Knows trusted value :=
        fun value member => Heap.Balanced.mem books.balanced (List.mem_append_right _ member)
      have first := books.retain (knows _ (kept rfl).1)
      have there : (Environment.retain due.callback env).2.Knows trusted due.param :=
        Heap.Balanced.mem first.balanced (List.mem_append_right _ (kept rfl).2)
      refine (first.retain there).perm (perm_of_count fun reference => ?_)
      rw [DueTimer.references, block]
      simp only [Option.toList_none, List.map_nil, List.nil_append, List.cons_append,
        List.count_cons]
      omega

theorem kept_retainDue (due : DueTimer) (env : Environment) :
    (Environment.retainDue due env).2.kept = env.kept := by
  unfold Environment.retainDue
  split <;> rfl

theorem retainAllDue : ∀ {dues : List DueTimer} {env : Environment}
    {outside : List Reference}, Books trusted programs (dues.flatMap moved ++ outside) env →
      (∀ due ∈ dues, due.block.isNone = true → .value due.callback ∈ env.kept ∧
        .value due.param ∈ env.kept) →
      Books trusted programs (dues.flatMap DueTimer.references ++ outside)
        ((dues.forM Environment.retainDue : Update Unit) env).2
  | [], _, _, books, _ => books
  | due :: rest, env, outside, books, kept => by
      rw [List.flatMap_cons, List.append_assoc] at books
      have one := books.retainDue (kept due List.mem_cons_self)
      have swapped : Books trusted programs (rest.flatMap moved ++ (due.references ++ outside)) _ :=
        one.perm (perm_of_count fun reference => by
          simp only [List.count_append]
          omega)
      have all := retainAllDue swapped fun other member none => by
        rw [kept_retainDue]
        exact kept other (List.mem_cons_of_mem _ member) none
      refine all.perm (perm_of_count fun reference => ?_)
      simp only [List.flatMap_cons, List.count_append]
      omega

/-- What a poll takes of the timers, and what it leaves of them. -/
theorem taken_perm (now : UInt32) : ∀ timers : List Timer,
    (timers.flatMap Timer.references).Perm
      ((timers.filterMap (·.due? now)).flatMap moved ++
        (timers.filterMap (·.remaining? now)).flatMap Timer.references)
  | [] => .nil
  | timer :: rest => by
      have others := taken_perm now rest
      refine perm_of_count fun reference => ?_
      have counts := others.count_eq reference
      unfold Timer.due? Timer.remaining? at counts ⊢
      by_cases due : timer.isDue now = true
      · by_cases repeats : timer.repeats = true
        · simp [due, repeats, moved, Timer.references, List.count_cons, List.count_append] at counts ⊢
          omega
        · simp [due, repeats, moved, Timer.references, DueTimer.references, List.count_cons,
            List.count_append] at counts ⊢
          omega
      · simp [due, Timer.references, List.count_cons, List.count_append] at counts ⊢
        omega

/-- Those that are due are handed out with their references. -/
theorem takeDue (books : Books trusted programs outside env) (now : UInt32) :
    Books trusted programs
      ((Environment.takeDue now env).1.flatMap DueTimer.references ++ outside)
      (Environment.takeDue now env).2 := by
  have taken : Books trusted programs
      ((env.timers.timers.filterMap (·.due? now)).flatMap moved ++ outside)
      { env with timers := (env.timers.takeDue now).2 } :=
    books.setTimers (perm_of_count fun reference => by
      have counts := (taken_perm now env.timers.timers).count_eq reference
      simp only [TimerList.takeDue, List.count_append] at counts ⊢
      omega)
  refine retainAllDue taken fun due member none => ?_
  -- Of a timer that goes on, only the origin is another one.
  obtain ⟨timer, there, isDue⟩ := List.mem_filterMap.mp member
  have goesOn : ∃ left, timer.remaining? now = some left ∧ left.callback = due.callback ∧
      left.param = due.param := by
    unfold Timer.due? at isDue
    unfold Timer.remaining?
    split at isDue
    · rename_i passed
      injection isDue with isDue
      subst isDue
      rw [if_pos passed]
      by_cases repeats : timer.repeats = true
      · rw [if_pos repeats]
        exact ⟨_, rfl, rfl, rfl⟩
      · rw [if_neg repeats] at none
        cases none
    · cases isDue
  obtain ⟨left, remains, callback, param⟩ := goesOn
  have stays : left ∈ env.timers.timers.filterMap (·.remaining? now) :=
    List.mem_filterMap.mpr ⟨timer, there, remains⟩
  have kept : ∀ reference ∈ left.references, reference ∈
      { env with timers := (env.timers.takeDue now).2 }.kept :=
    fun reference held => List.mem_append_right _ (List.mem_flatMap.mpr ⟨left, stays, held⟩)
  rw [← callback, ← param]
  exact ⟨kept _ List.mem_cons_self, kept _ (List.mem_cons_of_mem _ List.mem_cons_self)⟩

/-- What is found is there beside what is left without it. -/
theorem perm_of_find? {timers : List Timer} {isThat : Timer → Bool} {timer : Timer}
    (found : timers.find? isThat = some timer) : timers.Perm (timer :: timers.eraseP isThat) := by
  obtain ⟨that, before, behind, rfl, others⟩ := List.find?_eq_some_iff_append.mp found
  rw [List.eraseP_append_right _ (by simpa using others), List.eraseP_cons_of_pos that]
  exact List.perm_middle

/-- A timer that is stopped gives up its references. -/
theorem stopTimer (books : Books trusted programs outside env) (id : UInt32) :
    Books trusted programs outside (Environment.stopTimer id env).2 := by
  unfold Environment.stopTimer
  rw [update_bind, update_view]
  simp only
  rw [update_bind]
  cases found : env.timers.timers.find? (·.id == id) with
  | none =>
      have stopped : env.timers.stop id = (none, env.timers) := by
        unfold TimerList.stop
        rw [found, List.eraseP_of_forall_not (by simpa using List.find?_eq_none.mp found)]
      rw [stopped]
      exact books
  | some timer =>
      have stopped : Books trusted programs (timer.references ++ outside)
          { env with timers := (env.timers.stop id).2 } :=
        books.setTimers (perm_of_count fun reference => by
          have counts := ((perm_of_find? found).flatMap_right Timer.references).count_eq reference
          simp only [TimerList.stop, List.flatMap_cons, List.count_append] at counts ⊢
          omega)
      have first : (env.timers.stop id).1 = some timer := found
      rw [first]
      exact stopped.releaseTimer.logLine _

/-- And so do all timers. -/
theorem stopTimers (books : Books trusted programs outside env) :
    Books trusted programs outside (Environment.stopTimers env).2 := by
  have stopped : Books trusted programs (env.timers.timers.flatMap Timer.references ++ outside)
      { env with timers := env.timers.stopAll.2 } :=
    books.setTimers (perm_of_count fun reference => by
      simp only [TimerList.stopAll, List.flatMap_nil, List.count_append, List.count_nil]
      omega)
  have released := releaseTimers stopped
  unfold Environment.stopTimers
  rw [update_bind, update_view]
  simp only
  rw [update_bind, update_bind]
  split
  · exact released
  · exact released.logLine _

/-- A failure that is noted in the log. -/
theorem notingFullHeap {α : Type} {action : Action α} {given : α → List Reference}
    (ensures : Ensures True (Books trusted programs outside) action
      (fun result => Books trusted programs (given result ++ outside))
      (Books trusted programs outside)) :
    Ensures True (Books trusted programs outside) (Environment.notingFullHeap action)
      (fun result => Books trusted programs (given result ++ outside))
      (Books trusted programs outside) := by
  intro env books
  have here := ensures env books
  unfold Environment.notingFullHeap
  rw [action_tryCatch]
  generalize action env = outcome at here
  obtain ⟨fault | result, after⟩ := outcome
  · simp only
    rw [action_bind, action_lift]
    exact ⟨here.1, here.2.logLine _⟩
  · exact here

/-- An operation on the heap hands out what it gives. -/
theorem onHeap {α : Type} {operation : Heap → Heap.Outcome α} {given : α → List Reference}
    (gives : ∀ heap outside, Heap.Balanced (.typed (Offers trusted programs)) heap outside →
      Heap.Gives (.typed (Offers trusted programs)) outside given (operation heap)) :
    Ensures True (Books trusted programs outside) (Environment.onHeap operation)
      (fun result => Books trusted programs (given result ++ outside))
      (Books trusted programs outside) := by
  rintro env ⟨rfl, balanced⟩
  have told := gives env.heap _ balanced
  unfold Environment.onHeap
  generalize operation env.heap = outcome at told
  obtain ⟨fault | result, heap⟩ := outcome
  · exact ⟨fun _ => told.1, rfl, told.2⟩
  · refine ⟨rfl, ?_⟩
    unfold Balanced
    rw [List.append_assoc]
    exact told

theorem ensures_allocString (text : String) :
    Ensures True (Books trusted programs outside) (Environment.allocString text)
      (fun value => Books trusted programs ([.value value] ++ outside))
      (Books trusted programs outside) :=
  notingFullHeap (onHeap fun _ _ balanced => Heap.Balanced.allocString balanced text)

/-- A timer that is started keeps references of its own. -/
theorem ensures_startTimer (wait : UInt32) (repeats : Bool) {callback param : Value}
    (covers : Covers outside callback) (also : Covers outside param) :
    Ensures True (Books trusted programs outside) (Environment.startTimer wait callback repeats param)
      (fun _ => Books trusted programs outside) (Books trusted programs outside) := by
  unfold Environment.startTimer
  split
  · refine ensures_bind (notingFullHeap (onHeap fun _ _ balanced =>
      Heap.Balanced.allocTimer balanced)) fun block env books => ?_
    have first := books.retainCovered (covers.mono fun _ => List.mem_append_right _)
    have both := first.retainCovered
      (also.mono fun _ member => List.mem_cons_of_mem _ (List.mem_append_right _ member))
    rw [action_bind, action_lift]
    simp only
    rw [action_bind, action_lift]
    simp only
    rw [action_bind_ok (action_view _ _), action_bind_ok (action_view _ _)]
    refine Books.logLine (both.setTimers (perm_of_count fun reference => ?_)) _
    simp only [TimerList.start, Timer.references, List.flatMap_append, List.flatMap_cons,
      List.flatMap_nil, List.append_nil, List.count_append, List.count_cons, List.count_nil]
    omega
  · exact ensures_throw (fun _ => rfl) fun _ => id

end Books

/-! ## Programs -/

/-- All programs are verified ones. -/
def AllVerified (programs : Array Program) : Prop :=
  ∀ (unit : Nat) program, programs[unit]? = some program → program.Verified

/-- Programs stay where they are, and further ones are verified, too. -/
structure Grown (before after : Array Program) : Prop where
  kept : ∀ (unit : Nat) program, before[unit]? = some program → after[unit]? = some program
  verified : AllVerified before → AllVerified after

/-- No program has to be added. -/
theorem Grown.refl (programs : Array Program) : Grown programs programs := ⟨fun _ _ => id, id⟩

/-- A verified program may be. -/
theorem Grown.push {program : Program} (programs : Array Program) (verified : program.Verified) :
    Grown programs (programs.push program) where
  kept unit other there := by
    obtain ⟨inside, same⟩ := Array.getElem?_eq_some_iff.mp there
    exact (Array.getElem?_push_lt inside).trans (congrArg some same)
  verified all unit other there := by
    rw [Array.getElem?_push] at there
    split at there
    · injection there with same
      exact same ▸ verified
    · exact all unit other there

/-- What could be called still can. -/
theorem Grown.offers {before after : Array Program} (grown : Grown before after)
    {target : FunctionRef} {cells : Nat} (offers : Offers trusted before target cells) :
    Offers trusted after target cells := by
  intro trust
  obtain ⟨program, function, there, found, uses⟩ := offers trust
  exact ⟨program, function, grown.kept _ _ there, found, uses⟩

/-- Whatever compiles is verified. -/
theorem verified_of_compile {bytes : List UInt8} {limits : CompileLimits} {known : String → Bool}
    {program : Program} (compiled : PocketScript.compile bytes limits known = .ok program) :
    program.Verified := by
  obtain ⟨done, leads, rfl⟩ := leads_of_compile compiled
  exact Compiling.verified_unit leads

/-- And every compiled program is verified. -/
theorem verified_compile {source : Source} {program : Program}
    (compiled : env.compile source = .ok program) : program.Verified := by
  unfold Environment.compile at compiled
  generalize ran : PocketScript.compile _ _ _ = outcome at compiled
  cases outcome with
  | error error => cases compiled
  | ok result =>
      injection compiled with same
      exact same ▸ verified_of_compile ran

/-- A program that is loaded offers its top level. -/
theorem Books.load (books : Books trusted programs outside env) {program : Program}
    (verified : program.Verified) :
    match Environment.load program env with
    | (.ok unit, after) =>
        Books trusted (programs.push program) (.value (.function ⟨unit, 0⟩) :: outside) after
    | (.error fault, after) => fault.isOrdinary = true ∧ Books trusted programs outside after := by
  obtain ⟨main, found, plain⟩ := verified.main
  have some : ¬ program.functions.isEmpty = true := by
    intro none
    rw [Array.isEmpty_iff] at none
    unfold Program.function? at found
    rw [none] at found
    cases found
  unfold Environment.load
  rw [if_neg some]
  simp only
  rw [action_bind_ok (action_view _ _), action_bind_ok (action_view _ _)]
  by_cases full : env.codeUsed + program.footprint > env.config.codeSpace
  · rw [if_pos full]
    exact ⟨rfl, books.logLine _⟩
  · rw [if_neg full]
    have unit : env.programs.size = env.units.size := Array.size_map
    have pushed : (env.units.push
        { program, slots := Array.replicate program.strings.size none }).map (·.program) =
          programs.push program := by
      rw [Array.map_push, ← books.programs]
      rfl
    have grown := Grown.push programs verified
    refine ⟨pushed, ?_⟩
    have balanced := books.balanced
    unfold Balanced at balanced ⊢
    rw [books.programs] at balanced
    change Heap.Balanced (.typed (Offers trusted (Array.map _ (Array.push _ _)))) _ _
    rw [pushed]
    refine Heap.Balanced.add (balanced.mono (Rules.typed_stricter fun _ _ => grown.offers)) rfl
      ⟨nofun, fun target same => ?_⟩
    injection same with same
    injection same with same
    subst same
    refine fun _ => ⟨program, main, ?_, found, plain⟩
    change (programs.push program)[env.units.size]? = _
    rw [← unit, books.programs, Array.getElem?_push_size]

/-! ## All requests -/

variable {request : Request} {rest : List Reference}

/-- What a request that hands over its references, and asks only about values that are kept, is
answered with. -/
structure Served (trusted : Prop) (programs : Array Program) (rest : List Reference)
    (request : Request) (answer : request.Answer) (after : Environment) : Prop where
  fair : request.Fair answer
  books : ∃ programs', Grown programs programs' ∧
    Books trusted programs' (request.gives answer ++ rest) after

/-- A request that loads nothing. -/
theorem Served.of_books {answer : request.Answer} {after : Environment} (fair : request.Fair answer)
    (books : Books trusted programs (request.gives answer ++ rest) after) :
    Served trusted programs rest request answer after :=
  ⟨fair, programs, .refl _, books⟩

/-- Whatever is requested, the books stay right. -/
theorem served_answer (request : Request) (sound : request.IsSound)
    (covers : ∀ value ∈ request.reads, Covers rest value)
    (books : Books trusted programs (request.takes ++ rest) env) :
    Served trusted programs rest request (answer request env).1
      (answer request env).2 := by
  cases request with
  | retain value => exact .of_books trivial (books.retainCovered (covers value List.mem_cons_self))
  | release value => exact .of_books trivial books.release
  | allocString text =>
      have allocated := Books.ensures_allocString text env books
      unfold answer
      change Served trusted programs rest (.allocString text)
        (Environment.allocString text env).1 (Environment.allocString text env).2
      generalize Environment.allocString text env = outcome at allocated
      obtain ⟨fault | value, after⟩ := outcome
      · exact .of_books (allocated.1 trivial) allocated.2
      · exact .of_books trivial allocated
  | textOf value => exact .of_books trivial books
  | display value => exact .of_books trivial books
  | print text => exact .of_books trivial ⟨books.programs, books.balanced⟩
  | log line => exact .of_books trivial (books.logLine line)
  | ticks => exact .of_books trivial books
  | startTimer wait callback repeats param =>
      have started := Books.ensures_startTimer wait repeats (covers callback List.mem_cons_self)
        (covers param (List.mem_cons_of_mem _ List.mem_cons_self)) env books
      change Served trusted programs rest (.startTimer wait callback repeats param)
        (Environment.startTimer wait callback repeats param env).1
        (Environment.startTimer wait callback repeats param env).2
      generalize Environment.startTimer wait callback repeats param env = outcome at started
      obtain ⟨fault | id, after⟩ := outcome
      · exact .of_books (started.1 trivial) started.2
      · exact .of_books trivial started
  | stopTimer id => exact .of_books trivial (books.stopTimer id)
  | stopTimers => exact .of_books trivial books.stopTimers
  | hasTimer id => exact .of_books trivial books
  | takeDue now => exact .of_books trivial (books.takeDue now)
  | settle due => exact .of_books trivial books.settle
  | compile source =>
      refine .of_books ?_ ?_
      · change Request.Fair (.compile source) (env.compile source)
        cases compiled : env.compile source with
        | error diagnostic => trivial
        | ok program => exact verified_compile compiled
      · cases compiled : (answer (.compile source) env).1 <;> exact books
  | load program =>
      have loaded := books.load sound
      change Served trusted programs rest (.load program) (Environment.load program env).1
        (Environment.load program env).2
      generalize Environment.load program env = outcome at loaded
      obtain ⟨fault | unit, after⟩ := outcome
      · exact .of_books loaded.1 loaded.2
      · exact ⟨trivial, _, .push programs sound, loaded⟩

end Environment

end PocketScript
