import Mathlib.Data.List.Find
import PocketScript.Proofs.Compile.Levels
import PocketScript.Proofs.Machine.Nested

/-!
# A step of a compiled function

Where the instructions of a compiled body stand in the code of its function, what can be seen at each
of them, and what the machine does there (`Activity.Runs.step_eq`). The code of an expression leads to
its end, however its instructions jump (`Activity.Runs.computes`), and nothing is to be seen on the
way.
-/

namespace PocketScript

open Environment

variable {routine : Routine} {body : List Stmt} {index other : Nat} {instr : PendingInstruction}

namespace Routine

/-- The final form of an instruction of the body. -/
def settled (routine : Routine) (instr : PendingInstruction) : Instruction :=
  Assembler.settle routine.captured (routine.code.assembler.target routine.captured) instr

theorem op_settled (instr : PendingInstruction) :
    (routine.settled instr).op = Assembler.settledOp routine.captured instr := by
  rw [settled, Assembler.settle_eq]

theorem op_settled_of_isControl (control : instr.op.isControl = true)
    (noStore : instr.op ≠ .storeLocal) :
    (routine.settled instr).op = instr.op := by
  rw [op_settled, Assembler.settledOp_of_not_slot]
  revert control noStore
  cases instr.op <;> decide

theorem isPlain_settled (instr : PendingInstruction) :
    (routine.settled instr).op.isPlain = instr.op.isPlain := by
  rw [op_settled]
  exact Assembler.settledOp_congr Opcode.isPlain rfl rfl _ _

theorem settled_of_none {op : Opcode} {a b : UInt16} (other : op.refersToSlot = false) :
    routine.settled ⟨op, a, b, none⟩ = ⟨op, a, b⟩ := by
  rw [settled, Assembler.settle_eq, Assembler.settledOp_of_not_slot _ other]

theorem place_succ (found : routine.code.assembler.pending[index]? = some instr) :
    routine.place (index + 1) = routine.place index + (routine.settled instr).size := by
  rw [place, Assembler.offset_succ routine.captured found, settled, Assembler.settle_size]
  rfl

/-- Later instructions stand at later places. -/
theorem place_lt (inside : index < routine.code.assembler.pending.size) (order : index < other) :
    routine.place index < routine.place other := by
  have next := place_succ (Array.getElem?_eq_getElem inside)
  have positive : 0 < (routine.settled routine.code.assembler.pending[index]).size :=
    Opcode.size_pos _
  have mono : routine.place (index + 1) ≤ routine.place other :=
    Assembler.offset_mono _ _ order
  omega

/-- So a place tells the instruction. -/
theorem place_inj (inside : index < routine.code.assembler.pending.size)
    (inside' : other < routine.code.assembler.pending.size) :
    routine.place index = routine.place other ↔ index = other := by
  refine ⟨fun same => ?_, fun same => by rw [same]⟩
  rcases Nat.lt_trichotomy index other with before | here | behind
  · have := place_lt inside before
    omega
  · exact here
  · have := place_lt inside' behind
    omega

theorem place_zero (routine : Routine) : routine.place 0 = 3 * routine.boxed.length := by
  unfold place Assembler.offset boxed
  rw [List.take_zero, sumOver_nil, Nat.add_zero, Assembler.entrySize_eq, List.length_map]

namespace Implements

variable (implements : routine.Implements body)

include implements

/-- The instructions of the body are proper, and their jumps lead to instructions of the body. -/
theorem proper (found : routine.code.assembler.pending[index]? = some instr) :
    instr.IsProper ∧ ∀ label, instr.target = some label →
      ∃ target, routine.code.Places label target ∧ target < routine.code.assembler.pending.size := by
  obtain ⟨stop, statements, holds, size⟩ := implements.layout
  have layout : routine.code.BodyAt body routine.flow := ⟨stop, statements, .function holds size⟩
  obtain ⟨last, -, same, -, -, sound⟩ := layout.sound
  have inside := (Array.getElem?_eq_some_iff.mp found).1
  obtain ⟨instr', found', sound⟩ := sound index (Nat.zero_le _) (by omega)
  obtain rfl : instr' = instr := Option.some.inj (found'.symm.trans found)
  refine ⟨sound.proper, fun label target => ?_⟩
  obtain ⟨-, -, place, places, below, -⟩ := sound.taken label target
  exact ⟨place, places, by omega⟩

theorem decodes (found : routine.code.assembler.pending[index]? = some instr) :
    routine.function.code.decode (routine.place index) = .ok (routine.settled instr) := by
  obtain ⟨_, _, _, finished⟩ := implements.finished
  exact Assembler.decode_finish finished found
    (Assembler.isCanonical_settle (implements.proper found).1)

/-- A jump leads to the place of its target. -/
theorem jumps_to {label : Label} {target : Nat}
    (found : routine.code.assembler.pending[index]? = some instr)
    (jumps : instr.target = some label) (places : routine.code.Places label target) :
    (routine.settled instr).a.toNat = routine.place target := by
  obtain ⟨_, _, _, finished⟩ := implements.finished
  obtain ⟨-, small, -⟩ := Assembler.finish_eq_ok finished
  obtain ⟨target', places', inside⟩ := (implements.proper found).2 label jumps
  obtain rfl : target = target' := Option.some.inj (Option.some.inj (places.symm.trans places'))
  have mono : routine.place target ≤ 65535 :=
    Nat.le_trans (Assembler.offset_mono _ _ (Nat.le_of_lt inside)) small
  rw [settled, Assembler.settle_eq, jumps]
  simp only
  rw [Assembler.target_eq routine.captured places, UInt16.toNat_ofNat']
  exact Nat.mod_eq_of_lt (by unfold place at mono; omega)

/-- The code starts with the instructions that box slots. -/
theorem boxes {slot : UInt16} (found : routine.boxed[index]? = some slot) :
    routine.function.code.decode (3 * index) = .ok ⟨.makeCell, slot, 0⟩ := by
  obtain ⟨_, _, _, finished⟩ := implements.finished
  unfold boxed at found
  rw [List.getElem?_map] at found
  obtain ⟨instr, there, rfl⟩ := Option.map_eq_some_iff.mp found
  rw [Assembler.decode_entry finished there]
  exact congrArg Except.ok (Assembler.boxing_eq (List.mem_of_getElem? there))

theorem ordered :
    ∃ stop, routine.code.Ordered 0 stop routine.flow.stretches ∧
      routine.code.assembler.pending.size = stop + 1 := by
  obtain ⟨stop, statements, -, size⟩ := implements.layout
  exact ⟨stop, statements.flowAt.ordered, size⟩

/-- An expression lies within the code, and something stands behind it. -/
theorem inside {value : Stretch} (member : value ∈ routine.flow.stretches) :
    value.start < value.stop ∧ value.stop < routine.code.assembler.pending.size := by
  obtain ⟨stop, ordered, size⟩ := implements.ordered
  obtain ⟨has, -, below⟩ := ordered.inside value member
  exact ⟨has.nonempty, by omega⟩

/-- Of two expressions one lies behind the other. -/
theorem apart {first second : Stretch} (one : first ∈ routine.flow.stretches)
    (two : second ∈ routine.flow.stretches) :
    first = second ∨ first.stop < second.start ∨ second.stop < first.start := by
  obtain ⟨stop, ordered, size⟩ := implements.ordered
  have apart := List.pairwise_iff_getElem.mp ordered.apart
  obtain ⟨index, inside, rfl⟩ := List.getElem_of_mem one
  obtain ⟨index', inside', rfl⟩ := List.getElem_of_mem two
  rcases Nat.lt_trichotomy index index' with before | same | behind
  · exact .inr (.inl (apart _ _ inside inside' before))
  · exact .inl (by simp only [same])
  · exact .inr (.inr (apart _ _ inside' inside behind))

/-- A test is an expression with a jump behind it. -/
theorem tested {test : Stretch} (member : test ∈ routine.flow.tests) :
    test ∈ routine.flow.stretches ∧
      ∃ target, routine.code.Jumps test.stop .jumpIfFalse target := by
  obtain ⟨stop, statements, -, -⟩ := implements.layout
  exact statements.flowAt.tests test member

end Implements

end Routine

namespace Activity

variable {α : Type} {activity : Activity α} {env after : Environment} {value : Stretch}
  {pc : Nat}

/-- What a flow's expression is found by. -/
theorem find?_eq_some {values : List Stretch} {property : Stretch → Bool} (member : value ∈ values)
    (has : property value = true) (only : ∀ other ∈ values, property other = true → other = value) :
    values.find? property = some value := by
  cases found : values.find? property with
  | none =>
      have missing := List.find?_eq_none.mp found value member
      exact absurd has missing
  | some other =>
      rw [only other (List.mem_of_find?_eq_some found) (List.find?_some found)]

/-! ## What can be seen -/

theorem eventAt_of_boxes {slot : UInt16} (implements : activity.routine.Implements body)
    (found : activity.routine.boxed[index]? = some slot) (here : env.position = 3 * index) :
    activity.eventAt env = some (.boxes slot) := by
  unfold eventAt
  simp only
  rw [here, implements.boxes found]

/-- No expression begins with an instruction of a statement. -/
theorem no_start_of_isControl (implements : activity.routine.Implements body)
    (found : activity.routine.code.assembler.pending[index]? = some instr)
    (control : instr.op.isControl = true) :
    activity.routine.flow.stretches.find? (·.start = index) = none := by
  obtain ⟨stop, ordered, -⟩ := implements.ordered
  refine List.find?_eq_none.mpr fun other there same => ?_
  obtain ⟨instr', found', noControl⟩ := (ordered.inside other there).1.starts
  rw [of_decide_eq_true same] at found'
  obtain rfl : instr' = instr := Option.some.inj (found'.symm.trans found)
  rw [control] at noControl
  cases noControl

section

variable (implements : activity.routine.Implements body)
  (here : env.position = activity.routine.place index)

include implements here

/-- Behind the entry nothing is boxed. -/
theorem eventAt_of_body
    (found : activity.routine.code.assembler.pending[index]? = some instr)
    (noBox : instr.op ≠ .makeCell) :
    activity.eventAt env =
      match activity.routine.flow.stretches.find? (·.start = index) with
      | some value => some (.evaluates value)
      | none =>
          (activity.routine.flow.tests.find? (·.stop = index)).bind fun test =>
            match (truth activity.activation env).1 with
            | .ok truthy => some (.tests test truthy)
            | .error _ => none := by
  have inside := (Array.getElem?_eq_some_iff.mp found).1
  have starts : activity.routine.flow.stretches.find?
      (activity.routine.place ·.start = env.position) =
        activity.routine.flow.stretches.find? (·.start = index) := by
    refine List.find?_congr fun value member => ?_
    have bounds := implements.inside member
    rw [here]
    exact decide_eq_decide.mpr (Routine.place_inj (by omega) inside)
  have stops : activity.routine.flow.tests.find?
      (activity.routine.place ·.stop = env.position) =
        activity.routine.flow.tests.find? (·.stop = index) := by
    refine List.find?_congr fun value member => ?_
    have bounds := implements.inside (implements.tested member).1
    rw [here]
    exact decide_eq_decide.mpr (Routine.place_inj bounds.2 inside)
  have other : (activity.routine.settled instr).op ≠ .makeCell := by
    rw [Routine.op_settled]
    exact Assembler.settledOp_ne_makeCell _ noBox
  unfold eventAt
  simp only
  rw [starts, stops, here, implements.decodes found]
  generalize activity.routine.settled instr = final at other
  obtain ⟨op, a, b⟩ := final
  cases op <;> first | rfl | exact absurd rfl other

/-- At its first instruction an expression begins. -/
theorem eventAt_of_start (member : value ∈ activity.routine.flow.stretches)
    (first : index = value.start) :
    activity.eventAt env = some (.evaluates value) := by
  subst first
  obtain ⟨stop, ordered, -⟩ := implements.ordered
  obtain ⟨instr, found, -, noBox, -⟩ :=
    (ordered.inside value member).1.keeps value.start (Nat.le_refl _) (implements.inside member).1
  rw [eventAt_of_body implements here found noBox,
    find?_eq_some member (decide_eq_true rfl) fun other there same => ?_]
  have bounds := implements.inside there
  have bounds' := implements.inside member
  have starts := of_decide_eq_true same
  rcases implements.apart there member with equal | before | behind
  · exact equal
  · omega
  · omega

/-- Within an expression there is nothing to see. -/
theorem eventAt_of_inside (member : value ∈ activity.routine.flow.stretches)
    (above : value.start < index) (below : index < value.stop) :
    activity.eventAt env = none := by
  obtain ⟨stop, ordered, -⟩ := implements.ordered
  obtain ⟨instr, found, -, noBox, -⟩ :=
    (ordered.inside value member).1.keeps index (Nat.le_of_lt above) below
  have starts : activity.routine.flow.stretches.find? (·.start = index) = none := by
    refine List.find?_eq_none.mpr fun other there same => ?_
    have bounds := implements.inside there
    have starts := of_decide_eq_true same
    rcases implements.apart there member with rfl | before | behind <;> omega
  have stops : activity.routine.flow.tests.find? (·.stop = index) = none := by
    refine List.find?_eq_none.mpr fun other there same => ?_
    have bounds := implements.inside (implements.tested there).1
    have stops := of_decide_eq_true same
    rcases implements.apart (implements.tested there).1 member with rfl | before | behind <;> omega
  rw [eventAt_of_body implements here found noBox, starts, stops]
  rfl

/-- Behind a test its value is looked at. -/
theorem eventAt_of_test (member : value ∈ activity.routine.flow.tests)
    (last : index = value.stop) :
    activity.eventAt env =
      match (truth activity.activation env).1 with
      | .ok truthy => some (.tests value truthy)
      | .error _ => none := by
  subst last
  obtain ⟨listed, target, label, found, -⟩ := implements.tested member
  rw [eventAt_of_body implements here found (fun same => by cases same),
    no_start_of_isControl implements found rfl,
    find?_eq_some member (decide_eq_true rfl) fun other there same => ?_]
  · rfl
  · have listed' := (implements.tested there).1
    have bounds := implements.inside listed
    have bounds' := implements.inside listed'
    have stops := of_decide_eq_true same
    rcases implements.apart listed' listed with equal | before | behind
    · exact equal
    · omega
    · omega

/-- Other instructions of statements cannot be seen. -/
theorem eventAt_of_control
    (found : activity.routine.code.assembler.pending[index]? = some instr)
    (control : instr.op.isControl = true) (noTest : instr.op ≠ .jumpIfFalse) :
    activity.eventAt env = none := by
  have noBox : instr.op ≠ .makeCell := by
    intro same
    rw [same] at control
    cases control
  have stops : activity.routine.flow.tests.find? (·.stop = index) = none := by
    refine List.find?_eq_none.mpr fun other there same => ?_
    obtain ⟨-, target, label, jumps, -⟩ := implements.tested there
    have jumps : activity.routine.code.assembler.pending[other.stop]? = _ := jumps
    rw [of_decide_eq_true same, found] at jumps
    obtain rfl := Option.some.inj jumps
    exact noTest rfl
  rw [eventAt_of_body implements here found noBox,
    no_start_of_isControl implements found control, stops]
  rfl

end

/-! ## What the machine does -/

/-- The function's frame is the topmost one, at a position. -/
structure Runs (activity : Activity α) (pc : Nat) (env : Environment) : Prop where
  last : env.frames.back? = some { activity.frame with pc }
  count : env.frames.size = activity.count
  loaded : env.programs[activity.frame.unit]? = some activity.program

theorem Runs.inPlace (runs : activity.Runs pc env) : activity.InPlace pc env :=
  ⟨by rw [← runs.count, ← Array.back?_eq_getElem?, runs.last], runs.loaded⟩

theorem Runs.position (runs : activity.Runs pc env) : env.position = pc := by
  unfold Environment.position
  rw [runs.last]
  rfl

theorem Runs.at_ (runs : activity.Runs pc env) (next : Nat) :
    activity.Runs next (env.at_ next) :=
  ⟨back?_at runs.last next, (size_at env next).trans runs.count, runs.loaded⟩

/-- Another environment with the same frames. -/
theorem Runs.mono (runs : activity.Runs pc env) (frames : after.frames = env.frames)
    (programs : after.programs = env.programs) : activity.Runs pc after :=
  ⟨frames ▸ runs.last, frames ▸ runs.count, programs ▸ runs.loaded⟩

/-- What it does is its own. -/
theorem Runs.isOwn (runs : activity.Runs pc env) (proper : activity.Proper) :
    activity.IsOwn ⟨env, .script activity.callers⟩ :=
  ⟨proper.callers, runs.count⟩

/-- And it has not ended. -/
theorem Runs.remains (runs : activity.Runs pc env) (control : Control α) :
    ¬ activity.HasLeft ⟨env, control⟩ :=
  Nat.not_lt.mpr (Nat.le_of_eq runs.count.symm)

/-- When it is the function's turn, its callers wait. -/
theorem Within.runs {machine : Machine α} (within : activity.Within pc machine)
    (own : activity.IsOwn machine) :
    machine = ⟨machine.environment, .script activity.callers⟩ ∧
      activity.Runs pc machine.environment := by
  obtain ⟨env, control⟩ := machine
  obtain ⟨⟨callers, waiting, above⟩, there, loaded⟩ := within
  cases control with
  | host program => exact own.elim
  | native program place callers => exact own.elim
  | script callers' =>
      obtain rfl : callers' = callers := Option.some.inj waiting
      obtain ⟨few, count⟩ := own
      have last : env.frames.back? = some { activity.frame with pc } := by
        rw [Array.back?_eq_getElem?, show env.frames.size = activity.count from count]
        exact there
      cases above with
      | here => exact ⟨rfl, last, count, loaded⟩
      | native caller place outer high above =>
          exact absurd high (Nat.not_le.mpr few)

/-- The function cannot be reached from a call of it that fails. -/
theorem fail_at (proper : activity.Proper) (runs : activity.Runs pc env) (next : Nat)
    (fault : Fault) :
    Machine.fail (env.at_ next) activity.callers fault =
      Machine.fail env activity.callers fault := by
  have above : activity.callers.frames < env.frames.size := runs.count ▸ proper.callers
  unfold Machine.fail
  rw [unwind_at above]

section

variable (proper : activity.Proper) (runs : activity.Runs pc env) {final : Instruction}
  (decodes : activity.routine.function.code.decode pc = .ok final)

include proper runs decodes

/-- The next instruction of the function. -/
theorem Runs.executeNext_eq :
    executeNext env =
      let (outcome, after) := execute activity.activation final (env.at_ (pc + final.size))
      (outcome.map fun _ => if final.op = .call then some final.a.toNat else none, after) := by
  have known : env.function? ({ activity.frame with pc } : Frame).target =
      some activity.routine.function := by
    rw [function?_eq]
    change (env.programs[activity.frame.unit]?).bind _ = _
    rw [runs.loaded]
    exact proper.known
  obtain ⟨loaded, unit, -, same⟩ := executeNext_of runs.last known
  have program : loaded.program = activity.program := by
    have there := runs.loaded
    unfold programs at there
    rw [Array.getElem?_map, show env.units[activity.frame.unit]? = some loaded from unit]
      at there
    exact Option.some.inj there
  rw [same, decodes, program]
  rfl

/-- An instruction that makes no call. -/
theorem Runs.step_eq (noCall : final.op ≠ .call) :
    Machine.step ⟨env, .script activity.callers⟩ =
      Machine.afterExecuting activity.callers
        (execute activity.activation final (env.at_ (pc + final.size))) := by
  have more : activity.callers.frames < env.frames.size := runs.count ▸ proper.callers
  change Machine.stepScript env activity.callers = _
  unfold Machine.stepScript
  rw [if_pos more, runs.executeNext_eq proper decodes]
  generalize execute _ _ _ = outcome
  obtain ⟨fault | _, after⟩ := outcome
  · rfl
  · simp only [Except.map, if_neg noCall]
    rfl

end

/-- The function goes on at a position, unless what it has done has failed. -/
def arrive (activity : Activity α) (position : Nat) (outcome : Except Fault Unit × Environment) :
    Machine α :=
  match outcome with
  | (.ok _, after) => ⟨after.at_ position, .script activity.callers⟩
  | (.error fault, after) => Machine.fail after activity.callers fault

/-- An instruction that neither sees nor changes the frames. -/
theorem Runs.step_confined {floor position : Nat} {net : Int} {final : Instruction}
    (proper : activity.Proper) (runs : activity.Runs pc env)
    (decodes : activity.routine.function.code.decode position = .ok final)
    (noCall : final.op ≠ .call) (confined : Confined floor net (execute activity.activation final)) :
    Machine.step ⟨env.at_ position, .script activity.callers⟩ =
        activity.arrive (position + final.size) (execute activity.activation final env) ∧
      activity.Runs pc (execute activity.activation final env).2 := by
  have there := runs.mono (confined.frames_eq env) (confined.programs env)
  refine ⟨?_, there⟩
  rw [(runs.at_ position).step_eq proper decodes noCall, at_at, confined.at_eq]
  generalize execute activity.activation final env = outcome at there
  obtain ⟨fault | _, after⟩ := outcome
  · exact fail_at proper there _ fault
  · rfl

section

variable (proper : activity.Proper) (implements : activity.routine.Implements body)
  (runs : activity.Runs (activity.routine.place index) env)

include proper implements runs

/-- An instruction of an expression leads to another one of it, or behind it, unless the function
fails. -/
theorem Runs.computes {low high : Nat} (keeps : activity.routine.code.Keeps low high index)
    (above : low ≤ index) (below : index < high) :
    (∃ next, low < next ∧ next ≤ high ∧ activity.Within (activity.routine.place next)
      (Machine.step ⟨env, .script activity.callers⟩)) ∨
        activity.HasLeft (Machine.step ⟨env, .script activity.callers⟩) := by
  obtain ⟨instr, found, stays, -, jumps⟩ := keeps
  have op := @Routine.op_settled activity.routine instr
  have next := runs.at_ (activity.routine.place (index + 1))
  obtain ⟨programs, reframes⟩ := reframes_execute activity.activation
    (activity.routine.settled instr) (env.at_ (activity.routine.place (index + 1)))
  -- Where the function is when the instruction has been executed, before it enters a call.
  obtain ⟨place, behind, inside, inPlace⟩ : ∃ place, low < place ∧ place ≤ high ∧
      activity.InPlace (activity.routine.place place)
        (execute activity.activation (activity.routine.settled instr)
          (env.at_ (activity.routine.place (index + 1)))).2 := by
    cases reframes with
    | stays frames => exact ⟨index + 1, by omega, below, (next.mono frames programs).inPlace⟩
    | jumps jump frames =>
        have isJump : instr.op.isJump = true := by
          rw [← Assembler.settledOp_congr Opcode.isJump rfl rfl activity.routine.captured, ← op]
          exact jump
        obtain ⟨label, target⟩ :=
          Option.isSome_iff_exists.mp ((implements.proper found).1.1.mp isJump)
        obtain ⟨place, places, behind, inside⟩ := jumps label target
        rw [at_at, implements.jumps_to found target places] at frames
        exact ⟨place, behind, inside, ((runs.at_ (activity.routine.place place)).mono frames
          programs).inPlace⟩
    | leaves leaves frames =>
        rw [op, Assembler.settledOp_congr Opcode.leaves rfl rfl, stays] at leaves
        cases leaves
  have more : activity.callers.frames < env.frames.size := runs.count ▸ proper.callers
  change (∃ next, _ ∧ _ ∧ activity.Within _ (Machine.stepScript env activity.callers)) ∨
    activity.HasLeft (Machine.stepScript env activity.callers)
  unfold Machine.stepScript
  rw [if_pos more, runs.executeNext_eq proper (implements.decodes found), ← Routine.place_succ found]
  generalize execute _ _ _ = outcome at inPlace
  have reached : ∀ machine : Machine α,
      activity.Within (activity.routine.place place) machine ∨ activity.HasLeft machine →
        (∃ next, low < next ∧ next ≤ high ∧
          activity.Within (activity.routine.place next) machine) ∨ activity.HasLeft machine :=
    fun machine => Or.imp_left fun within => ⟨place, behind, inside, within⟩
  obtain ⟨fault | _, after⟩ := outcome
  · exact reached _ (within_fail proper .here inPlace fault)
  · by_cases call : (activity.routine.settled instr).op = .call
    · simp only [Except.map, if_pos call]
      exact reached _ (within_afterEntering proper .here
        (inPlace.mono proper (preserves_enterCall (inPlace.le proper))))
    · simp only [Except.map, if_neg call]
      exact reached _ (.inl ⟨⟨activity.callers, rfl, .here⟩, inPlace⟩)

end

end Activity

end PocketScript
