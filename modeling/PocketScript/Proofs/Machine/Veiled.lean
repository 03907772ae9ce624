import PocketScript.Proofs.Environment.Concealing
import PocketScript.Proofs.Machine.Boxes
import PocketScript.Proofs.Machine.Nested

/-!
# Machines keep cells out of sight

While a machine runs, cells lie on the stack only in the variables that frames have boxed, and on top
of the operands that the topmost frame has gathered for a closure (`Environment.Hides`). Whatever else
there is, and whatever host programs and native functions are given, is visible. Every step of a sound
machine keeps it so (`Machine.Veiled.step`).
-/

namespace PocketScript

open Environment Environment.Ground

variable {α : Type} {terms : Terms} {post : α → Prop} {keep : α → List Reference → Prop}
  {env before after : Environment} {callers : Callers α} {frames : List Frame} {frame : Frame}
  {values lower locals operands window args : List Value} {callee value : Value}
  {references : List Reference} {keeps : Reference} {function : FunctionDef} {listing : Listing}
  {level cells : Nat → Nat} {program : Program} {instr : Instruction} {hidden : Nat → Prop}
  {place : Nat} {config : Config} {programs : Array Program}

/-! ## Places of cells -/

namespace Environment

/-- The place lies among the operands that the topmost frame has gathered for a closure. -/
def GatheredAt (env : Environment) (place : Nat) : Prop :=
  ∃ frame listing, env.frames.back? = some frame ∧
    frame.Lists env.programs listing ∧
      env.stack.size ≤ place + listing.gathered frame.pc

/-- Cells may lie in the place: in a boxed variable, or among what is gathered. -/
def Hides (env : Environment) (place : Nat) : Prop :=
  BoxedIn env.programs env.frames.toList place ∨ env.GatheredAt place

/-- What was compiled gathers cells for closures only. -/
theorem Veiled.gathers (veiled : env.Veiled hidden) : AllGather env.programs :=
  fun program member => (veiled.programs program member).gathers

/-- Only places count where something lies. -/
theorem Veiled.within {hidden' : Nat → Prop} (veiled : env.Veiled hidden)
    (more : ∀ place < env.stack.size, hidden place → hidden' place) :
    env.Veiled hidden' :=
  { veiled with
    stack := fun place block there =>
      more place (Array.getElem?_eq_some_iff.mp there).1 (veiled.stack place block there) }

/-- Nothing is gathered at the moment. -/
theorem Veiled.ungathered (veiled : env.Veiled env.Hides)
    (none : ∀ frame listing, env.frames.toList.getLast? = some frame →
      frame.Lists env.programs listing → listing.gathered frame.pc = 0) :
    env.Veiled (BoxedIn env.programs env.frames.toList) := by
  refine veiled.within fun place inside hides => hides.resolve_right ?_
  rintro ⟨frame, listing, last, lists, high⟩
  rw [none frame listing (by rwa [Array.getLast?_toList]) lists] at high
  omega

theorem Hides.backstage (hides : env.Hides place) (backstage : Backstage env after) :
    after.Hides place := by
  rcases hides with ⟨frame, member, slot, boxes, same⟩ | ⟨frame, listing, last, lists, high⟩
  · exact .inl ⟨frame, backstage.frames ▸ member, slot, boxes.mono backstage.programs, same⟩
  · exact .inr ⟨frame, listing, backstage.frames ▸ last, lists.mono backstage.programs,
      backstage.stack ▸ high⟩

/-- What frames have boxed they have boxed as long as they are there. -/
theorem Preserves.boxedIn {count : Nat} (preserves : Preserves count before after)
    (boxed : BoxedIn before.programs (before.frames.toList.take count) place) :
    BoxedIn after.programs (after.frames.toList.take count) place := by
  obtain ⟨frame, member, slot, boxes, same⟩ := boxed
  refine ⟨frame, ?_, slot, boxes.mono preserves.programs, same⟩
  obtain ⟨index, there⟩ := List.mem_iff_getElem?.mp member
  rw [List.getElem?_take] at there
  split at there
  · rename_i inside
    refine List.mem_iff_getElem?.mpr ⟨index, ?_⟩
    rw [List.getElem?_take, if_pos inside, Array.getElem?_toList, preserves.frames index inside,
      ← Array.getElem?_toList, there]
  · cases there

theorem Preserves.fewer {count fewer : Nat} (preserves : Preserves count before after)
    (few : fewer ≤ count) : Preserves fewer before after :=
  ⟨fun index inside => preserves.frames index (Nat.lt_of_lt_of_le inside few), preserves.programs⟩

theorem take_frames (env : Environment) :
    env.frames.toList.take env.frames.size = env.frames.toList :=
  List.take_of_length_le (Nat.le_of_eq Array.length_toList)

/-- All frames are still there, and whatever is new has boxed nothing yet. -/
theorem Veiled.preserved (kept : after.Veiled (BoxedIn before.programs before.frames.toList))
    (preserves : Preserves before.frames.size before after) : after.Veiled after.Hides := by
  refine kept.mono fun place boxed => .inl ?_
  obtain ⟨frame, member, rest⟩ := preserves.boxedIn ((take_frames before).symm ▸ boxed)
  exact ⟨frame, List.mem_of_mem_take member, rest⟩

end Environment

/-! ## Who waits -/

/-- Those who wait for a call go on with visible values. -/
def Callers.AreVisible (post : α → Prop) : Callers α → Prop
  | host caller => ∀ outcome, Shows outcome → (caller.resume outcome).IsVisible post
  | native caller _ outer =>
      (∀ outcome, Shows outcome → (caller.resume outcome).IsVisible Shows) ∧ outer.AreVisible post

/-- Whoever is at work handles visible values. -/
def Control.IsVisible (post : α → Prop) : Control α → Prop
  | host program => program.IsVisible post
  | native program _ callers => program.IsVisible Shows ∧ callers.AreVisible post
  | script callers => callers.AreVisible post

theorem Callers.AreVisible.resume (visible : callers.AreVisible post) {outcome : Except Fault Value}
    (shows : Shows outcome) : (callers.resume outcome).IsVisible post := by
  cases callers with
  | host caller => exact visible outcome shows
  | native caller place outer => exact ⟨visible.1 outcome shows, visible.2⟩

namespace Machine

/-- Cells lie where they may, and whoever is at work handles visible values. -/
structure Veiled (post : α → Prop) (machine : Machine α) : Prop where
  environment : machine.environment.Veiled machine.environment.Hides
  control : machine.control.IsVisible post

/-- When a call fails, the cells in what is left are those of the frames that are left. -/
theorem veiled_fail (veiled : after.Veiled hidden) (preserves : Preserves callers.frames before after)
    (low : ∀ place, hidden place → place < callers.depth →
      BoxedIn before.programs (before.frames.toList.take callers.frames) place)
    (visible : callers.AreVisible post) (fault : Fault) :
    (fail after callers fault).Veiled post := by
  refine ⟨(veiled.unwind callers.frames callers.depth).mono ?_, visible.resume nofun⟩
  rintro place ⟨inside, below⟩
  refine .inl ?_
  change BoxedIn after.programs (after.frames.shrink callers.frames).toList place
  rw [Array.toList_shrink]
  exact preserves.boxedIn (low place inside below)

/-- A call is entered, or it fails. -/
theorem veiled_afterEntering {outcome : Except Fault EnteredCall × Environment}
    (kept : outcome.2.Veiled (BoxedIn before.programs before.frames.toList))
    (shown : ∀ called, outcome.1 = .ok called → called.IsVisible)
    (preserves : Preserves before.frames.size before outcome.2)
    (few : callers.frames ≤ before.frames.size)
    (low : ∀ place, BoxedIn before.programs before.frames.toList place → place < callers.depth →
      BoxedIn before.programs (before.frames.toList.take callers.frames) place)
    (visible : callers.AreVisible post) : (afterEntering outcome callers).Veiled post := by
  obtain ⟨fault | called, after⟩ := outcome
  · exact veiled_fail kept (preserves.fewer few) low visible fault
  · cases called with
    | script => exact ⟨kept.preserved preserves, visible⟩
    | native program place => exact ⟨kept.preserved preserves, shown _ rfl, visible⟩

/-- A call from outside. -/
theorem veiled_hostCall
    (veiled : env.Veiled (BoxedIn env.programs env.frames.toList))
    (low : ∀ place, BoxedIn env.programs env.frames.toList place →
      place < env.stack.size)
    (shown : ∀ value ∈ callee :: args, value.Visible) (count : callers.frames = env.frames.size)
    (visible : callers.AreVisible post) :
    (afterEntering (enterHostCall callee args env) callers).Veiled post := by
  obtain ⟨kept, entered⟩ := outcome_concealed (conceals_enterHostCall shown) ⟨veiled, low⟩
  refine veiled_afterEntering kept entered (preserves_enterHostCall (Nat.le_refl _))
    (Nat.le_of_eq count) (fun place boxed _ => ?_) visible
  rw [count, take_frames]
  exact boxed

/-! ## Host programs and native functions -/

/-- A request is answered. -/
theorem veiled_answer {request : Request} (veiled : env.Veiled env.Hides)
    (visible : request.IsVisible) :
    request.Reveals (answer request env).1 ∧
      (answer request env).2.Veiled (answer request env).2.Hides := by
  obtain ⟨reveals, kept⟩ := veiled.answer request visible
  exact ⟨reveals, kept.mono fun _ hides => hides.backstage (backstage_answer request env)⟩

/-- A step of the host. -/
theorem veiled_stepHost {program : Host α} {owned : List Reference}
    (holds : env.Holds terms [] [] owned) (veiled : env.Veiled env.Hides)
    (visible : program.IsVisible post) : (stepHost env program).Veiled post := by
  cases program with
  | done result => exact ⟨veiled, visible⟩
  | ask request next =>
      obtain ⟨reveals, kept⟩ := veiled_answer veiled visible.1
      exact ⟨kept, visible.2 _ reveals⟩
  | call callee args next =>
      have idle : ∀ place, ¬ BoxedIn env.programs env.frames.toList place := by
        rw [holds.frames]
        rintro _ ⟨_, none, -⟩
        cases none
      refine veiled_hostCall (veiled.ungathered fun frame listing last => ?_)
        (fun place boxed => absurd boxed (idle place)) visible.1 rfl visible.2
      rw [holds.frames] at last
      cases last

/-- On top of the layers nothing is gathered. -/
theorem ungathered_layers {owned : List Reference}
    (layers : Layers terms env.programs env.config keep callers frames lower
      references)
    (holds : env.Holds terms frames values owned)
    (veiled : env.Veiled env.Hides) :
    env.Veiled (BoxedIn env.programs frames) ∧
      ∀ place, BoxedIn env.programs frames place → place < lower.length := by
  have rest := veiled.ungathered fun frame listing last => layers.gathered veiled.gathers
    (holds.frames ▸ last)
  rw [holds.frames] at rest
  exact ⟨rest, fun place => layers.boxed_lt⟩

/-- A step of a native function. -/
theorem veiled_stepNative {program : Host (Except Fault Value)} {owned : List Reference}
    (layers : Layers terms env.programs env.config keep callers frames lower
      references)
    (holds : env.Holds terms frames (lower ++ callee :: args)
      (owned ++ ((callee :: args).map .value ++ references)))
    (veiled : env.Veiled env.Hides) (visible : program.IsVisible Shows)
    (waits : callers.AreVisible post) :
    (stepNative env program lower.length callers).Veiled post := by
  obtain ⟨rest, low⟩ := ungathered_layers layers holds veiled
  cases program with
  | done result =>
      rw [← holds.frames] at rest
      obtain ⟨kept, -⟩ := outcome_concealed (conceals_leaveNative lower.length visible) rest
      have preserves := fun count =>
        @preserves_leaveNative count lower.length result env
      unfold stepNative
      simp only
      generalize leaveNative lower.length result env = outcome at kept preserves
      obtain ⟨fault | _, after⟩ := outcome
      · refine veiled_fail kept (preserves _) (fun place boxed below => ?_) waits fault
        rw [holds.frames] at boxed ⊢
        exact layers.boxed_below boxed below
      · exact ⟨kept.preserved (preserves _), waits⟩
  | ask request next =>
      obtain ⟨reveals, kept⟩ := veiled_answer veiled visible.1
      exact ⟨kept, visible.2 _ reveals, waits⟩
  | call called passed next =>
      rw [← holds.frames] at rest low
      refine veiled_hostCall rest (fun place boxed => ?_) visible.1 rfl ⟨visible.2, waits⟩
      have := low place boxed
      rw [holds.size, List.length_append]
      omega

/-! ## Functions -/

/-- A call has ended, and whoever waits for it is given its result. -/
theorem veiled_ended
    (layers : Layers terms env.programs env.config keep callers frames lower
      references)
    (count : frames.length = callers.frames)
    (holds : env.Holds terms frames (lower ++ [value]) (.value value :: references))
    (veiled : env.Veiled env.Hides) (visible : callers.AreVisible post) :
    (stepScript env callers).Veiled post := by
  obtain ⟨rest, low⟩ := ungathered_layers layers holds veiled
  have depth := layers.depth_eq count
  obtain ⟨kept, shown⟩ := outcome_concealed (conceals_pop (depth.symm ▸ low)) rest
  have preserves := fun count => @preserves_pop count callers.depth env
  have no : ¬ callers.frames < env.frames.size := by
    rw [holds.count, count]
    exact Nat.lt_irrefl _
  unfold stepScript
  rw [if_neg no]
  generalize Environment.pop callers.depth env = outcome at kept shown preserves
  rw [← holds.frames] at kept
  obtain ⟨fault | result, after⟩ := outcome
  · refine veiled_fail kept (preserves _) (fun place boxed below => ?_) visible fault
    rw [holds.frames] at boxed ⊢
    exact layers.boxed_below boxed below
  · refine ⟨kept.preserved (preserves _), visible.resume fun other same => ?_⟩
    cases same
    exact shown _ rfl

/-! ## The next instruction -/

/-- Where cells may lie while the topmost frame is at a position. -/
theorem hides_at {position : Nat}
    (occupies : Occupies terms after.programs config lower keeps frame function listing level cells)
    (frames' : after.frames.toList = frames ++ [{ frame with pc := position }]) :
    after.Hides place ↔ BoxedIn after.programs frames place ∨
      BoxedIn after.programs [{ frame with pc := position }] place ∨
        after.stack.size ≤ place + listing.gathered position := by
  have moved := occupies.moved position
  have last : after.frames.back? = some { frame with pc := position } := by
    rw [← Array.getLast?_toList, frames', List.getLast?_concat]
  rw [Hides, frames', boxedIn_append, or_assoc]
  refine or_congr_right (or_congr_right ⟨?_, fun high => ⟨_, listing, last, moved.lists.mpr rfl, high⟩⟩)
  rintro ⟨other, listing', last', lists, high⟩
  obtain rfl := Option.some.inj (last.symm.trans last')
  obtain rfl := moved.lists.mp lists
  exact high

/-- The topmost frame comes to a position, and cells lie where they may there. -/
theorem arrives {position : Nat}
    (occupies : Occupies terms programs config lower keeps frame function listing level cells)
    (same : after.programs = programs)
    (frames' : after.frames.toList = frames ++ [{ frame with pc := position }])
    (kept : after.Veiled hidden)
    (inside : ∀ place, hidden place → BoxedIn programs frames place ∨
      BoxedIn programs [{ frame with pc := position }] place ∨
        after.stack.size ≤ place + listing.gathered position) : after.Veiled after.Hides := by
  subst same
  exact kept.mono fun place there => (hides_at occupies frames').mpr (inside place there)

/-- What an instruction comes to that the topmost frame executes: below the callee cells lie only where
they did, and everywhere only where they may, unless the instruction fails. -/
structure Obeys (programs : Array Program) (frames : List Frame) (callee : Nat)
    (outcome : Except Fault Unit × Environment) : Prop where
  below : outcome.2.Veiled fun place => BoxedIn programs frames place ∨ callee < place
  goesOn : outcome.1 = .ok () → outcome.2.Veiled outcome.2.Hides

theorem obeys_of_ensures {action : Action Unit} {holds behind failed : Environment → Prop}
    (ensures : Ensures False holds action (fun _ => behind) failed) (given : holds env)
    (done : behind (action env).2 → (action env).2.Veiled
      (fun place => BoxedIn programs frames place ∨ lower.length < place))
    (fails : failed (action env).2 → (action env).2.Veiled
      (fun place => BoxedIn programs frames place ∨ lower.length < place))
    (goesOn : behind (action env).2 →
      (action env).2.Veiled (action env).2.Hides) :
    Obeys programs frames lower.length (action env) := by
  have here := ensures env given
  generalize action env = outcome at here done fails goesOn
  obtain ⟨fault | _, after⟩ := outcome
  · exact ⟨fails here.2, nofun⟩
  · exact ⟨done here, fun _ => goesOn here⟩

section

variable
  (layers : Layers terms env.programs env.config keep callers frames lower references)
  (occupies : Occupies terms env.programs env.config lower keeps frame function listing
    level cells)
  (placed : Placed function listing level cells frame.pc locals operands)
  (holds : env.Holds terms (frames ++ [frame]) (lower ++ callee :: (locals ++ operands))
    ((locals ++ operands).map .value ++ keeps :: references))
  (member : (frame.pc, instr) ∈ listing) (veiled : env.Veiled env.Hides)

include holds in
/-- An instruction that does not jump either goes on behind itself. -/
theorem frames_next (activation : Activation) (stays : instr.op.leaves = false)
    (ahead : instr.op.isJump = false) :
    (execute activation instr
      (env.at_ (frame.pc + instr.size))).2.frames.toList =
        frames ++ [{ frame with pc := frame.pc + instr.size }] := by
  obtain ⟨position, goes, frames'⟩ := frames_executed holds.frames activation stays
  obtain rfl := goes.resolve_right fun jumps => absurd jumps.1 (by rw [ahead]; decide)
  exact frames'

include occupies holds in
/-- In terms of what is gathered, cells lie in boxed variables and from a place on. -/
theorem hides_now : env.Hides place ↔
    BoxedIn env.programs (frames ++ [frame]) place ∨
      env.stack.size ≤ place + listing.gathered frame.pc := by
  rw [boxedIn_append, or_assoc]
  exact hides_at occupies holds.frames

include layers occupies in
/-- Among the variables only those lie in the place of a slot that were boxed in it. -/
theorem boxed_slot {slot : UInt16}
    (boxed : BoxedIn env.programs (frames ++ [frame]) (frame.base + slot.toNat)) :
    frame.Boxes env.programs slot := by
  rcases boxedIn_append.mp boxed with below | own
  · have low := layers.boxed_lt below
    have base := occupies.base
    omega
  · obtain ⟨other, boxes, same⟩ := boxedIn_singleton.mp own
    obtain rfl : slot = other := UInt16.toNat_inj.mp (Nat.add_left_cancel same)
    exact boxes

include occupies in
/-- What has been boxed by the topmost frame lies above its callee. -/
theorem boxed_above (boxed : BoxedIn env.programs (frames ++ [frame]) place) :
    BoxedIn env.programs frames place ∨ lower.length < place :=
  (boxedIn_append.mp boxed).imp id fun own => (occupies.boxed_cases own).1

include occupies in
/-- What has been boxed stays boxed when the topmost frame goes on behind the same boxes. -/
theorem boxed_moved {position : Nat}
    (passes : ∀ offset boxing, (offset, boxing) ∈ listing → boxing.op = .makeCell →
      offset < frame.pc → offset < position)
    (boxed : BoxedIn env.programs (frames ++ [frame]) place) :
    BoxedIn env.programs frames place ∨
      BoxedIn env.programs [{ frame with pc := position }] place := by
  refine (boxedIn_append.mp boxed).imp id fun own => ?_
  obtain ⟨slot, boxes, same⟩ := boxedIn_singleton.mp own
  exact boxedIn_singleton.mpr ⟨slot, occupies.boxes_moved passes boxes, same⟩

include occupies in
theorem boxed_next (size : Nat) (boxed : BoxedIn env.programs (frames ++ [frame]) place) :
    BoxedIn env.programs frames place ∨
      BoxedIn env.programs [{ frame with pc := frame.pc + size }] place :=
  boxed_moved occupies (fun _ _ _ _ before => Nat.lt_add_right size before) boxed

include occupies holds veiled in
/-- In front of an instruction that has nothing to do with gathered cells there are none. -/
theorem ungathered_at (none : listing.gathered frame.pc = 0) (pc : Nat) :
    (env.at_ pc).Veiled (BoxedIn env.programs (frames ++ [frame])) := by
  refine { veiled.within fun place inside hides => ((hides_now occupies holds).mp hides).resolve_right
    (by omega) with }

include layers occupies member

/-- A slot that is accessed as such is never boxed. -/
theorem unboxed_slot (plain : instr.op.refersToSlot = true) :
    ¬ BoxedIn env.programs (frames ++ [frame]) (frame.base + instr.a.toNat) := by
  intro boxed
  obtain ⟨_, -, -, verified⟩ := occupies.program
  obtain ⟨offset, boxing, there, box, same, -⟩ :=
    occupies.boxes.mp (boxed_slot layers occupies boxed)
  exact verified.unboxed _ _ member plain ⟨offset, boxing, there, box, same⟩

include veiled

/-- A slot is boxed once. -/
theorem unboxed_yet (box : instr.op = .makeCell) :
    ¬ BoxedIn env.programs (frames ++ [frame]) (frame.base + instr.a.toNat) := by
  intro boxed
  obtain ⟨offset, boxing, there, isBox, same, behind⟩ :=
    occupies.boxes.mp (boxed_slot layers occupies boxed)
  have := (occupies.gathers veiled.gathers).once _ _ _ _ there isBox member box same
  omega

include holds

/-- An instruction that has nothing to do with cells on the stack. -/
theorem obeys_plain (boxes : instr.op ≠ .makeCell)
    (pushes : instr.op.pushesCell = false) (captures : instr.op ≠ .makeClosure)
    (stays : instr.op.leaves = false) :
    Obeys env.programs frames lower.length
      (execute (activationOf frame function program) instr
        (env.at_ (frame.pc + instr.size))) := by
  have gathers := occupies.gathers veiled.gathers
  have none := gathers.none member pushes captures
  obtain ⟨position, goes, frames'⟩ :=
    frames_executed holds.frames (activationOf frame function program) stays
  -- No jump leads back over a box.
  have passes : ∀ offset boxing, (offset, boxing) ∈ listing → boxing.op = .makeCell →
      offset < frame.pc → offset < position := by
    rintro offset boxing there box before
    rcases goes with rfl | ⟨jump, rfl⟩
    · omega
    · exact gathers.behind _ _ member jump offset boxing there box
  have copies : instr.op = .loadLocal → ¬ BoxedIn env.programs (frames ++ [frame])
      ((activationOf frame function program).base + instr.a.toNat) :=
    fun load => unboxed_slot layers occupies member (by rw [load]; rfl)
  obtain ⟨kept, -⟩ := outcome_concealed (conceals_execute
    (fun place => layers.boxed_lt_floor occupies) boxes pushes captures stays copies)
      (ungathered_at occupies holds veiled none (frame.pc + instr.size))
  refine ⟨kept.mono fun place => boxed_above occupies, fun _ => ?_⟩
  exact arrives occupies (reframes_execute _ _ _).1 frames' kept fun place boxed =>
    (boxed_moved occupies passes boxed).imp id .inl

/-- A variable is boxed. -/
theorem obeys_makeCell (box : instr.op = .makeCell) :
    Obeys env.programs frames lower.length
      (execute (activationOf frame function program) instr
        (env.at_ (frame.pc + instr.size))) := by
  have gathers := occupies.gathers veiled.gathers
  have none := gathers.none member (by rw [box]; rfl) (by rw [box]; decide)
  have frames' := frames_next holds (activationOf frame function program) (by rw [box]; rfl)
    (by rw [box]; rfl)
  have positive : 0 < instr.size := instr.op.size_pos
  have elsewhere : ¬ BoxedIn env.programs (frames ++ [frame])
      ((activationOf frame function program).base + instr.a.toNat) :=
    unboxed_yet layers occupies member veiled box
  obtain ⟨op, a, b⟩ := instr
  cases box
  have boxes : ({ frame with pc := frame.pc + (⟨.makeCell, a, b⟩ : Instruction).size } : Frame).Boxes
      env.programs a :=
    (occupies.moved _).boxes.mpr ⟨_, _, member, rfl, rfl, Nat.lt_add_of_pos_right positive⟩
  refine obeys_of_ensures (veiled_makeCell elsewhere)
    (ungathered_at occupies holds veiled none _) (fun kept => kept.mono fun place => ?_)
      (fun kept => kept.mono fun place => boxed_above occupies) fun kept => ?_
  · rintro (boxed | rfl)
    · exact boxed_above occupies boxed
    · refine .inr ?_
      change lower.length < frame.base + a.toNat
      rw [occupies.base]
      omega
  · refine arrives occupies (reframes_execute _ _ _).1 frames' kept fun place inside => ?_
    rcases inside with boxed | rfl
    · exact (boxed_next occupies _ boxed).imp id .inl
    · exact .inr (.inl (boxedIn_singleton.mpr ⟨a, boxes, rfl⟩))

omit layers in
include placed in
/-- A cell is pushed, to be captured. -/
theorem obeys_pushing (pushes : instr.op.pushesCell = true) :
    Obeys env.programs frames lower.length
      (execute (activationOf frame function program) instr
        (env.at_ (frame.pc + instr.size))) := by
  have gathers := occupies.gathers veiled.gathers
  have few := occupies.gathered_le veiled.gathers placed
  have size := holds.size
  simp only [List.length_append, List.length_cons] at size
  have noJump : instr.op.isJump = false ∧ instr.op.leaves = false := by
    generalize instr.op = op at pushes
    cases op <;> first | exact ⟨rfl, rfl⟩ | cases pushes
  have frames' := frames_next holds (activationOf frame function program) noJump.2 noJump.1
  have next := gathers.next _ _ member
  rw [Instruction.cellsAfter, if_pos pushes] at next
  have above {place : Nat} (hides : env.Hides place) :
      BoxedIn env.programs frames place ∨ lower.length < place := by
    rcases (hides_now occupies holds).mp hides with boxed | high
    · exact boxed_above occupies boxed
    · exact .inr (by omega)
  have hides : env.Hides env.stack.size :=
    (hides_now occupies holds).mpr (.inr (Nat.le_add_right _ _))
  refine obeys_of_ensures (veiled_pushing hides pushes) ⟨{ veiled with }, rfl⟩
    (fun kept => kept.1.mono fun place => above) (fun kept => kept.mono fun place => above)
      fun kept => ?_
  refine arrives occupies (reframes_execute _ _ _).1 frames' kept.1 fun place there => ?_
  rcases (hides_now occupies holds).mp there with boxed | high
  · exact (boxed_next occupies _ boxed).imp id .inl
  · refine .inr (.inr ?_)
    rw [kept.2, next]
    omega

omit layers in
include placed in
/-- A closure is made of all cells that were gathered. -/
theorem obeys_makeClosure (closure : instr.op = .makeClosure) :
    Obeys env.programs frames lower.length
      (execute (activationOf frame function program) instr
        (env.at_ (frame.pc + instr.size))) := by
  have gathers := occupies.gathers veiled.gathers
  have few := occupies.gathered_le veiled.gathers placed
  have all := gathers.all _ _ member closure
  have size := holds.size
  simp only [List.length_append, List.length_cons] at size
  have frames' := frames_next holds (activationOf frame function program) (by rw [closure]; rfl)
    (by rw [closure]; rfl)
  obtain ⟨op, a, b⟩ := instr
  cases closure
  have top : env.stack.size =
      env.stack.size - listing.gathered frame.pc + b.toNat := by
    change b.toNat = _ at all
    omega
  have here : (env.at_ (frame.pc + (⟨.makeClosure, a, b⟩ : Instruction).size)).Veiled
      fun place => BoxedIn env.programs (frames ++ [frame]) place ∨
        env.stack.size - listing.gathered frame.pc ≤ place :=
    { veiled.mono fun place hides => ((hides_now occupies holds).mp hides).imp id (by omega) with }
  refine obeys_of_ensures (veiled_makeClosure b) ⟨here, top⟩
    (fun kept => kept.mono fun place => boxed_above occupies) (fun kept => kept.mono fun place => ?_)
      fun kept => ?_
  · rintro (boxed | high)
    · exact boxed_above occupies boxed
    · exact .inr (by omega)
  · exact arrives occupies (reframes_execute _ _ _).1 frames' kept fun place boxed =>
      (boxed_next occupies _ boxed).imp id .inl

/-- The function is left, and with it all that it has boxed. -/
theorem obeys_leaving (leaves : instr.op.leaves = true) :
    Obeys env.programs frames lower.length
      (execute (activationOf frame function program) instr
        (env.at_ (frame.pc + instr.size))) := by
  have gathers := occupies.gathers veiled.gathers
  have others : instr.op.pushesCell = false ∧ instr.op ≠ .makeClosure := by
    generalize instr.op = op at leaves
    cases op <;> first | exact ⟨rfl, by decide⟩ | cases leaves
  have none := gathers.none member others.1 others.2
  have size : (env.at_ (frame.pc + instr.size)).frames.size = frames.length + 1 := by
    rw [size_at, holds.count, List.length_append, List.length_singleton]
  have preserves := @preserves_execute (env.at_ (frame.pc + instr.size)) frames.length
    (activationOf frame function program) instr (by omega)
  have left {place : Nat} (there : BoxedIn env.programs (frames ++ [frame]) place ∧
      place < (activationOf frame function program).base - 1) :
      BoxedIn env.programs frames place := by
    have base : (activationOf frame function program).base = lower.length + 1 := occupies.base
    exact (boxed_above occupies there.1).resolve_right (by omega)
  refine obeys_of_ensures (veiled_leaving (fun place => layers.boxed_lt_floor occupies) leaves)
    (ungathered_at occupies holds veiled none _) (fun kept => kept.mono fun place => .inl ∘ left)
      (fun kept => kept.mono fun place => boxed_above occupies)
      fun kept => kept.mono fun place there => .inl ?_
  have waiting : (env.at_ (frame.pc + instr.size)).frames.toList.take frames.length =
      frames := by
    rw [frames_at, toList_modify_last holds.frames, List.take_left]
  obtain ⟨other, among, rest⟩ := preserves.boxedIn (waiting.symm ▸ left there)
  exact ⟨other, List.mem_of_mem_take among, rest⟩

include placed in
/-- Whatever the instruction is. -/
theorem obeys_execute :
    Obeys env.programs frames lower.length
      (execute (activationOf frame function program) instr
        (env.at_ (frame.pc + instr.size))) := by
  by_cases box : instr.op = .makeCell
  · exact obeys_makeCell layers occupies holds member veiled box
  by_cases pushes : instr.op.pushesCell = true
  · exact obeys_pushing occupies placed holds member veiled pushes
  by_cases closure : instr.op = .makeClosure
  · exact obeys_makeClosure occupies placed holds member veiled closure
  by_cases leaves : instr.op.leaves = true
  · exact obeys_leaving layers occupies holds member veiled leaves
  exact obeys_plain layers occupies holds member veiled box (Bool.eq_false_iff.mpr pushes) closure
    (Bool.eq_false_iff.mpr leaves)

include placed in
omit member in
/-- A step of the topmost frame. -/
theorem veiled_running (visible : callers.AreVisible post) :
    (stepScript env callers).Veiled post := by
  obtain ⟨instr, member⟩ := placed.here
  obtain ⟨program, loaded, -, -⟩ := occupies.program
  have few := layers.frames_le
  have count := holds.count
  rw [List.length_append, List.length_singleton] at count
  have next (pc : Nat) : (env.at_ pc).frames.toList = frames ++ [{ frame with pc }] :=
    toList_modify_last holds.frames _
  have low (pc place : Nat) (boxed : BoxedIn env.programs frames place ∨ lower.length < place)
      (below : place < callers.depth) : BoxedIn env.programs
        ((env.at_ pc).frames.toList.take callers.frames) place := by
    rw [next, List.take_append_of_le_length few]
    have := layers.depth_le
    exact layers.boxed_below (boxed.resolve_right (by omega)) below
  have obeys : Obeys env.programs frames lower.length
      (execute (activationOf frame function program) instr
        (env.at_ (frame.pc + instr.size))) :=
    obeys_execute layers occupies placed holds member veiled
  have preserves := @preserves_execute (env.at_ (frame.pc + instr.size)) callers.frames
    (activationOf frame function program) instr (by rw [size_at]; omega)
  -- A call looks for its operands, and nothing else happens before it is entered.
  have called : instr.op = .call → ∀ after,
      execute (activationOf frame function program) instr
        (env.at_ (frame.pc + instr.size)) = (.ok (), after) →
      after = env.at_ (frame.pc + instr.size) ∧
        (activationOf frame function program).floor + (instr.a.toNat + 1) ≤
          after.stack.size := by
    obtain ⟨op, a, b⟩ := instr
    rintro same after done
    cases same
    obtain ⟨same, enough⟩ := execute_call done
    exact ⟨same, same ▸ enough⟩
  unfold stepScript
  rw [if_pos (by omega), executeNext_member holds occupies placed loaded member]
  generalize execute _ instr _ = outcome at obeys preserves called
  obtain ⟨fault | _, after⟩ := outcome
  · exact veiled_fail obeys.below preserves (low _) visible fault
  · by_cases call : instr.op = .call
    · obtain ⟨rfl, enough⟩ := called call after rfl
      simp only [Except.map, if_pos call]
      have none := (occupies.gathers veiled.gathers).none member (by rw [call]; rfl)
        (by rw [call]; decide)
      have moved := occupies.moved (frame.pc + instr.size)
      have there : (env.at_ (frame.pc + instr.size)).Veiled (BoxedIn env.programs
          (frames ++ [{ frame with pc := frame.pc + instr.size }])) :=
        (ungathered_at occupies holds veiled none _).mono fun place boxed =>
          boxedIn_append.mpr (boxed_next occupies _ boxed)
      rw [← next] at there
      have lowest (place : Nat) (boxed : BoxedIn env.programs
          (env.at_ (frame.pc + instr.size)).frames.toList place) :
          place + instr.a.toNat <
            (env.at_ (frame.pc + instr.size)).stack.size := by
        rw [next] at boxed
        have below := layers.boxed_lt_floor moved boxed
        change place < (activationOf frame function program).floor at below
        omega
      obtain ⟨kept, shown⟩ := outcome_concealed conceals_enterCall ⟨there, lowest⟩
      refine veiled_afterEntering kept shown (preserves_enterCall (Nat.le_refl _))
        (by rw [size_at]; omega) (fun place boxed => low _ place ?_) visible
      rw [next] at boxed
      exact (boxedIn_append.mp boxed).imp id fun own => (moved.boxed_cases own).1
    · simp only [Except.map, if_neg call]
      exact ⟨obeys.goesOn rfl, visible⟩

end

/-- A step of a sound machine leaves cells where they may lie. -/
theorem Veiled.step {machine : Machine α} (sound : machine.Sound terms keep)
    (veiled : machine.Veiled post) : machine.step.Veiled post := by
  obtain ⟨veiled, visible⟩ := veiled
  cases sound with
  | host env program owned holds careful => exact veiled_stepHost holds veiled visible
  | native env program callers frames lower args callee owned references layers room holds
      careful => exact veiled_stepNative layers holds veiled visible.1 visible.2
  | running env callers frames frame lower locals operands callee keeps references function
      listing level cells layers stands occupies placed holds =>
      exact veiled_running layers occupies placed holds veiled visible
  | ended env callers frames lower value references layers count holds =>
      exact veiled_ended layers count holds veiled visible

/-- However many steps it takes. -/
theorem Veiled.forward {machine : Machine α} (sound : machine.Sound terms keep)
    (veiled : machine.Veiled post) : ∀ steps, (machine.forward steps).Veiled post
  | 0 => veiled
  | steps + 1 => by
      rw [forward_succ]
      exact (veiled.forward sound steps).step (sound.forward steps)

/-- What the host program ends with is as described. -/
theorem Veiled.result {machine : Machine α} (veiled : machine.Veiled post) {result : α}
    (finished : machine.result? = some result) : post result := by
  obtain ⟨env, control⟩ := machine
  unfold result? at finished
  split at finished
  · rename_i other same
    cases finished
    cases same
    exact veiled.control
  · cases finished

/-! ## What is known at every step -/

/-- What is gathered are cells of the heap, which the running function is about to capture. -/
theorem Sound.gathered {machine : Machine α} (sound : machine.Sound terms keep)
    (all : AllGather machine.environment.programs)
    (last : machine.environment.frames.back? = some frame)
    (lists : frame.Lists machine.environment.programs listing)
    (some : listing.gathered frame.pc ≠ 0) :
    (∃ callers, machine.control = .script callers ∧
        callers.frames < machine.environment.frames.size) ∧
      listing.Captures frame.pc (listing.gathered frame.pc) ∧
        ∀ place < machine.environment.stack.size,
          machine.environment.stack.size ≤ place + listing.gathered frame.pc →
            ∃ block value, machine.environment.stack[place]? = .some (.cell block) ∧
              machine.environment.heap.cellGet? block = .some value := by
  have last' : machine.environment.frames.toList.getLast? = .some frame := by
    rwa [Array.getLast?_toList]
  cases sound with
  | host env program owned holds careful =>
      rw [holds.frames] at last'
      cases last'
  | native env program callers frames lower args callee owned references layers room holds
      careful =>
      rw [holds.frames] at last'
      exact absurd (layers.gathered all last' lists) some
  | running env callers frames other lower locals operands callee keeps references function
      listing' level cells layers stands occupies placed holds =>
      rw [holds.frames, List.getLast?_concat] at last'
      obtain rfl := Option.some.inj last'
      obtain rfl := occupies.lists.mp lists
      obtain ⟨instr, member⟩ := placed.here
      have captures := (occupies.gathers all).captures occupies.leveled member some
      have more : callers.frames < env.frames.size := by
        have waiting := layers.frames_le
        rw [holds.count, List.length_append, List.length_singleton]
        omega
      refine ⟨⟨callers, rfl, more⟩, captures, fun place inside high => ?_⟩
      have few := occupies.gathered_le all placed
      have size := holds.size
      simp only [List.length_append, List.length_cons] at size
      change place < env.stack.size at inside
      change env.stack.size ≤ place + _ at high
      -- The place is one of the topmost operands.
      obtain ⟨index, rfl⟩ : ∃ index, place = (lower ++ callee :: locals).length + index :=
        Nat.exists_eq_add_of_le (by
          rw [List.length_append, List.length_cons]
          omega)
      rw [List.length_append, List.length_cons] at inside high
      obtain ⟨block, there⟩ := onTop_cell placed.onTop (show index < operands.length by omega) (by
        have := captures.le_cells occupies.leveled
        omega)
      have found : (lower ++ callee :: (locals ++ operands))[
          (lower ++ callee :: locals).length + index]? = .some (.cell block) := by
        rw [← List.cons_append, ← List.append_assoc, List.getElem?_append_right (Nat.le_add_right _ _),
          Nat.add_sub_cancel_left, there]
      obtain ⟨value, held⟩ := holds.cell (layers.counted.window stands (locals ++ operands)) found
      exact ⟨block, value, by rw [← Array.getElem?_toList, holds.stack, found], held⟩
  | ended env callers frames lower value references layers count holds =>
      rw [holds.frames] at last'
      exact absurd (layers.gathered all last' lists) some

/-- Cells keep out of sight: they lie on the stack in variables that frames have boxed, and on top of
the operands while they are gathered for a closure. Scripts find none in an array, an object or another
variable, in a global or a timer, nor does a native function among its arguments, and none is the result
of a call. A variable that a frame has boxed holds a cell of the heap. -/
structure HidesCells (machine : Machine α) : Prop where
  stack : ∀ (place : Nat) block, machine.environment.stack[place]? = some (.cell block) →
    machine.environment.Hides place
  heap : ∀ block content, machine.environment.heap.get? block = some content → content.Veiled
  globals : ∀ binding ∈ machine.environment.globals, binding.2.Visible
  timers : ∀ timer ∈ machine.environment.timers.timers, timer.callback.Visible ∧ timer.param.Visible
  args : ∀ program callee callers, machine.control = .native program callee callers →
    ∀ place value, callee ≤ place → machine.environment.stack[place]? = some value → value.Visible
  returned : ∀ callers, machine.control = .script callers →
    machine.environment.frames.size ≤ callers.frames →
      ∀ value, machine.environment.stack.back? = some value → value.Visible
  boxed : ∀ frame ∈ machine.environment.frames, ∀ slot,
    frame.Boxes machine.environment.programs slot →
      ∃ block value, machine.environment.stack[frame.base + slot.toNat]? = some (.cell block) ∧
        machine.environment.heap.cellGet? block = some value
  gathered : ∀ frame listing, machine.environment.frames.back? = some frame →
    frame.Lists machine.environment.programs listing → listing.gathered frame.pc ≠ 0 →
      (∃ callers, machine.control = .script callers ∧
          callers.frames < machine.environment.frames.size) ∧
        listing.Captures frame.pc (listing.gathered frame.pc) ∧
          ∀ place < machine.environment.stack.size,
            machine.environment.stack.size ≤ place + listing.gathered frame.pc →
              ∃ block value, machine.environment.stack[place]? = some (.cell block) ∧
                machine.environment.heap.cellGet? block = some value

theorem Veiled.hidesCells {machine : Machine α} (sound : machine.Sound terms keep)
    (veiled : machine.Veiled post) : machine.HidesCells where
  stack := veiled.environment.stack
  heap := veiled.environment.heap.blocks
  globals := veiled.environment.globals
  timers := veiled.environment.timers
  args program callee callers working place value above there := by
    cases sound with
    | native env program callers frames lower args called owned references layers room holds
        careful =>
        cases working
        obtain ⟨rest, low⟩ := ungathered_layers layers holds veiled.environment
        refine rest.visible there fun boxed => ?_
        have := low place boxed
        omega
    | _ => cases working
  returned callers waiting few value top := by
    cases sound with
    | running env callers frames frame lower locals operands callee keeps references function
        listing level cells layers stands occupies placed holds =>
        cases waiting
        have more := layers.frames_le
        have count := holds.count
        rw [List.length_append, List.length_singleton] at count
        change env.frames.size ≤ _ at few
        omega
    | ended env callers frames lower result references layers count holds =>
        obtain ⟨rest, low⟩ := ungathered_layers layers holds veiled.environment
        have size := holds.size
        rw [List.length_append, List.length_singleton] at size
        change env.stack.back? = some value at top
        rw [Array.back?_eq_getElem?] at top
        refine rest.visible top fun boxed => ?_
        have := low _ boxed
        omega
    | _ => cases waiting
  boxed frame member slot boxes := sound.boxed member boxes
  gathered frame listing last lists some := sound.gathered veiled.environment.gathers last lists some

end Machine

end PocketScript
