import PocketScript.Proofs.Code.Gathered
import PocketScript.Proofs.Machine.Sound

/-!
# Boxed variables on the stack

A frame has boxed a variable once its next instruction lies behind the one in the prologue of its
function that does so (`Frame.Boxes`). The variable lies above all that belongs to the frames below,
and it holds a cell that is there, until the frame is left (`Machine.Sound.boxed`). A frame that waits
for a call has gathered nothing.
-/

namespace PocketScript

open Environment Environment.Ground

/-- The function of the frame has such a listing. -/
def Frame.Lists (programs : Array Program) (frame : Frame) (listing : Listing) : Prop :=
  ∃ program function, programs[frame.unit]? = some program ∧
    program.function? frame.index = some function ∧ function.code.disassemble = .ok listing

/-- The frame has boxed the variable in the slot. -/
def Frame.Boxes (programs : Array Program) (frame : Frame) (slot : UInt16) : Prop :=
  ∃ listing offset instr, frame.Lists programs listing ∧
    (offset, instr) ∈ listing.prologue ∧ instr.a = slot ∧ offset < frame.pc

/-- One of the frames has boxed the variable in the place. -/
def BoxedIn (programs : Array Program) (frames : List Frame) (place : Nat) : Prop :=
  ∃ frame ∈ frames, ∃ slot, frame.Boxes programs slot ∧ place = frame.base + slot.toNat

variable {α : Type} {terms : Terms} {programs programs' : Array Program} {config : Config}
  {post : α → List Reference → Prop} {lower values locals operands : List Value} {frame : Frame}
  {function : FunctionDef} {listing listing' : Listing} {level cells : Nat → Nat} {callee : Value}
  {keeps : Reference} {frames : List Frame} {references outside : List Reference}
  {callers : Callers α} {slot : UInt16} {place : Nat} {env : Environment}

theorem Frame.Lists.mono (lists : frame.Lists programs listing)
    (kept : ∀ (unit : Nat) program, programs[unit]? = some program → programs'[unit]? = some program) :
    frame.Lists programs' listing := by
  obtain ⟨program, function, loaded, found, listed⟩ := lists
  exact ⟨program, function, kept _ _ loaded, found, listed⟩

theorem Frame.Boxes.mono (boxes : frame.Boxes programs slot)
    (kept : ∀ (unit : Nat) program, programs[unit]? = some program → programs'[unit]? = some program) :
    frame.Boxes programs' slot := by
  obtain ⟨listing, offset, instr, lists, there⟩ := boxes
  exact ⟨listing, offset, instr, lists.mono kept, there⟩

theorem boxedIn_append {more : List Frame} :
    BoxedIn programs (frames ++ more) place ↔
      BoxedIn programs frames place ∨ BoxedIn programs more place := by
  simp only [BoxedIn, List.mem_append, or_and_right, exists_or]

theorem boxedIn_singleton :
    BoxedIn programs [frame] place ↔
      ∃ slot, frame.Boxes programs slot ∧ place = frame.base + slot.toNat := by
  simp only [BoxedIn, List.mem_singleton, exists_eq_left]

/-! ## A frame in its place -/

theorem Occupies.lists
    (occupies : Occupies terms programs config lower keeps frame function listing level cells) :
    frame.Lists programs listing' ↔ listing' = listing := by
  obtain ⟨program, loaded, found, verified⟩ := occupies.program
  constructor
  · rintro ⟨program', function', loaded', found', listed⟩
    obtain rfl : program = program' := Option.some.inj (loaded.symm.trans loaded')
    obtain rfl : function = function' := Option.some.inj (found.symm.trans found')
    exact Except.ok.inj (listed.symm.trans verified.listed)
  · rintro rfl
    exact ⟨program, function, loaded, found, verified.listed⟩

/-- What the frame has boxed are the slots that the code boxes in front of its next instruction. -/
theorem Occupies.boxes
    (occupies : Occupies terms programs config lower keeps frame function listing level cells) :
    frame.Boxes programs slot ↔ ∃ offset instr, (offset, instr) ∈ listing ∧
      instr.op = .makeCell ∧ instr.a = slot ∧ offset < frame.pc := by
  obtain ⟨program, -, -, verified⟩ := occupies.program
  constructor
  · rintro ⟨listing', offset, instr, lists, there, same, behind⟩
    obtain rfl := occupies.lists.mp lists
    obtain ⟨member, box⟩ := verified.mem_prologue.mp there
    exact ⟨offset, instr, member, box, same, behind⟩
  · rintro ⟨offset, instr, member, box, same, behind⟩
    exact ⟨listing, offset, instr, occupies.lists.mpr rfl,
      verified.mem_prologue.mpr ⟨member, box⟩, same, behind⟩

/-- The frame goes on at a position behind the same boxes. -/
theorem Occupies.boxes_moved {position : Nat}
    (occupies : Occupies terms programs config lower keeps frame function listing level cells)
    (passes : ∀ offset boxing, (offset, boxing) ∈ listing → boxing.op = .makeCell →
      offset < frame.pc → offset < position) (boxes : frame.Boxes programs slot) :
    ({ frame with pc := position } : Frame).Boxes programs slot := by
  obtain ⟨offset, boxing, member, box, same, behind⟩ := occupies.boxes.mp boxes
  exact (occupies.moved position).boxes.mpr
    ⟨offset, boxing, member, box, same, passes offset boxing member box behind⟩

/-- A boxed slot is one of a variable. -/
theorem Occupies.slot_lt
    (occupies : Occupies terms programs config lower keeps frame function listing level cells)
    (boxes : frame.Boxes programs slot) : slot.toNat < function.varCount.toNat := by
  obtain ⟨program, -, -, verified⟩ := occupies.program
  obtain ⟨offset, instr, member, box, rfl, -⟩ := occupies.boxes.mp boxes
  exact (verified.inRange offset instr member).variable_ (.inr (.inr box))

/-- What the frame has boxed lies among its variables. -/
theorem Occupies.boxed_cases
    (occupies : Occupies terms programs config lower keeps frame function listing level cells)
    (boxed : BoxedIn programs [frame] place) :
    lower.length < place ∧ place < lower.length + 1 + function.varCount.toNat := by
  obtain ⟨slot, boxes, rfl⟩ := boxedIn_singleton.mp boxed
  have inside := occupies.slot_lt boxes
  have base := occupies.base
  omega

/-- A boxed slot holds a cell. -/
theorem Occupies.boxed
    (occupies : Occupies terms programs config lower keeps frame function listing level cells)
    (placed : Placed function listing level cells frame.pc locals operands)
    (boxes : frame.Boxes programs slot) (callee : Value) (above : List Value) :
    ∃ cell, (lower ++ callee :: (locals ++ above))[frame.base + slot.toNat]? = some (.cell cell) := by
  have inside := occupies.slot_lt boxes
  obtain ⟨offset, instr, member, box, rfl, behind⟩ := occupies.boxes.mp boxes
  obtain ⟨cell, there⟩ := placed.boxed offset instr member box behind
  refine ⟨cell, ?_⟩
  rw [occupies.base, Nat.add_assoc, List.getElem?_append_right (Nat.le_add_right _ _),
    Nat.add_sub_cancel_left, Nat.add_comm 1, List.getElem?_cons_succ,
    List.getElem?_append_left (placed.slots ▸ inside), there]

/-! ## Values and references -/

/-- What lies above changes nothing. -/
theorem getElem?_append_cell (there : ∃ cell, lower[place]? = some (.cell cell))
    (above : List Value) : ∃ cell, (lower ++ above)[place]? = some (.cell cell) := by
  obtain ⟨cell, there⟩ := there
  obtain ⟨inside, -⟩ := List.getElem?_eq_some_iff.mp there
  exact ⟨cell, by rw [List.getElem?_append_left inside, there]⟩

/-- For each of the values there is a reference that counts for it. -/
def Counted (references : List Reference) (values : List Value) : Prop :=
  ∀ value ∈ values, ∃ reference ∈ references, reference.StandsFor value

namespace Counted

theorem more (counted : Counted references values) (others : List Reference) :
    Counted (others ++ references) values := fun value member => by
  obtain ⟨reference, there, stands⟩ := counted value member
  exact ⟨reference, List.mem_append_right _ there, stands⟩

theorem above (counted : Counted references lower) (values : List Value) :
    Counted (values.map .value ++ references) (lower ++ values) := fun value member => by
  rcases List.mem_append.mp member with below | own
  · exact counted.more _ value below
  · exact ⟨.value value, List.mem_append_left _ (List.mem_map_of_mem own), .inl rfl⟩

/-- A callee may be known more closely. -/
theorem window (counted : Counted references lower) (stands : keeps.StandsFor callee)
    (values : List Value) :
    Counted (values.map .value ++ keeps :: references) (lower ++ callee :: values) := by
  have first : Counted (keeps :: references) (lower ++ [callee]) := fun value member => by
    rcases List.mem_append.mp member with below | own
    · exact counted.more [keeps] value below
    · exact ⟨keeps, List.mem_cons_self, List.mem_singleton.mp own ▸ stands⟩
  rw [List.append_cons lower]
  exact first.above values

end Counted

/-! ## Layers -/

/-- The programs gather cells for closures only. -/
def AllGather (programs : Array Program) : Prop := ∀ program ∈ programs, program.Gathers

theorem Occupies.gathers (all : AllGather programs)
    (occupies : Occupies terms programs config lower keeps frame function listing level cells) :
    listing.Gathers := by
  obtain ⟨program, loaded, found, verified⟩ := occupies.program
  exact all program (Array.mem_of_getElem? loaded) frame.index.toNat function found listing
    verified.listed

/-- So many of the topmost operands are cells. -/
theorem onTop_cell {count index : Nat} (top : OnTop count operands) (inside : index < operands.length)
    (high : operands.length ≤ index + count) : ∃ block, operands[index]? = some (.cell block) := by
  have member : operands[index] ∈ operands.drop (operands.length - count) := by
    refine List.mem_of_getElem? (i := index - (operands.length - count)) ?_
    rw [List.getElem?_drop, Nat.add_sub_cancel' (by omega), List.getElem?_eq_getElem inside]
  have cell := top _ member
  rw [List.getElem?_eq_getElem inside]
  cases same : operands[index] with
  | cell block => exact ⟨block, rfl⟩
  | _ =>
      rw [same] at cell
      cases cell

/-- What is gathered are operands. -/
theorem Occupies.gathered_le (all : AllGather programs)
    (occupies : Occupies terms programs config lower keeps frame function listing level cells)
    (placed : Placed function listing level cells frame.pc locals operands) :
    listing.gathered frame.pc ≤ operands.length := by
  obtain ⟨instr, member⟩ := placed.here
  by_cases none : listing.gathered frame.pc = 0
  · omega
  · rw [placed.depth]
    exact ((occupies.gathers all).captures occupies.leveled member none).le_level occupies.leveled

namespace Layers

/-- The innermost call has begun below the top of the stack. -/
theorem depth_le (layers : Layers terms programs config post callers frames values references) :
    callers.depth ≤ values.length := by
  induction layers with
  | host caller _ _ empty => exact Nat.le_of_eq empty
  | native caller _ _ lower args _ _ _ _ _ depth =>
      refine Nat.le_of_eq (Eq.trans depth ?_)
      rw [List.length_append, List.length_cons]
      omega
  | frame callers _ _ lower locals operands callee _ _ _ _ _ _ _ _ _ _ ih =>
      rw [List.length_append]
      exact Nat.le_add_right_of_le ih

/-- The boxed variables of waiting functions lie below the top of the stack. -/
theorem boxed_lt (layers : Layers terms programs config post callers frames values references)
    (boxed : BoxedIn programs frames place) : place < values.length := by
  induction layers with
  | host => exact absurd boxed (by simp [BoxedIn])
  | native _ _ _ lower _ _ _ _ _ _ _ _ _ ih =>
      rw [List.length_append]
      exact Nat.lt_add_right _ (ih boxed)
  | frame _ frames frame lower locals operands callee _ _ _ _ _ _ _ _ occupies waits ih =>
      simp only [List.length_append, List.length_cons]
      rcases boxedIn_append.mp boxed with below | own
      · exact Nat.lt_add_right _ (ih below)
      · have := (occupies.boxed_cases own).2
        have := (waits .undefined).slots
        omega

/-- The variables of waiting functions and of the running one lie below its operands. -/
theorem boxed_lt_floor
    (layers : Layers terms programs config post callers frames lower references)
    (occupies : Occupies terms programs config lower keeps frame function listing level cells)
    (boxed : BoxedIn programs (frames ++ [frame]) place) :
    place < frame.base + function.varCount.toNat := by
  rw [occupies.base]
  rcases boxedIn_append.mp boxed with below | own
  · have := layers.boxed_lt below
    omega
  · exact (occupies.boxed_cases own).2

/-- Of what was on the stack when the innermost call began, its frames have boxed nothing. -/
theorem boxed_below (layers : Layers terms programs config post callers frames values references)
    (boxed : BoxedIn programs frames place) (below : place < callers.depth) :
    BoxedIn programs (frames.take callers.frames) place := by
  induction layers with
  | host => exact absurd boxed (by simp [BoxedIn])
  | native caller _ frames _ _ _ _ _ _ count =>
      rwa [show (Callers.native caller _ _ : Callers α).frames = frames.length from count,
        List.take_length]
  | frame callers frames frame lower locals operands callee _ _ _ _ _ _ inner _ occupies _ ih =>
      rw [List.take_append_of_le_length inner.frames_le]
      rcases boxedIn_append.mp boxed with here | own
      · exact ih here below
      · have := (occupies.boxed_cases own).1
        have := inner.depth_le
        omega

/-- A function that waits has gathered no cells. -/
theorem gathered (all : AllGather programs)
    (layers : Layers terms programs config post callers frames values references)
    (last : frames.getLast? = some frame) (lists : frame.Lists programs listing) :
    listing.gathered frame.pc = 0 := by
  induction layers with
  | host => cases last
  | native _ _ _ _ _ _ _ _ _ _ _ _ _ ih => exact ih last
  | frame _ _ frame' _ locals operands _ _ _ function listing' level cells _ _ occupies waits =>
      obtain rfl : frame' = frame := by
        rw [List.getLast?_concat] at last
        exact Option.some.inj last
      obtain rfl := occupies.lists.mp lists
      -- Whatever the result is, it lies on top, and it may well be undefined.
      have placed := waits .undefined
      obtain ⟨instr, member⟩ := placed.here
      by_contra some
      have captures := (occupies.gathers all).captures occupies.leveled member some
      have few := captures.le_cells occupies.leveled
      have top : Value.undefined ∈ (operands ++ [Value.undefined]).drop
          ((operands ++ [Value.undefined]).length - cells frame'.pc) := by
        rw [List.drop_append_of_le_length (by
          rw [List.length_append, List.length_singleton]
          omega)]
        exact List.mem_append_right _ List.mem_cons_self
      cases placed.onTop .undefined top

/-- Every boxed variable holds a cell. -/
theorem boxed (layers : Layers terms programs config post callers frames values references)
    (member : frame ∈ frames) (boxes : frame.Boxes programs slot) :
    ∃ cell, values[frame.base + slot.toNat]? = some (.cell cell) := by
  induction layers with
  | host => cases member
  | native _ _ _ _ _ _ _ _ _ _ _ _ _ ih => exact getElem?_append_cell (ih member) _
  | frame _ _ frame' _ locals operands callee _ _ _ _ _ _ _ _ occupies waits ih =>
      rcases List.mem_append.mp member with below | own
      · exact getElem?_append_cell (ih below) _
      · obtain rfl := List.mem_singleton.mp own
        exact occupies.boxed (waits .undefined) boxes callee operands

/-- Every value on the stack counts. -/
theorem counted (layers : Layers terms programs config post callers frames values references) :
    Counted references values := by
  induction layers with
  | host => exact fun _ none => absurd none List.not_mem_nil
  | native _ _ _ _ _ _ owned _ _ _ _ _ _ ih => exact (ih.above _).more owned
  | frame _ _ _ _ _ _ _ _ _ _ _ _ _ _ stands _ _ ih => exact ih.window stands _

end Layers

/-! ## Machines -/

/-- Whatever lies on the stack counts, so a cell there is one of the heap. -/
theorem Environment.Holds.cell (holds : env.Holds terms frames values references)
    (counted : Counted references values) {block : Handle}
    (there : values[place]? = some (.cell block)) :
    ∃ value, env.heap.cellGet? block = some value := by
  obtain ⟨reference, member, rfl | ⟨_, _, _, impossible, -⟩⟩ :=
    counted _ (List.mem_of_getElem? there)
  · exact (holds.balanced.knows member).boxed
  · cases impossible

/-- In the block of a closure on the stack there is one. -/
theorem Environment.Holds.closure (holds : env.Holds terms frames values references)
    (counted : Counted references values) {block : Handle}
    (there : values[place]? = some (.closure block)) :
    ∃ target cells, env.heap.get? block = some (.closure target cells) := by
  obtain ⟨reference, member, stands⟩ := counted _ (List.mem_of_getElem? there)
  have fits := Heap.Balanced.mem holds.balanced (List.mem_append_left _ member)
  have live : ∃ kind, env.heap.kind? block = some kind ∧ Value.Suits (.closure block) kind := by
    obtain rfl | ⟨_, target, cells, same, rfl⟩ := stands
    · exact fits.live block rfl
    · cases same
      obtain ⟨_, kinded, rfl⟩ := fits.live block rfl
      exact ⟨_, kinded, trivial⟩
  obtain ⟨kind, kinded, suits⟩ := live
  obtain ⟨content, found, rfl⟩ := Heap.get?_of_kind? kinded
  cases content with
  | closure target cells => exact ⟨target, cells, found⟩
  | _ => cases suits

namespace Machine

/-- What frames have boxed are cells of the heap. -/
theorem Sound.boxed {machine : Machine α} (sound : machine.Sound terms post)
    (member : frame ∈ machine.environment.frames)
    (boxes : frame.Boxes machine.environment.programs slot) :
    ∃ block value, machine.environment.stack[frame.base + slot.toNat]? = some (.cell block) ∧
      machine.environment.heap.cellGet? block = some value := by
  have layered : ∃ frames values references,
      machine.environment.Holds terms frames values references ∧ Counted references values ∧
        (frame ∈ frames → ∃ cell, values[frame.base + slot.toNat]? = some (.cell cell)) := by
    cases sound with
    | host env program owned holds careful =>
        exact ⟨_, _, _, holds, fun _ none => absurd none List.not_mem_nil,
          fun none => absurd none List.not_mem_nil⟩
    | native env program callers frames lower args callee owned references layers room holds
        careful =>
        exact ⟨_, _, _, holds, (layers.counted.above _).more owned, fun member =>
          getElem?_append_cell (layers.boxed member boxes) _⟩
    | running env callers frames other lower locals operands callee keeps references function
        listing level cells layers stands occupies placed holds =>
        refine ⟨_, _, _, holds, layers.counted.window stands _, fun member => ?_⟩
        rcases List.mem_append.mp member with below | own
        · exact getElem?_append_cell (layers.boxed below boxes) _
        · obtain rfl := List.mem_singleton.mp own
          exact occupies.boxed placed boxes callee operands
    | ended env callers frames lower value references layers count holds =>
        exact ⟨_, _, _, holds, layers.counted.above [value], fun member =>
          getElem?_append_cell (layers.boxed member boxes) _⟩
  obtain ⟨frames, values, references, holds, counted, boxed⟩ := layered
  obtain ⟨block, there⟩ := boxed (holds.frames ▸ Array.mem_toList_iff.mpr member)
  obtain ⟨value, found⟩ := holds.cell counted there
  exact ⟨block, value, by rw [← Array.getElem?_toList, holds.stack, there], found⟩

end Machine

end PocketScript
