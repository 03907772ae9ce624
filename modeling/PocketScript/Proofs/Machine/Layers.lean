import PocketScript.Proofs.Environment.Guided
import PocketScript.Proofs.Machine.Careful
import PocketScript.Proofs.Machine.Calls

/-!
# What lies on the stacks

From the bottom of the value stack to its top there lie, for every call that has not ended, the callee
and what belongs to it: the variables and operands of a function, or the arguments of a native
function (`Layers`). Each value counts as one reference; those who wait own others besides. When a
call fails, the layers above the one that waits for it are given up, and when it succeeds, its result
lies where the callee was.
-/

namespace PocketScript

open Environment Environment.Ground

/-- The reference counts for a value on the stack. The callee of a frame is known more closely. -/
def Reference.StandsFor (reference : Reference) (value : Value) : Prop :=
  reference = .value value ∨
    ∃ block target cells, value = .closure block ∧ reference = .callee block target cells

theorem Reference.StandsFor.balanced {reference : Reference} {value : Value}
    (stands : reference.StandsFor value) {trusted : Prop} {env : Environment}
    {outside : List Reference} (balanced : env.Balanced trusted (reference :: outside)) :
    env.Balanced trusted (.value value :: outside) := by
  obtain rfl | ⟨block, target, cells, rfl, rfl⟩ := stands
  · exact balanced
  · have seen : Heap.Balanced _ env.heap
      (.callee block target cells :: (outside ++ env.kept)) := balanced
    refine seen.exchange rfl ⟨fun other leads => ?_, fun target same => by cases same⟩
    obtain ⟨kind, there, suits⟩ := (Heap.Balanced.mem seen List.mem_cons_self).live other leads
    refine ⟨kind, there, ?_⟩
    rw [show kind = .closure target cells from suits]
    exact trivial

/-- A frame belongs to a verified function, whose callee lies on top of some values, and there is room
for all that the function may need. -/
structure Occupies (terms : Terms) (programs : Array Program) (config : Config) (lower : List Value)
    (callee : Reference) (frame : Frame) (function : FunctionDef) (listing : Listing)
    (level cells : Nat → Nat) : Prop where
  program : ∃ program, programs[frame.unit]? = some program ∧
    program.function? frame.index = some function ∧ function.Verified program listing
  leveled : listing.Leveled function.stackHigh.toNat level cells
  base : frame.base = lower.length + 1
  room : lower.length + 1 + function.varCount.toNat + function.stackHigh.toNat ≤ config.stackSize
  captures : terms.trusted → ∃ count, listing.UsesBelow count ∧ (count = 0 ∨ ∃ closure target,
    frame.closure = some closure ∧ callee = .callee closure target count)

variable {α : Type} {programs programs' : Array Program} {config : Config} {terms : Terms}
  {post : α → List Reference → Prop} {lower values window : List Value} {frame : Frame}
  {function : FunctionDef} {listing : Listing} {level cells : Nat → Nat} {callee : Value}
  {keeps : Reference} {frames : List Frame} {references outside : List Reference}
  {callers : Callers α} {env after : Environment} {locals operands : List Value}

theorem Occupies.mono
    (occupies : Occupies terms programs config lower keeps frame function listing level cells)
    (grown : Grown programs programs') :
    Occupies terms programs' config lower keeps frame function listing level cells where
  program := by
    obtain ⟨program, there, found⟩ := occupies.program
    exact ⟨program, grown.kept _ _ there, found⟩
  leveled := occupies.leveled
  base := occupies.base
  room := occupies.room
  captures := occupies.captures

/-- Wherever its next instruction starts. -/
theorem Occupies.moved
    (occupies : Occupies terms programs config lower keeps frame function listing level cells)
    (pc : Nat) :
    Occupies terms programs config lower keeps { frame with pc } function listing level cells :=
  ⟨occupies.program, occupies.leveled, occupies.base, occupies.room, occupies.captures⟩

/-- All calls that have not ended, with their frames, with the values on the stack and the references
that these and those who wait own. -/
inductive Layers (terms : Terms) (programs : Array Program) (config : Config)
    (post : α → List Reference → Prop) :
    Callers α → List Frame → List Value → List Reference → Prop
  | host (caller : Caller α) (owned : List Reference) (frames : caller.frames = 0)
      (depth : caller.depth = 0) (goesOn : Host.Awaits terms [] post owned caller.resume) :
      Layers terms programs config post (.host caller) [] [] owned
  /-- A native function waits for a call that it has made. -/
  | native (caller : Caller (Except Fault Value)) (outer : Callers α) (frames : List Frame)
      (lower args : List Value) (callee : Value) (owned references : List Reference)
      (below : Layers terms programs config post outer frames lower references)
      (count : caller.frames = frames.length) (depth : caller.depth = lower.length + 1 + args.length)
      (room : lower.length < config.stackSize)
      (goesOn : Host.Awaits terms args (Delivers terms) owned caller.resume) :
      Layers terms programs config post (.native caller lower.length outer) frames
        (lower ++ callee :: args) (owned ++ ((callee :: args).map .value ++ references))
  /-- A function waits for the result of a call, which then is its topmost operand. -/
  | frame (callers : Callers α) (frames : List Frame) (frame : Frame)
      (lower locals operands : List Value) (callee : Value) (keeps : Reference)
      (references : List Reference) (function : FunctionDef) (listing : Listing) (level cells : Nat → Nat)
      (below : Layers terms programs config post callers frames lower references)
      (stands : keeps.StandsFor callee)
      (occupies : Occupies terms programs config lower keeps frame function listing level cells)
      (waits : ∀ value, Placed function listing level cells frame.pc locals (operands ++ [value])) :
      Layers terms programs config post callers (frames ++ [frame])
        (lower ++ callee :: (locals ++ operands))
        ((locals ++ operands).map .value ++ keeps :: references)

namespace Layers

theorem mono (layers : Layers terms programs config post callers frames values references)
    (grown : Grown programs programs') :
    Layers terms programs' config post callers frames values references := by
  induction layers with
  | host caller owned frames depth goesOn => exact .host caller owned frames depth goesOn
  | native caller outer frames lower args callee owned references _ count depth room goesOn ih =>
      exact .native caller outer frames lower args callee owned references ih count depth room goesOn
  | frame callers frames frame lower locals operands callee keeps references function listing level
      cells _ stands occupies waits ih =>
      exact .frame callers frames frame lower locals operands callee keeps references function listing
        level cells ih stands (occupies.mono grown) waits

/-- There are at least the frames that were there before the innermost call. -/
theorem frames_le (layers : Layers terms programs config post callers frames values references) :
    callers.frames ≤ frames.length := by
  induction layers with
  | host caller _ none => exact Nat.le_of_eq none
  | native caller _ _ _ _ _ _ _ _ count => exact Nat.le_of_eq count
  | frame _ frames _ _ _ _ _ _ _ _ _ _ _ _ _ _ _ ih =>
      rw [List.length_append]
      exact Nat.le_add_right_of_le ih

/-- In front of a call without frames the stack was as high as it is now. -/
theorem depth_eq (layers : Layers terms programs config post callers frames values references)
    (count : frames.length = callers.frames) : callers.depth = values.length := by
  cases layers with
  | host caller _ _ empty => exact empty
  | native caller _ _ lower args _ _ _ _ _ depth =>
      refine Eq.trans depth ?_
      rw [List.length_append, List.length_cons]
      omega
  | frame _ frames _ _ _ _ _ _ _ _ _ _ _ below =>
      have few := below.frames_le
      rw [List.length_append, List.length_singleton] at count
      omega

/-- Below the innermost call there are the layers of those who wait for it; what lies above may be
given up. -/
theorem innermost (layers : Layers terms programs config post callers frames values references) :
    ∃ frames' more values' above references',
      Layers terms programs config post callers frames' values' references' ∧
        frames'.length = callers.frames ∧ values'.length = callers.depth ∧
          frames = frames' ++ more ∧ values = values' ++ above ∧
            ∀ (env : Environment) outside,
              env.Balanced terms.trusted (outside ++ references) →
              env.Balanced terms.trusted
                (outside ++ (above.map .value ++ references')) := by
  induction layers with
  | host caller owned none empty goesOn =>
      exact ⟨[], [], [], [], owned, .host caller owned none empty goesOn, none.symm, empty.symm, rfl,
        rfl, fun _ _ => id⟩
  | native caller outer frames lower args callee owned references below count depth room goesOn =>
      refine ⟨frames, [], _, [], _, .native caller outer frames lower args callee owned references
        below count depth room goesOn, count.symm, ?_, (List.append_nil _).symm,
        (List.append_nil _).symm, fun _ _ => id⟩
      change _ = caller.depth
      rw [depth, List.length_append, List.length_cons]
      omega
  | frame callers frames frame lower locals operands callee keeps references function listing level
      cells _ stands occupies waits ih =>
      obtain ⟨frames', more, values', above, references', layers, count, depth, rfl, rfl, gives⟩ := ih
      refine ⟨frames', more ++ [frame], values', above ++ callee :: (locals ++ operands), references',
        layers, count, depth, List.append_assoc _ _ _, List.append_assoc _ _ _,
        fun env outside balanced => ?_⟩
      have swapped : env.Balanced terms.trusted
          (keeps :: (outside ++ (locals ++ operands).map .value ++ references)) :=
        balanced.perm (perm_of_count fun reference => by
          simp only [List.count_append, List.count_cons]
          omega)
      have shown : env.Balanced terms.trusted ((outside ++ ((locals ++ operands).map .value ++
          [.value callee])) ++ references) :=
        (stands.balanced swapped).perm (perm_of_count fun reference => by
          simp only [List.count_append, List.count_cons, List.count_nil]
          omega)
      refine (gives env _ shown).perm (perm_of_count fun reference => ?_)
      simp only [List.map_append, List.map_cons, List.count_append, List.count_cons, List.count_nil]
      omega

end Layers

end PocketScript
