import PocketScript.Proofs.Environment.Convention
import PocketScript.Proofs.Environment.Position
import PocketScript.Proofs.Machine.Layers

/-!
# Sound machines

A machine is sound (`Machine.Sound`) when its stacks are made of layers, its heap is balanced with what
lies on them and what those who wait own, and whoever is at work is careful: a host program or a
native function takes care of what it owns, and the topmost frame is where its next instruction finds
what it needs. Every step leads from a sound machine to a sound one (`Machine.Sound.step`), and the
run of a careful program leaves behind what the program says (`Environment.Holds.run`).
-/

namespace PocketScript

open Environment Environment.Ground

variable {α : Type} {terms : Terms} {post : α → List Reference → Prop}
  {env after : Environment} {callers : Callers α} {frames : List Frame} {frame : Frame}
  {values lower locals operands window args : List Value} {callee value : Value}
  {references : List Reference} {keeps : Reference} {function : FunctionDef} {listing : Listing}
  {level cells : Nat → Nat} {config : Config} {programs : Array Program}

/-- What an environment is like in front of every step: some frames and values are on the stacks, and
the heap is balanced with references that stand for these values and for what others own. -/
structure Environment.Holds (terms : Terms) (frames : List Frame) (values : List Value)
    (references : List Reference) (env : Environment) : Prop where
  frames : env.frames.toList = frames
  stack : env.stack.toList = values
  balanced : env.Balanced terms.trusted references
  notes : env.NotesInBounds
  verified : AllVerified env.programs
  natives : ∀ native ∈ env.natives, native.run.IsCareful terms

namespace Environment.Holds

theorem perm (holds : env.Holds terms frames values references) {other : List Reference}
    (same : references.Perm other) : env.Holds terms frames values other :=
  { holds with balanced := holds.balanced.perm same }

/-- A request is answered, and the stacks are as they were. -/
theorem answer (request : Request) (sound : request.IsSound) {rest : List Reference}
    (covers : ∀ value ∈ request.reads, Covers rest value)
    (holds : env.Holds terms frames values (request.takes ++ rest)) :
    request.Fair (answer request env).1 ∧
      Grown env.programs (Environment.answer request env).2.programs ∧
        (Environment.answer request env).2.config = env.config ∧
          (Environment.answer request env).2.Holds terms frames values
            (request.gives (Environment.answer request env).1 ++ rest) := by
  obtain ⟨fair, programs, grown, rfl, balanced⟩ :=
    served_answer request sound covers ⟨rfl, holds.balanced⟩
  have behind := backstage_answer request env
  exact ⟨fair, grown, behind.config,
    ⟨behind.frames ▸ holds.frames, behind.stack ▸ holds.stack, balanced, behind.notes holds.notes,
      grown.verified holds.verified, behind.natives ▸ holds.natives⟩⟩

theorem size (holds : env.Holds terms frames values references) :
    env.stack.size = values.length := by
  rw [← Array.length_toList, holds.stack]

theorem count (holds : env.Holds terms frames values references) :
    env.frames.size = frames.length := by
  rw [← Array.length_toList, holds.frames]

/-- What leads to no block need not be given up. -/
theorem withoutIdle : ∀ {idle : List Reference},
    (∀ reference ∈ idle, reference.block? = none) →
    env.Holds terms frames values (idle ++ references) →
      env.Holds terms frames values references
  | [], _, holds => holds
  | reference :: rest, blockless, holds => by
      have fewer : env.Holds terms frames values (rest ++ references) :=
        { holds with
          balanced := Heap.Balanced.omit holds.balanced (blockless reference List.mem_cons_self) }
      exact withoutIdle (fun other member => blockless other (List.mem_cons_of_mem _ member)) fewer

/-- A result is the only reference that is left. -/
theorem delivered {owned : List Reference}
    (holds : env.Holds terms frames values (owned ++ references))
    (delivers : Delivers terms (.ok value) owned) :
    env.Holds terms frames values (.value value :: references) := by
  obtain ⟨idle, none, same | ⟨plain, rfl⟩⟩ := delivers
  · refine withoutIdle none (holds.perm ((same.append_right references).trans ?_))
    exact List.perm_middle.symm
  · have fewer := withoutIdle none holds
    exact { fewer with
      balanced := Heap.Balanced.add fewer.balanced plain.block (plain.knows env) }

/-- What lies above a place is given up. -/
theorem dropped {above : List Value}
    (holds : env.Holds terms frames (values ++ above) (above.map .value ++ references)) :
    (env.dropped values.length).Holds terms frames values references where
  frames := holds.frames
  stack := congrArg Array.toList (stack_dropped holds.stack)
  balanced := balanced_dropped holds.stack holds.balanced
  notes := holds.notes
  verified := holds.verified
  natives := holds.natives

/-- The frames and values that a call has left behind are given up. -/
theorem unwound {more : List Frame} {above : List Value}
    (holds : env.Holds terms (frames ++ more) (values ++ above)
      (above.map .value ++ references)) :
    (unwind frames.length values.length env).2.Holds terms frames values references := by
  rw [unwind_eq]
  refine { holds.dropped with frames := ?_ }
  change (env.frames.shrink frames.length).toList = _
  rw [Array.toList_shrink, holds.frames, List.take_left]

/-- A value is put on the stack. -/
theorem push (holds : env.Holds terms frames values (.value value :: references))
    (room : values.length < env.config.stackSize) :
    ∃ after, Environment.push value env = (.ok (), after) ∧
      after.programs = env.programs ∧ after.config = env.config ∧
        after.Holds terms frames (values ++ [value]) (.value value :: references) := by
  refine ⟨{ env with stack := env.stack.push value }, ?_, rfl, rfl,
    { holds with stack := ?_ }⟩
  · rw [push_eq, if_pos (by rw [holds.size]; exact room)]
  · rw [Array.toList_push, holds.stack]

/-- The variables of a function with a callee below them are laid out. -/
theorem laidOut (argCount varCount : Nat)
    (holds : env.Holds terms frames (values ++ callee :: args)
      (args.map .value ++ references)) :
    (env.laidOut (values.length + 1) argCount varCount).Holds terms frames
      (values ++ callee :: initialVariables args argCount varCount)
      ((initialVariables args argCount varCount).map .value ++ references) where
  frames := holds.frames
  stack := toList_laidOut holds.stack argCount varCount
  balanced := balanced_laidOut holds.stack argCount varCount holds.balanced
  notes := holds.notes
  verified := holds.verified
  natives := holds.natives

/-- Values that are kept are put on the stack as new references. -/
theorem sharing : ∀ {shared : List Value} {env : Environment} {values : List Value}
    {references : List Reference}, env.Holds terms frames values references →
      (∀ value ∈ shared, Covers references value) →
      (env.sharing shared).Holds terms frames (values ++ shared)
        (shared.map .value ++ references)
  | [], env, values, references, holds, _ => by
      rw [sharing_nil, List.append_nil]
      exact holds
  | value :: rest, env, values, references, holds, covers => by
      rw [sharing_cons]
      have books : Books terms.trusted env.programs references env :=
        ⟨rfl, holds.balanced⟩
      have first : (env.sharing [value]).Holds terms frames (values ++ [value])
          (.value value :: references) := by
        refine { holds with stack := ?_, balanced := ?_ }
        · change (env.stack ++ #[value]).toList = _
          rw [Array.toList_append, holds.stack]
        · exact (books.retainCovered (covers value List.mem_cons_self)).balanced
      have others := sharing first fun other member =>
        (covers other (List.mem_cons_of_mem _ member)).mono fun _ => List.mem_cons_of_mem _
      rw [List.append_assoc] at others
      refine others.perm ?_
      exact List.perm_middle

end Environment.Holds

/-- What an outcome hands over; a fault is one that may arise. -/
def Hands (terms : Terms) (outcome : Except Fault Value) (given : List Reference) : Prop :=
  match outcome with
  | .ok value => given = [.value value]
  | .error fault => given = [] ∧ terms.Admits fault

theorem Host.Awaits.resume {β : Type} {borrowed : List Value} {post : β → List Reference → Prop}
    {owned given : List Reference} {resume : Except Fault Value → Host β}
    (awaits : Awaits terms borrowed post owned resume) {outcome : Except Fault Value}
    (hands : Hands terms outcome given) :
    (resume outcome).Careful terms borrowed post (given ++ owned) := by
  cases outcome with
  | ok value =>
      obtain rfl := hands
      exact awaits.1 value
  | error fault =>
      obtain ⟨rfl, admits⟩ := hands
      exact awaits.2 fault admits

namespace Machine

/-- All is as it should be in front of a step. -/
inductive Sound (terms : Terms) (post : α → List Reference → Prop) : Machine α → Prop
  | host (env : Environment) (program : Host α) (owned : List Reference)
      (holds : env.Holds terms [] [] owned) (careful : program.Careful terms [] post owned) :
      Sound terms post ⟨env, .host program⟩
  | native (env : Environment) (program : Host (Except Fault Value)) (callers : Callers α)
      (frames : List Frame) (lower args : List Value) (callee : Value)
      (owned references : List Reference)
      (layers : Layers terms env.programs env.config post callers frames lower
        references)
      (room : lower.length < env.config.stackSize)
      (holds : env.Holds terms frames (lower ++ callee :: args)
        (owned ++ ((callee :: args).map .value ++ references)))
      (careful : program.Careful terms args (Delivers terms) owned) :
      Sound terms post ⟨env, .native program lower.length callers⟩
  /-- The topmost frame is about to execute its next instruction. -/
  | running (env : Environment) (callers : Callers α) (frames : List Frame) (frame : Frame)
      (lower locals operands : List Value) (callee : Value) (keeps : Reference)
      (references : List Reference) (function : FunctionDef) (listing : Listing)
      (level cells : Nat → Nat)
      (layers : Layers terms env.programs env.config post callers frames lower
        references)
      (stands : keeps.StandsFor callee)
      (occupies : Occupies terms env.programs env.config lower keeps frame function
        listing level cells)
      (placed : Placed function listing level cells frame.pc locals operands)
      (holds : env.Holds terms (frames ++ [frame]) (lower ++ callee :: (locals ++ operands))
        ((locals ++ operands).map .value ++ keeps :: references)) :
      Sound terms post ⟨env, .script callers⟩
  /-- The innermost call has ended, with its result on top of the stack. -/
  | ended (env : Environment) (callers : Callers α) (frames : List Frame)
      (lower : List Value) (value : Value) (references : List Reference)
      (layers : Layers terms env.programs env.config post callers frames lower
        references)
      (count : frames.length = callers.frames)
      (holds : env.Holds terms frames (lower ++ [value]) (.value value :: references)) :
      Sound terms post ⟨env, .script callers⟩

/-! ## The end of a call -/

/-- Whoever waits for the innermost call goes on. -/
theorem sound_resume {outcome : Except Fault Value} {given : List Reference}
    (layers : Layers terms env.programs env.config post callers frames values
      references)
    (count : frames.length = callers.frames) (hands : Hands terms outcome given)
    (holds : env.Holds terms frames values (given ++ references)) :
    Sound terms post ⟨env, callers.resume outcome⟩ := by
  cases layers with
  | host caller owned none empty goesOn =>
      exact .host env _ (given ++ references) holds (goesOn.resume hands)
  | native caller outer _ lower args callee owned outside below _ depth room goesOn =>
      rw [← List.append_assoc] at holds
      exact .native env _ outer frames lower args callee (given ++ owned) outside below room
        holds (goesOn.resume hands)
  | frame _ frames frame _ _ _ _ _ _ _ _ _ _ below _ _ _ =>
      have few := below.frames_le
      rw [List.length_append, List.length_singleton] at count
      omega

/-- A fault ends the innermost call, and all that belongs to the call is given up. -/
theorem sound_fail {fault : Fault} {more : List Frame} {above : List Value}
    (layers : Layers terms env.programs env.config post callers frames values
      references)
    (holds : env.Holds terms (frames ++ more) (values ++ above)
      (above.map .value ++ references))
    (admits : terms.Admits fault) : Sound terms post (fail env callers fault) := by
  obtain ⟨frames', more', values', above', references', inner, count, depth, rfl, rfl, gives⟩ :=
    layers.innermost
  have balanced := gives env _ holds.balanced
  rw [← List.append_assoc, ← List.map_append] at balanced
  have all : env.Holds terms (frames' ++ (more' ++ more)) (values' ++ (above' ++ above))
      ((above' ++ above).map .value ++ references') := by
    refine { holds with frames := ?_, stack := ?_, balanced := balanced.perm ?_ }
    · rw [holds.frames, List.append_assoc]
    · rw [holds.stack, List.append_assoc]
    · exact (List.perm_append_comm.map _).append_right _
  have unwound := all.unwound
  unfold fail
  rw [← count, ← depth]
  exact sound_resume inner count ⟨rfl, admits⟩ unwound

/-- A function, or a native one, has returned, and its result lies where its callee was. -/
theorem sound_returned
    (layers : Layers terms env.programs env.config post callers frames values
      references)
    (holds : env.Holds terms frames (values ++ [value]) (.value value :: references)) :
    Sound terms post ⟨env, .script callers⟩ := by
  cases layers with
  | host caller owned none empty goesOn =>
      exact .ended env _ [] [] value _ (.host caller references none empty goesOn) none.symm
        holds
  | native caller outer _ lower args callee owned outside below count depth room goesOn =>
      exact .ended env _ frames _ value _ (.native caller outer frames lower args callee owned
        outside below count depth room goesOn) count.symm holds
  | frame _ frames frame lower locals operands callee keeps outside function listing level cells below
      stands occupies waits =>
      refine .running env callers frames frame lower locals (operands ++ [value]) callee keeps
        outside function listing level cells below stands occupies (waits value)
        { holds with stack := ?_, balanced := holds.balanced.perm ?_ }
      · rw [holds.stack]
        simp only [List.append_assoc, List.cons_append]
      · refine perm_of_count fun reference => ?_
        simp only [List.map_append, List.map_cons, List.map_nil, List.count_append, List.count_cons,
          List.count_nil]
        omega

/-! ## The beginning of a call -/

/-- An attempt to enter a call comes to a sound machine; a fault is one that may arise. -/
structure Enters (terms : Terms) (post : α → List Reference → Prop) (callers : Callers α)
    (outcome : Except Fault EnteredCall × Environment) : Prop where
  sound : Sound terms post (afterEntering outcome callers)
  admits : ∀ fault, outcome.1 = .error fault → terms.Admits fault

theorem enters_fails {fault : Fault} {above : List Value}
    (layers : Layers terms env.programs env.config post callers frames values
      references)
    (holds : env.Holds terms frames (values ++ above) (above.map .value ++ references))
    (admits : terms.Admits fault) :
    Enters terms post callers (.error fault, env) := by
  have same : env.Holds terms (frames ++ []) (values ++ above)
      (above.map .value ++ references) := by
    rwa [List.append_nil]
  refine ⟨sound_fail layers same admits, fun raised same => ?_⟩
  injection same with same
  exact same ▸ admits

/-- At its first instruction a function finds what it needs. -/
theorem placed_entry {program : Program} (verified : function.Verified program listing)
    (leveled : listing.Leveled function.stackHigh.toNat level cells)
    (slots : locals.length = function.varCount.toNat) :
    Placed function listing level cells 0 locals [] := by
  obtain ⟨offset, last, ends, -⟩ := verified.last
  have more : listing ≠ [] := by
    intro none
    rw [none] at ends
    cases ends
  refine ⟨Code.first_of_disassemble verified.listed more, slots, leveled.entry.symm, ?_,
    fun _ _ _ _ before => absurd before (Nat.not_lt_zero _)⟩
  rw [leveled.entryCells]
  exact onTop_zero _

/-- A function is entered when there is room for it. -/
theorem enters_function {target : FunctionRef} {closure : Option Handle} {count : Nat}
    (layers : Layers terms env.programs env.config post callers frames values
      references)
    (holds : env.Holds terms frames (values ++ callee :: args)
      (args.map .value ++ keeps :: references))
    (stands : keeps.StandsFor callee)
    (offers : Offers terms.trusted env.programs target count)
    (captures : count = 0 ∨ ∃ block, closure = some block ∧ keeps = .callee block target count) :
    Enters terms post callers
      ((enterFunction target closure values.length env).1.map fun _ => .script,
        (enterFunction target closure values.length env).2) := by
  have owned : env.Holds terms frames (values ++ callee :: args)
      ((callee :: args).map .value ++ references) := by
    have first : env.Balanced terms.trusted (keeps :: (args.map .value ++ references)) :=
      holds.balanced.perm List.perm_middle
    exact { holds with balanced := stands.balanced first }
  rw [enterFunction_eq]
  by_cases shallow : env.frames.size < env.config.maxCallDepth
  case neg =>
    rw [if_neg shallow]
    exact enters_fails layers owned fun _ => rfl
  rw [if_pos shallow]
  cases known : env.function? target with
  | none =>
      refine enters_fails layers owned fun trusted => ?_
      obtain ⟨program, function, loaded, found, -⟩ := offers trusted
      rw [function?_eq, loaded] at known
      cases known.symm.trans found
  | some function =>
      rw [function?_eq] at known
      obtain ⟨program, loaded, found⟩ := Option.bind_eq_some_iff.mp known
      obtain ⟨listing, verified⟩ :=
        (holds.verified _ _ loaded).functions target.index.toNat function found
      obtain ⟨level, cells, leveled⟩ := verified.leveled
      have few : function.argCount.toNat ≤ function.varCount.toNat := verified.args
      simp only
      rw [if_neg (Nat.not_lt.mpr few)]
      split
      · exact enters_fails layers owned fun _ => rfl
      rename_i fits
      have laid := holds.laidOut function.argCount.toNat function.varCount.toNat
      have slots := @length_initialVariables args _ _ few
      have occupies : Occupies terms env.programs env.config values keeps
          (entered target closure values.length) function listing level cells := by
        refine ⟨⟨program, loaded, found, verified⟩, leveled, rfl, Nat.le_of_not_lt fits,
          fun trusted => ?_⟩
        obtain ⟨known, same, there, offered, uses⟩ := offers trusted
        obtain rfl : program = known := Option.some.inj (loaded.symm.trans there)
        obtain rfl : function = same := Option.some.inj (found.symm.trans offered)
        refine ⟨count, uses listing verified.listed, captures.imp id ?_⟩
        rintro ⟨block, same, stands⟩
        exact ⟨block, target, same, stands⟩
      refine ⟨.running _ callers frames (entered target closure values.length) values
        (initialVariables args _ _) [] callee keeps references function listing level cells layers
        stands occupies (placed_entry verified leveled slots) { laid with frames := ?_, stack := ?_, balanced := ?_ },
        fun fault impossible => by cases impossible⟩
      · change (env.frames.push _).toList = _
        rw [Array.toList_push, holds.frames]
      · rw [List.append_nil]
        exact laid.stack
      · rw [List.append_nil]
        exact laid.balanced

/-- The value below the arguments is called. -/
theorem enters_call
    (layers : Layers terms env.programs env.config post callers frames values
      references)
    (room : values.length < env.config.stackSize)
    (holds : env.Holds terms frames (values ++ callee :: args)
      ((callee :: args).map .value ++ references)) :
    Enters terms post callers (enterCall args.length env) := by
  have size : env.stack.size = values.length + (args.length + 1) := by
    rw [holds.size, List.length_append, List.length_cons]
  have there : env.stack[values.length]? = some callee := by
    rw [← Array.getElem?_toList, holds.stack, List.getElem?_append_right (Nat.le_refl _),
      Nat.sub_self]
    rfl
  have shared : env.Holds terms frames (values ++ callee :: args)
      (args.map .value ++ .value callee :: references) :=
    holds.perm List.perm_middle.symm
  rw [enterCall_eq, if_neg (by omega), size, Nat.add_sub_cancel]
  simp only
  rw [there]
  have knows : env.Knows terms.trusted callee := holds.balanced.knows List.mem_cons_self
  cases callee with
  | function target =>
      exact enters_function layers shared (.inl rfl) (knows.function target rfl) (.inl rfl)
  | closure block =>
      obtain ⟨kind, kinded, suits⟩ := knows.live block rfl
      obtain ⟨content, found, rfl⟩ := Heap.get?_of_kind? kinded
      cases content with
      | closure target captured =>
          have same : env.heap.closureTarget? block = some target := by
            rw [Heap.closureTarget?, found]
          have able := (holds.balanced.proper _ (PoolSet.mem_contents found)).1
          have seen : env.Holds terms frames (values ++ .closure block :: args)
              (args.map .value ++ .callee block target captured.size :: references) := by
            have first : Heap.Balanced _ env.heap (.value (.closure block) ::
              (args.map .value ++ references ++ env.kept)) := holds.balanced
            have fits : (Reference.callee block target captured.size).Fits
                (.typed (Offers terms.trusted env.programs)) env.heap := by
              refine ⟨fun other leads => ?_, fun target same => by cases same⟩
              injection leads with leads
              subst leads
              exact ⟨_, kinded, rfl⟩
            have second : Heap.Balanced _ env.heap (.callee block target captured.size ::
              (args.map .value ++ references ++ env.kept)) := first.exchange rfl fits
            refine { shared with balanced := second.perm (perm_of_count fun reference => ?_) }
            simp only [List.count_append, List.count_cons]
            omega
          simp only
          rw [same]
          exact enters_function layers seen (.inr ⟨block, target, _, rfl, rfl⟩) able
            (.inr ⟨block, rfl, rfl⟩)
      | _ => cases suits
  | native id =>
      simp only
      cases found : env.natives[id]? with
      | none => exact enters_fails layers holds fun _ => rfl
      | some native =>
          have handed : (env.stack.extract (values.length + 1)).toList = args := by
            rw [toList_extract_from, holds.stack, List.drop_length_add_append, List.drop_succ_cons,
              List.drop_zero]
          rw [size] at handed
          simp only
          rw [handed]
          exact ⟨.native env _ callers frames values args _ [] references layers room holds
            (holds.natives native (Array.mem_of_getElem? found) args),
            fun fault impossible => by cases impossible⟩
  | _ => exact enters_fails layers holds fun _ => rfl

/-- A call from outside puts the callee and the arguments on the stack. -/
theorem enters_hostCall
    (layers : Layers terms env.programs env.config post callers frames values
      references)
    (holds : env.Holds terms frames values references)
    (covers : ∀ value ∈ callee :: args, Covers references value) :
    Enters terms post callers (enterHostCall callee args env) := by
  have nothing : env.Holds terms frames (values ++ []) (([] : List Value).map .value ++
      references) := { holds with stack := by rw [List.append_nil]; exact holds.stack }
  rw [enterHostCall_eq]
  split
  · split
    · exact enters_fails layers nothing fun _ => rfl
    · rename_i room
      have shared := holds.sharing covers
      have size := holds.size
      have entered : Enters terms post callers
          (enterCall args.length (env.sharing (callee :: args))) := by
        refine enters_call layers ?_ shared
        change values.length < env.config.stackSize
        omega
      exact entered
  · exact enters_fails layers nothing fun _ => rfl

/-! ## The next instruction -/

/-- What the running function leaves alone. -/
def groundOf (terms : Terms) (env : Environment) (lower : List Value) (callee : Value)
    (keeps : Reference) (references : List Reference) : Ground where
  trusted := terms.trusted
  programs := env.programs
  config := env.config
  natives := env.natives
  frames := env.frames
  lower := lower ++ [callee]
  below := keeps :: references

theorem bears_of_holds {frames : List Frame}
    (holds : env.Holds terms frames (lower ++ callee :: window)
      (window.map .value ++ keeps :: references)) :
    (groundOf terms env lower callee keeps references).Bears window [] env where
  programs := rfl
  config := rfl
  natives := rfl
  frames := rfl
  notes := holds.notes
  stack := by
    rw [holds.stack]
    exact List.append_cons _ _ _
  balanced := holds.balanced

/-- What lies on the ground is what lies on the stacks. -/
theorem holds_of_bears {position : Nat} {before loose : List Value} {outside : List Reference}
    (holds : env.Holds terms (frames ++ [frame]) before outside)
    (bears : ((groundOf terms env lower callee keeps references).at_ position).Bears window
      loose after) :
    after.Holds terms (frames ++ [{ frame with pc := position }]) (lower ++ callee :: window)
      (loose.map .value ++ (window.map .value ++ keeps :: references)) where
  frames := by
    rw [bears.frames]
    exact toList_modify_last holds.frames _
  stack := by
    rw [bears.stack]
    exact (List.append_cons _ _ _).symm
  balanced := bears.balanced
  notes := bears.notes
  verified := bears.programs ▸ holds.verified
  natives := bears.natives ▸ holds.natives

theorem runs_of_occupies {program : Program}
    (occupies : Occupies terms env.programs env.config lower keeps frame function
      listing level cells) (loaded : env.programs[frame.unit]? = some program) :
    (groundOf terms env lower callee keeps references).Runs
      (activationOf frame function program) function listing level cells := by
  obtain ⟨known, there, found, verified⟩ := occupies.program
  obtain rfl : program = known := Option.some.inj (loaded.symm.trans there)
  have length : (lower ++ [callee]).length = lower.length + 1 := List.length_append
  refine ⟨⟨occupies.base.trans length.symm, loaded⟩, rfl, verified, occupies.leveled, ?_, ?_⟩
  · change (lower ++ [callee]).length + _ + _ ≤ _
    rw [length]
    exact occupies.room
  · intro trusted
    obtain ⟨count, uses, captures⟩ := occupies.captures trusted
    refine ⟨count, uses, captures.imp id ?_⟩
    rintro ⟨closure, target, same, rfl⟩
    exact ⟨closure, target, same, List.mem_cons_self⟩

/-- The callee of a frame that is left counts like any other value. -/
theorem holds_abandoned {position : Nat} {before loose : List Value} {outside : List Reference}
    (holds : env.Holds terms (frames ++ [frame]) before outside)
    (stands : keeps.StandsFor callee)
    (bears : ((groundOf terms env lower callee keeps references).at_ position).Bears window
      loose after) :
    after.Holds terms (frames ++ [{ frame with pc := position }]) (lower ++ callee :: window)
      ((callee :: window).map .value ++ (loose.map .value ++ references)) := by
  have here := holds_of_bears holds bears
  have first : after.Balanced terms.trusted
      (keeps :: (window.map .value ++ (loose.map .value ++ references))) :=
    here.balanced.perm (perm_of_count fun reference => by
      simp only [List.count_append, List.count_cons]
      omega)
  exact { here with balanced := stands.balanced first }

/-- A function is left for its caller. -/
theorem leaves_function {position : Nat} {before : List Value} {outside : List Reference}
    (holds : env.Holds terms (frames ++ [frame]) before outside)
    (stands : keeps.StandsFor callee)
    (occupies : Occupies terms env.programs env.config lower keeps frame function
      listing level cells)
    (bears : ((groundOf terms env lower callee keeps references).at_ position).Bears window
      [value] after) :
    ∃ last, leaveFunction frame.base value after = (.ok (), last) ∧
      last.programs = env.programs ∧ last.config = env.config ∧
        last.Holds terms frames (lower ++ [value]) (.value value :: references) := by
  have dropped := (holds_abandoned holds stands bears).dropped
  have popped : { after.dropped lower.length with frames := after.frames.pop }.Holds terms frames
      lower (.value value :: references) := by
    refine { dropped with frames := ?_ }
    change after.frames.pop.toList = frames
    rw [Array.toList_pop, (holds_of_bears holds bears).frames, List.dropLast_concat]
  rw [leaveFunction_eq, occupies.base, Nat.add_sub_cancel]
  have room : lower.length < after.config.stackSize := by
    have := occupies.room
    rw [bears.config]
    change lower.length < env.config.stackSize
    omega
  obtain ⟨last, pushed, sameProgram, sameConfig, there⟩ := popped.push room
  exact ⟨last, pushed, sameProgram.trans bears.programs, sameConfig.trans bears.config, there⟩

/-- What the next instruction comes to: a sound machine, or a call that is entered, or an ordinary
fault. -/
def Executes (terms : Terms) (post : α → List Reference → Prop) (callers : Callers α)
    (outcome : Except Fault (Option Nat) × Environment) : Prop :=
  match outcome with
  | (.ok none, after) => Sound terms post ⟨after, .script callers⟩
  | (.ok (some count), after) => Enters terms post callers (enterCall count after)
  | (.error fault, after) =>
      (terms.trusted → fault.isOrdinary = true) ∧ Sound terms post (fail after callers fault)

/-- The frame's next instruction is the one in the listing. -/
theorem executeNext_member {instr : Instruction} {program : Program}
    (holds : env.Holds terms (frames ++ [frame]) (lower ++ callee :: (locals ++ operands))
      references)
    (occupies : Occupies terms env.programs env.config lower keeps frame function
      listing level cells)
    (placed : Placed function listing level cells frame.pc locals operands)
    (loaded : env.programs[frame.unit]? = some program)
    (member : (frame.pc, instr) ∈ listing) :
    executeNext env =
      ((execute (activationOf frame function program) instr
          (env.at_ (frame.pc + instr.size))).1.map fun _ =>
            if instr.op = .call then some instr.a.toNat else none,
        (execute (activationOf frame function program) instr
          (env.at_ (frame.pc + instr.size))).2) := by
  obtain ⟨known, there, found, verified⟩ := occupies.program
  obtain rfl : program = known := Option.some.inj (loaded.symm.trans there)
  have stands : env.Stands frame function := by
    refine ⟨?_, ?_, ?_, ?_⟩
    · rw [← Array.getLast?_toList, holds.frames]
      exact List.getLast?_concat
    · rw [function?_eq]
      change env.programs[frame.unit]?.bind (·.function? frame.index) = _
      rw [loaded]
      exact found
    · rw [occupies.base]
      exact Nat.succ_pos _
    · rw [occupies.base, holds.size, List.length_append, List.length_cons, List.length_append,
        placed.slots]
      omega
  obtain ⟨unit, at_, -, same⟩ := executeNext_of stands.last stands.known
  have same_program : unit.program = program := by
    have listed : env.programs[frame.unit]? = some unit.program := by
      rw [Environment.programs, Array.getElem?_map, at_]
      rfl
    exact Option.some.inj (listed.symm.trans loaded)
  rw [same, Code.decode_of_disassemble verified.listed member, same_program]
  rfl

/-- An instruction that ends its function hands the result to the caller. -/
theorem executes_leaving {instr : Instruction} {program : Program}
    (layers : Layers terms env.programs env.config post callers frames lower
      references)
    (stands : keeps.StandsFor callee)
    (occupies : Occupies terms env.programs env.config lower keeps frame function
      listing level cells)
    (placed : Placed function listing level cells frame.pc locals operands)
    (holds : env.Holds terms (frames ++ [frame]) (lower ++ callee :: (locals ++ operands))
      ((locals ++ operands).map .value ++ keeps :: references))
    (loaded : env.programs[frame.unit]? = some program)
    (member : (frame.pc, instr) ∈ listing) (leaves : instr.op.leaves = true) :
    ∃ after, execute (activationOf frame function program) instr
        (env.at_ (frame.pc + instr.size)) = (.ok (), after) ∧
      Sound terms post ⟨after, .script callers⟩ := by
  have bears : ((groundOf terms env lower callee keeps references).at_
      (frame.pc + instr.size)).Bears (locals ++ operands) []
        (env.at_ (frame.pc + instr.size)) := (bears_of_holds holds).setPosition _
  have runs : (groundOf terms env lower callee keeps references).Runs
    (activationOf frame function program) function listing level cells :=
      runs_of_occupies occupies loaded
  have needs := runs.leveled.needs _ _ member
  obtain ⟨op, a, b⟩ := instr
  cases op with
  | ret =>
      obtain ⟨below, taken, rfl, many⟩ := placed.split needs
      obtain ⟨result, rfl⟩ := List.length_eq_one_iff.mp many
      rw [← List.append_assoc] at bears
      obtain ⟨middle, popped, bears⟩ :=
        returns_pop ((runs.moved _).floor placed below) _ bears
      obtain ⟨last, left, programs, config, there⟩ := leaves_function holds stands occupies bears
      refine ⟨last, ?_, sound_returned (programs ▸ config ▸ layers) there⟩
      rw [execute_ret, action_bind_ok popped]
      exact left
  | retUndefined =>
      have loose : Bears _ (locals ++ operands) [.undefined] _ := bears.addPlain ⟨rfl, by simp⟩
      obtain ⟨last, left, programs, config, there⟩ := leaves_function holds stands occupies loose
      exact ⟨last, left, sound_returned (programs ▸ config ▸ layers) there⟩
  | _ => cases leaves

/-- A call finds its callee and its arguments, and the frame waits for their result. -/
theorem executes_call {a b : UInt16} {program : Program}
    (layers : Layers terms env.programs env.config post callers frames lower
      references)
    (stands : keeps.StandsFor callee)
    (occupies : Occupies terms env.programs env.config lower keeps frame function
      listing level cells)
    (placed : Placed function listing level cells frame.pc locals operands)
    (holds : env.Holds terms (frames ++ [frame]) (lower ++ callee :: (locals ++ operands))
      ((locals ++ operands).map .value ++ keeps :: references))
    (loaded : env.programs[frame.unit]? = some program)
    (member : (frame.pc, ⟨.call, a, b⟩) ∈ listing) :
    let next := env.at_ (frame.pc + (⟨.call, a, b⟩ : Instruction).size)
    execute (activationOf frame function program) ⟨.call, a, b⟩ next = (.ok (), next) ∧
      Enters terms post callers (enterCall a.toNat next) := by
  intro next
  have bears : ((groundOf terms env lower callee keeps references).at_
      (frame.pc + (⟨.call, a, b⟩ : Instruction).size)).Bears (locals ++ operands) [] next :=
    (bears_of_holds holds).setPosition _
  have runs : (groundOf terms env lower callee keeps references).Runs
    (activationOf frame function program) function listing level cells :=
      runs_of_occupies occupies loaded
  obtain ⟨below, taken, rfl, many⟩ := placed.split (runs.leveled.needs _ _ member)
  obtain ⟨called, args, rfl⟩ := List.exists_cons_of_length_eq_add_one many
  have few : args.length = a.toNat := Nat.succ_inj.mp many
  have depth : below.length + (args.length + 1) = level frame.pc := by
    rw [← placed.depth, List.length_append, List.length_cons]
  constructor
  · have enough : (activationOf frame function program).floor + (a.toNat + 1) ≤
        (lower ++ [callee]).length + (locals ++ (below ++ called :: args)).length := by
      have low := runs.floor placed below
      change _ ≤ (lower ++ [callee]).length + _ at low
      simp only [List.length_append, List.length_cons] at low ⊢
      omega
    obtain ⟨same, done, -⟩ := returns_requireOperands enough next bears
    obtain rfl : same = next := (@execute_call next same _ a b _ done).1
    exact done
  · have waits : ∀ value, Placed function listing level cells
        (frame.pc + (⟨.call, a, b⟩ : Instruction).size) locals (below ++ [value]) := by
      intro value
      refine runs.placed_next member rfl placed rfl ?_ (onTop_zero _)
        (runs.boxed member placed (by simp) _)
      rw [List.length_append, List.length_singleton, ← depth]
      change _ = _ + -(a.toNat : Int)
      omega
    have there := holds_of_bears holds bears
    have split : next.Holds terms
        (frames ++ [{ frame with pc := frame.pc + (⟨.call, a, b⟩ : Instruction).size }])
        ((lower ++ callee :: (locals ++ below)) ++ called :: args)
        ((called :: args).map .value ++ ((locals ++ below).map .value ++ keeps :: references)) := by
      refine { there with stack := ?_, balanced := there.balanced.perm ?_ }
      · rw [there.stack]
        simp only [List.append_assoc, List.cons_append]
      · refine perm_of_count fun reference => ?_
        simp only [List.map_append, List.map_cons, List.map_nil, List.count_append, List.count_cons,
          List.count_nil]
        omega
    rw [← few]
    refine enters_call (.frame callers frames _ lower locals below callee keeps references function
      listing level cells layers stands (occupies.moved _) waits) ?_ split
    have room := occupies.room
    have high := runs.leveled.room _ _ member
    change _ < env.config.stackSize
    simp only [List.length_append, List.length_cons, placed.slots]
    omega

/-- The next instruction of a frame that finds what it needs. -/
theorem executes_next
    (layers : Layers terms env.programs env.config post callers frames lower
      references)
    (stands : keeps.StandsFor callee)
    (occupies : Occupies terms env.programs env.config lower keeps frame function
      listing level cells)
    (placed : Placed function listing level cells frame.pc locals operands)
    (holds : env.Holds terms (frames ++ [frame]) (lower ++ callee :: (locals ++ operands))
      ((locals ++ operands).map .value ++ keeps :: references)) :
    Executes terms post callers (executeNext env) := by
  obtain ⟨instr, member⟩ := placed.here
  obtain ⟨program, loaded, -, -⟩ := occupies.program
  rw [executeNext_member holds occupies placed loaded member]
  by_cases leaves : instr.op.leaves = true
  · obtain ⟨after, done, sound⟩ :=
      executes_leaving layers stands occupies placed holds loaded member leaves
    have noCall : instr.op ≠ .call := by
      intro same
      rw [same] at leaves
      cases leaves
    rw [done]
    simp only [Except.map, if_neg noCall]
    exact sound
  have stays : instr.op.leaves = false := Bool.eq_false_iff.mpr leaves
  have bears : ((groundOf terms env lower callee keeps references).at_
      (frame.pc + instr.size)).Bears (locals ++ operands) []
        (env.at_ (frame.pc + instr.size)) := (bears_of_holds holds).setPosition _
  have runs : (groundOf terms env lower callee keeps references).Runs
    (activationOf frame function program) function listing level cells :=
      runs_of_occupies occupies loaded
  by_cases call : instr.op = .call
  · obtain ⟨op, a, b⟩ := instr
    obtain rfl : op = .call := call
    obtain ⟨done, entered⟩ := executes_call layers stands occupies placed holds loaded member
    rw [done]
    exact entered
  · have goes := runs.goes_execute member placed stays call _ bears
    generalize execute _ instr _ = outcome at goes
    obtain ⟨fault | _, after⟩ := outcome
    · obtain ⟨ordinary, window, bears⟩ := goes
      exact ⟨ordinary, sound_fail (bears.programs ▸ bears.config ▸ layers)
        (holds_abandoned holds stands bears) fun trusted =>
          Fault.isInternal_of_isOrdinary (ordinary trusted)⟩
    · obtain ⟨position, locals', operands', placed', bears⟩ := goes
      simp only [Except.map, if_neg call]
      have there := holds_of_bears holds bears
      exact .running after callers frames { frame with pc := position } lower locals' operands' callee
        keeps references function listing level cells (bears.programs ▸ bears.config ▸ layers) stands
        (bears.programs ▸ bears.config ▸ occupies.moved position) placed' there

/-! ## Steps -/

/-- A call that the host makes. -/
theorem enters_fromHost {callee : Value} {args : List Value} {next : Except Fault Value → Host α}
    {owned : List Reference} (holds : env.Holds terms [] [] owned)
    (careful : (Host.call callee args next).Careful terms [] post owned) :
    Enters terms post (.host (waiting env next)) (enterHostCall callee args env) := by
  obtain ⟨covers, succeeds, fails⟩ := careful
  rw [List.map_nil, List.append_nil] at covers
  have layers : Layers terms env.programs env.config post
      (.host (waiting env next)) [] [] owned :=
    .host _ owned holds.count holds.size ⟨succeeds, fails⟩
  exact enters_hostCall layers holds covers

/-- What a native function has borrowed lies on the stack. -/
theorem covers_borrowed {owned : List Reference} (covers : Covers (owned ++ args.map .value) value) :
    Covers (owned ++ ((callee :: args).map .value ++ references)) value :=
  covers.mono fun _ member => (List.mem_append.mp member).elim (List.mem_append_left _) fun there =>
    List.mem_append_right _ (List.mem_append_left _ (List.mem_cons_of_mem _ there))

/-- A call that a native function makes. -/
theorem enters_fromNative {called : Value} {passed : List Value}
    {next : Except Fault Value → Host (Except Fault Value)} {owned : List Reference}
    (layers : Layers terms env.programs env.config post callers frames lower
      references)
    (room : lower.length < env.config.stackSize)
    (holds : env.Holds terms frames (lower ++ callee :: args)
      (owned ++ ((callee :: args).map .value ++ references)))
    (careful : (Host.call called passed next).Careful terms args (Delivers terms) owned) :
    Enters terms post (.native (waiting env next) lower.length callers)
      (enterHostCall called passed env) := by
  obtain ⟨covers, succeeds, fails⟩ := careful
  have waits : Layers terms env.programs env.config post
      (.native (waiting env next) lower.length callers) frames (lower ++ callee :: args)
      (owned ++ ((callee :: args).map .value ++ references)) := by
    refine .native _ callers frames lower args callee owned references layers holds.count ?_ room
      ⟨succeeds, fails⟩
    change env.stack.size = _
    rw [holds.size, List.length_append, List.length_cons]
    omega
  exact enters_hostCall waits holds fun value member => covers_borrowed (covers value member)

/-- A step of the host. -/
theorem sound_stepHost {program : Host α} {owned : List Reference}
    (holds : env.Holds terms [] [] owned) (careful : program.Careful terms [] post owned) :
    Sound terms post (stepHost env program) := by
  cases program with
  | done result => exact .host env _ owned holds careful
  | ask request next =>
      obtain ⟨rest, split, sound, covers, goesOn⟩ := careful
      rw [List.map_nil, List.append_nil] at covers
      obtain ⟨fair, -, -, there⟩ := (holds.perm split).answer request sound covers
      exact .host _ _ _ there (goesOn _ fair)
  | call callee args next => exact (enters_fromHost holds careful).sound

/-- A native function is left for its caller, or it fails. -/
theorem sound_leaveNative {result : Except Fault Value} {owned : List Reference}
    (layers : Layers terms env.programs env.config post callers frames lower
      references)
    (room : lower.length < env.config.stackSize)
    (holds : env.Holds terms frames (lower ++ callee :: args)
      (owned ++ ((callee :: args).map .value ++ references)))
    (delivers : Delivers terms result owned) :
    (∀ fault, (leaveNative lower.length result env).1 = .error fault → terms.reports fault) ∧
      Sound terms post (stepNative env (.done result) lower.length callers) := by
  have given : env.Holds terms frames (lower ++ callee :: args)
      ((callee :: args).map .value ++ (owned ++ references)) :=
    holds.perm (perm_of_count fun reference => by
      simp only [List.count_append]
      omega)
  have dropped := given.dropped
  have left := leaveNative_eq lower.length result env
  unfold stepNative
  simp only
  cases result with
  | ok value =>
      obtain ⟨after, pushed, programs, config, there⟩ := (dropped.delivered delivers).push room
      rw [show leaveNative lower.length (.ok value) env = (.ok (), after) from
        left.trans pushed]
      refine ⟨fun fault impossible => ?_, sound_returned (programs ▸ config ▸ layers) there⟩
      cases impossible
  | error fault =>
      obtain ⟨may, none⟩ := delivers
      rw [left]
      refine ⟨fun raised same => ?_, ?_⟩
      · injection same with same
        exact same ▸ may
      · have ended : (env.dropped lower.length).Holds terms (frames ++ []) (lower ++ [])
            (([] : List Value).map .value ++ references) := by
          rw [List.append_nil, List.append_nil]
          exact dropped.withoutIdle none
        have failed : Sound terms post
            (fail (env.dropped lower.length) callers fault) :=
          sound_fail layers ended (terms.proper fault may)
        exact failed

/-- A step of a native function. -/
theorem sound_stepNative {program : Host (Except Fault Value)} {owned : List Reference}
    (layers : Layers terms env.programs env.config post callers frames lower
      references)
    (room : lower.length < env.config.stackSize)
    (holds : env.Holds terms frames (lower ++ callee :: args)
      (owned ++ ((callee :: args).map .value ++ references)))
    (careful : program.Careful terms args (Delivers terms) owned) :
    Sound terms post (stepNative env program lower.length callers) := by
  cases program with
  | done result => exact (sound_leaveNative layers room holds careful).2
  | ask request next =>
      obtain ⟨rest, split, sound, covers, goesOn⟩ := careful
      have taken : env.Holds terms frames (lower ++ callee :: args)
          (request.takes ++ (rest ++ ((callee :: args).map .value ++ references))) := by
        rw [← List.append_assoc]
        exact holds.perm (split.append_right _)
      obtain ⟨fair, grown, config, there⟩ :=
        taken.answer request sound fun value member => covers_borrowed (covers value member)
      rw [← List.append_assoc] at there
      exact .native _ _ callers frames lower args callee _ references
        (config ▸ layers.mono grown) (config ▸ room) there (goesOn _ fair)
  | call called passed next => exact (enters_fromNative layers room holds careful).sound

/-- A call has ended, and whoever waits for it takes its result from the stack. -/
theorem sound_ended
    (layers : Layers terms env.programs env.config post callers frames lower
      references)
    (count : frames.length = callers.frames)
    (holds : env.Holds terms frames (lower ++ [value]) (.value value :: references)) :
    ∃ after, Environment.pop callers.depth env = (.ok value, after) ∧
      Sound terms post ⟨after, callers.resume (.ok value)⟩ := by
  have size : env.stack.size = lower.length + 1 := by
    rw [holds.size, List.length_append, List.length_singleton]
  have depth := layers.depth_eq count
  obtain ⟨few, -⟩ | ⟨top, -, there, popped⟩ := pop_cases callers.depth env
  · omega
  · have last : env.stack.back? = some value := by
      rw [← Array.getLast?_toList, holds.stack]
      exact List.getLast?_concat
    obtain rfl : top = value := Option.some.inj (there.symm.trans last)
    have left : { env with stack := env.stack.pop }.Holds terms frames lower
        ([Reference.value top] ++ references) := by
      refine { holds with stack := ?_ }
      rw [Array.toList_pop, holds.stack, List.dropLast_concat]
    have goesOn : Sound terms post
        ⟨{ env with stack := env.stack.pop }, callers.resume (.ok top)⟩ :=
      sound_resume layers count rfl left
    exact ⟨_, popped, goesOn⟩

/-- A step of a sound machine leads to a sound one. -/
theorem Sound.step {machine : Machine α} (sound : machine.Sound terms post) :
    machine.step.Sound terms post := by
  cases sound with
  | host env program owned holds careful => exact sound_stepHost holds careful
  | native env program callers frames lower args callee owned references layers room holds
      careful => exact sound_stepNative layers room holds careful
  | running env callers frames frame lower locals operands callee keeps references function
      listing level cells layers stands occupies placed holds =>
      have more : callers.frames < env.frames.size := by
        have few := layers.frames_le
        rw [holds.count, List.length_append, List.length_singleton]
        omega
      have executes := executes_next layers stands occupies placed holds
      unfold Machine.step stepScript
      simp only
      rw [if_pos more]
      generalize executeNext env = outcome at executes
      obtain ⟨fault | count, after⟩ := outcome
      · exact executes.2
      · cases count with
        | none => exact executes
        | some count => exact executes.sound
  | ended env callers frames lower value references layers count holds =>
      have no : ¬ callers.frames < env.frames.size := by
        rw [holds.count, count]
        exact Nat.lt_irrefl _
      obtain ⟨after, popped, goesOn⟩ := sound_ended layers count holds
      unfold Machine.step stepScript
      simp only
      rw [if_neg no, popped]
      exact goesOn

/-- However many steps it takes. -/
theorem Sound.forward {machine : Machine α} (sound : machine.Sound terms post) :
    ∀ steps, (machine.forward steps).Sound terms post
  | 0 => sound
  | steps + 1 => by
      rw [forward_succ]
      exact (sound.forward steps).step

end Machine

/-- What a careful program leaves behind when it comes to its end. -/
theorem Environment.Holds.run {program : Host α} {result : α} {owned : List Reference}
    (holds : env.Holds terms [] [] owned) (careful : program.Careful terms [] post owned)
    {steps : Nat} (ran : env.run steps program = some (result, after)) :
    ∃ owned', after.Holds terms [] [] owned' ∧ post result owned' := by
  have sound : Machine.Sound terms post ⟨env, .host program⟩ :=
    .host env program owned holds careful
  have last := sound.forward steps
  unfold Environment.run Machine.run at ran
  obtain ⟨found, done, same⟩ := Option.map_eq_some_iff.mp ran
  injection same with first second
  subst first second
  generalize Machine.forward steps _ = machine at done last
  cases last with
  | host env program owned holds careful =>
      unfold Machine.result? at done
      cases program with
      | done result =>
          injection done with done
          exact ⟨owned, holds, done ▸ careful⟩
      | _ => cases done
  | _ => cases done

end PocketScript
