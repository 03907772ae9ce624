import PocketScript.Machine
import PocketScript.Proofs.Compile.Orderly
import PocketScript.Proofs.Compile.Texts
import PocketScript.Proofs.Image.Loading
import PocketScript.Session

/-!
# Programs that are shipped as images

Whatever compiles can be written as an image, and to run the image is to run the program: the host
that is given the one does what the host that is given the other does (`Host.executeImage_write`). The
one host makes something else of the result than the other. A host program followed by a function of
its result runs as the program alone does: every step leads to the same environment, and only the
result is another one in the end (`Environment.run_map`).
-/

namespace PocketScript

/-! ## What is done with a result -/

section

variable {α β : Type} (change : α → β)

/-- The caller goes on as before, and changes its own result in the end. -/
def Caller.map (caller : Caller α) : Caller β :=
  { caller with resume := fun outcome => change <$> caller.resume outcome }

/-- The host changes its result in the end. -/
def Callers.map : Callers α → Callers β
  | .host caller => .host (caller.map change)
  | .native caller place outer => .native caller place outer.map

def Control.map : Control α → Control β
  | .host program => .host (change <$> program)
  | .native program place callers => .native program place (callers.map change)
  | .script callers => .script (callers.map change)

namespace Machine

/-- The machine whose host changes its result in the end. -/
def map (machine : Machine α) : Machine β := ⟨machine.environment, machine.control.map change⟩

@[simp]
theorem frames_map (callers : Callers α) : (callers.map change).frames = callers.frames := by
  cases callers <;> rfl

@[simp]
theorem depth_map (callers : Callers α) : (callers.map change).depth = callers.depth := by
  cases callers <;> rfl

theorem resume_map (callers : Callers α) (outcome : Except Fault Value) :
    (callers.map change).resume outcome = (callers.resume outcome).map change := by
  cases callers <;> rfl

theorem fail_map (env : Environment) (callers : Callers α) (fault : Fault) :
    fail env (callers.map change) fault = (fail env callers fault).map change := by
  unfold fail
  rw [frames_map, depth_map, resume_map]
  rfl

theorem afterEntering_map (outcome : Except Fault EnteredCall × Environment)
    (callers : Callers α) :
    afterEntering outcome (callers.map change) = (afterEntering outcome callers).map change := by
  obtain ⟨fault | entered, env⟩ := outcome
  · exact fail_map change env callers fault
  · cases entered <;> rfl

theorem step_map (machine : Machine α) : (machine.map change).step = machine.step.map change := by
  obtain ⟨env, control⟩ := machine
  cases control with
  | host program =>
      cases program with
      | done result => rfl
      | ask request next => rfl
      | call callee args next =>
          exact afterEntering_map change _ (.host (waiting env next))
  | native program place callers =>
      cases program with
      | done result =>
          change stepNative env (.done result) place (callers.map change) =
            (stepNative env (.done result) place callers).map change
          unfold stepNative
          simp only
          obtain ⟨fault | _, after⟩ := Environment.leaveNative place result env
          · exact fail_map change after callers fault
          · rfl
      | ask request next => rfl
      | call callee args next =>
          exact afterEntering_map change _ (.native (waiting env next) place callers)
  | script callers =>
      change stepScript env (callers.map change) =
        (stepScript env callers).map change
      unfold stepScript
      rw [frames_map, depth_map]
      split
      · obtain ⟨fault | _ | argCount, after⟩ := Environment.executeNext env
        · exact fail_map change after callers fault
        · rfl
        · exact afterEntering_map change _ callers
      · obtain ⟨fault | value, after⟩ := Environment.pop callers.depth env
        · exact fail_map change after callers fault
        · exact congrArg (Machine.mk after) (resume_map change callers (.ok value))

theorem result?_map (machine : Machine α) :
    (machine.map change).result? = machine.result?.map change := by
  obtain ⟨env, control⟩ := machine
  cases control with
  | host program => cases program <;> rfl
  | native program place callers => rfl
  | script callers => rfl

theorem forward_map (steps : Nat) (machine : Machine α) :
    (machine.map change).forward steps = (machine.forward steps).map change := by
  induction steps generalizing machine with
  | zero => rfl
  | succ steps ih =>
      rw [forward, forward, result?_map]
      cases machine.result? with
      | some result => rfl
      | none =>
          rw [← ih, ← step_map]
          rfl

end Machine

/-- A change of the result changes nothing else. -/
theorem Environment.run_map (env : Environment) (steps : Nat) (program : Host α) :
    env.run steps (change <$> program) =
      (env.run steps program).map fun (result, after) => (change result, after) := by
  change Machine.run steps (Machine.map change ⟨env, .host program⟩) = _
  unfold Environment.run Machine.run
  simp only [Machine.forward_map, Machine.result?_map, Option.map_map]
  rfl

end

/-! ## Images -/

namespace Host

/-- To run an image that can be read is to run its program. -/
theorem executeImage_of_read {bytes : List UInt8} {image : Image}
    (read : Image.read bytes = .ok image) :
    (executeImage bytes).run =
      Except.mapError Failure.fault <$> (executeProgram image.program).run := by
  unfold executeImage
  rw [read]
  rfl

variable {bytes : List UInt8} {limits : CompileLimits} {isKnownGlobal : String → Bool}
  {program : Program}

/-- Whatever compiles has no NUL in its strings and is written in either byte order, and in any
environment the image of it does what the program does: step by step the environments are the same,
with all that was printed, and so are the result and the fault that it ends with. (The length of a
text of `2 ^ 64` bytes or more, which no memory holds, would have no word.) -/
theorem executeImage_write
    (compiled : PocketScript.compile bytes limits isKnownGlobal = .ok program) :
    (∀ text ∈ program.strings, ¬ Image.HasNul text) ∧
      ∀ order, ∃ image, Image.write program (Image.wide order) = .ok image ∧
        (bytes.length < Image.wordLimit → ∀ (env : Environment) (steps : Nat),
          (Machine.forward steps ⟨env, .host (executeImage image).run⟩).environment =
            (Machine.forward steps ⟨env, .host (executeProgram program).run⟩).environment ∧
          env.run steps (executeImage image).run =
            (env.run steps (executeProgram program).run).map fun (outcome, after) =>
              (outcome.mapError Failure.fault, after)) := by
  obtain ⟨texts, -⟩ := compile_storable compiled
  have clean : ∀ text ∈ program.strings, ¬ Image.HasNul text := fun text member nul =>
    (texts text member).clean (Utf8.zero_mem_encode.mpr nul)
  refine ⟨clean, fun order => ?_⟩
  have none : program.strings.toList.findIdx? (Image.HasNul ·) = none := by
    rw [List.findIdx?_eq_none_iff]
    exact fun text member => decide_eq_false (clean text (Array.mem_toList_iff.mp member))
  refine ⟨_, by rw [Image.write_wide, none], fun small env steps => ?_⟩
  have tables := Image.readTables_bodyBytes order (compile_fits compiled small) clean
    ((Image.bodyBytes order program).length + 4) []
  rw [List.append_nil] at tables
  have read : Image.read (hostWordSize :: order.marker :: 0 :: 0 :: Image.bodyBytes order program) =
      .ok ⟨Image.wide order, program⟩ := by
    rw [Image.read_marked, tables]
    rfl
  rw [executeImage_of_read read]
  exact ⟨congrArg Machine.environment (Machine.forward_map _ steps ⟨env, .host _⟩),
    Environment.run_map _ env steps _⟩

theorem executeImage_write_closure :
    PocketScript.compile closureText {} (fun _ => false) = .ok closureProgram ∧
      closureText.length < Image.wordLimit ∧
      ∃ image, Image.write closureProgram (Image.wide .big) = .ok image ∧
        (Environment.new {}).run 99 (executeImage image).run =
          ((Environment.new {}).run 99 (executeProgram closureProgram).run).map
            fun (outcome, after) => (outcome.mapError Failure.fault, after) := by
  have small : closureText.length < Image.wordLimit := by
    have length : closureText.length = 32 := by cbv
    rw [length]
    decide
  obtain ⟨image, written, agree⟩ := (executeImage_write compile_closureText).2 .big
  exact ⟨compile_closureText, small, image, written, (agree small _ 99).2⟩

end Host

end PocketScript
