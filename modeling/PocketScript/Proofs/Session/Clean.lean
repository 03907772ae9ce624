import PocketScript.Proofs.Machine.Faults
import PocketScript.Proofs.Session.Exact

/-!
# Faults of compiled programs

When all programs of an environment were compiled, no run in it comes upon malformed code: no fault
that is raised on the way is one that only malformed code can raise, and the stack is too small only
for calls that are about to be entered (`Session.runs_clean`). This holds of whatever is run at the
top level and of the functions of timers, with all calls that these make.
-/

namespace PocketScript

variable {α : Type}

/-- Every fault that is raised on the way is fit for code that is well formed, and the stack overflows
only when a call is about to be entered. -/
def Machine.Clean (machine : Machine α) : Prop :=
  ∀ steps fault, (machine.forward steps).raised? = some fault →
    fault.isInternal = false ∧ (fault = .stackOverflow → (machine.forward steps).LacksRoom)

namespace Session

variable {session : Session}

/-- All functions are there, and native ones report only ordinary faults. -/
def compiled : Terms :=
  ⟨True, fun fault => fault.isOrdinary = true, fun _ ordinary _ =>
    Fault.isInternal_of_isOrdinary ordinary⟩

theorem Sound.clean (sound : session.Sound compiled) {program : Host α}
    {post : α → List Reference → Prop}
    (careful : program.Careful compiled [] post (session.owned.map .value)) :
    Machine.Clean ⟨session.environment, .host program⟩ := by
  intro steps fault raised
  have start : Machine.Sound compiled post ⟨session.environment, .host program⟩ :=
    .host _ program _ sound careful
  exact (start.forward steps).raised trivial (fun _ => id) raised

/-- However far a host has come, as long as it makes up no functions, what it runs raises no fault of
malformed code, and the stack overflows only where calls are entered. -/
theorem runs_clean {config : Config}
    (reached : Relation.ReflTransGen (Step False) (start config) session) :
    (∀ source, Machine.Clean ⟨session.environment, .host (Host.executeSource source).run⟩ ∧
      ∀ steps fault after, session.environment.run steps (Host.executeSource source).run =
        some (.error (.fault fault), after) → fault.isInternal = false) ∧
    (∀ bytes limits known program, compile bytes limits known = .ok program →
      Machine.Clean ⟨session.environment, .host (Host.executeProgram program).run⟩ ∧
        ∀ steps fault after, session.environment.run steps (Host.executeProgram program).run =
          some (.error fault, after) → fault.isInternal = false) ∧
    ∀ now, Machine.Clean ⟨session.environment, .host (Host.poll now).run⟩ ∧
      ∀ steps fault after, session.environment.run steps (Host.poll now).run =
        some (.error fault, after) → fault.isInternal = false := by
  have sound : session.Sound compiled :=
    Sound.run False.elim (sound_start config fun _ => id) reached
  refine ⟨fun source => ?_, fun bytes limits known program well => ?_, fun now => ?_⟩
  · have careful := @Host.careful_executeSource compiled [] (session.owned.map .value) source
    refine ⟨sound.clean careful, fun steps fault after ran => ?_⟩
    obtain ⟨-, -, -, admits⟩ := Environment.Holds.run sound careful ran
    exact admits trivial
  · have careful := @Host.careful_executeProgram compiled [] (session.owned.map .value) program
      (Environment.verified_of_compile well)
    refine ⟨sound.clean careful, fun steps fault after ran => ?_⟩
    obtain ⟨-, -, -, admits⟩ := Environment.Holds.run sound careful ran
    exact admits trivial
  · have careful := @Host.careful_poll compiled [] (session.owned.map .value) now
    refine ⟨sound.clean careful, fun steps fault after ran => ?_⟩
    obtain ⟨-, -, -, admits⟩ := Environment.Holds.run sound careful ran
    exact admits trivial

/-- A text that starts a timer. -/
def waitingText : List UInt8 := "setTimeout(def(){});".toUTF8.toList

/-- Its program. -/
def waitingProgram : Program where
  numbers := #[]
  strings := #["setTimeout"]
  functions :=
    #[⟨1, 0, 2, false, #[25, 0, 0, 9, 1, 0, 55, 1, 0, 17, 0, 0, 13, 16, 0, 0, 56]⟩,
      ⟨0, 0, 0, false, #[57]⟩]

theorem compile_waitingText : compile waitingText {} (· == "setTimeout") = .ok waitingProgram := by
  rw [compile, TokenStream.ofBytes, @Lexer.tokensFrom_eq_within 21 _ _ _ (by cbv)]
  cbv
  -- The table of texts is empty, and there is room in it.
  split
  · rename_i found
    simp at found
  · split
    · rename_i full
      simp at full
    · cbv

/-- What `setTimeout` does. The number that it gives for a timer is left open, as its bits are of no
interest here. -/
def startsTimer (numbers : UInt32 → Number) : NativeFunction := fun args => do
  let callback := (args[0]?).getD .undefined
  unless callback.isFunction do throw .typeMismatch
  let wait ← Builtin.waitOf args[1]?
  let id ← Host.startTimer wait callback false ((args[2]?).getD .undefined)
  return .number (numbers id)

/-- A new environment with this function in its place. -/
def withTimers (numbers : UInt32 → Number) : Environment :=
  { Environment.withBuiltins {} with
    natives := (Environment.withBuiltins {}).natives.modify 2
      fun native => { native with run := startsTimer numbers } }

theorem withTimers_ofNat :
    withTimers (fun id => Number.ofNat id.toNat) = Environment.withBuiltins {} := by
  have there : (Environment.withBuiltins {}).natives[2]? =
      some ⟨"setTimeout", startsTimer fun id => Number.ofNat id.toNat⟩ := by
    cbv
  have same : (Environment.withBuiltins {}).natives.modify 2 (fun native =>
      { native with run := startsTimer fun id => Number.ofNat id.toNat }) =
        (Environment.withBuiltins {}).natives := by
    apply Array.ext_getElem?
    intro index
    rw [Array.getElem?_modify]
    split
    · rename_i here
      rw [← here, there]
      rfl
    · rfl
  rw [withTimers, same]

theorem run_waiting (numbers : UInt32 → Number) :
    ((withTimers numbers).run 14 (Host.executeProgram waitingProgram).run).map
      (fun ended => ended.2.timers.timers) =
      some [⟨1, 0, 0, false, .function ⟨0, 1⟩, .undefined, ⟨0, 0, 0⟩⟩] := by
  cbv

theorem runs_clean_waiting : ∃ session timer,
    Relation.ReflTransGen (Step False) (start {}) session ∧
      session.environment.timers.timers = [timer] ∧ timer.isDue 0 = true ∧
        Machine.Clean ⟨session.environment, .host (Host.poll 0).run⟩ := by
  have started := run_waiting fun id => Number.ofNat id.toNat
  rw [withTimers_ofNat] at started
  obtain ⟨⟨outcome, after⟩, ran, timers⟩ := Option.map_eq_some_iff.mp started
  have reached : Relation.ReflTransGen (Step False) (start {}) ⟨after, _⟩ :=
    .single (.executeProgram (Environment.withBuiltins {}) after [] _ _ _ waitingProgram
      compile_waitingText 14 outcome ran)
  exact ⟨_, _, reached, timers, by decide, ((runs_clean reached).2.2 0).1⟩

end Session

end PocketScript
