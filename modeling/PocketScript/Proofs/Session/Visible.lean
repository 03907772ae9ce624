import PocketScript.Proofs.Environment.Concealing
import PocketScript.Proofs.Session.Programs

/-!
# Functions and runs that handle visible values

The builtin functions hand over only what they are given (`Builtin.isVisible_native`), and so do the
programs by which a host runs what was compiled (`Host.visible_executeSource`), or the timers that are
due (`Host.visible_poll`).
-/

namespace PocketScript

open Environment

variable {α β γ ε : Type} {args : List Value}

namespace Host

/-! ## Programs in a row -/

/-- Less may be asked of what a program ends with. -/
theorem IsVisible.weaken {program : Host α} {post post' : α → Prop} (visible : program.IsVisible post)
    (weaker : ∀ result, post result → post' result) : program.IsVisible post' := by
  induction program with
  | done result => exact weaker result visible
  | ask request next ih => exact ⟨visible.1, fun answer reveals => ih answer (visible.2 answer reveals)⟩
  | call callee args next ih => exact ⟨visible.1, fun outcome shows => ih outcome (visible.2 outcome shows)⟩

theorem IsVisible.bind {program : Host α} {next : α → Host β} {middle : α → Prop} {post : β → Prop}
    (one : program.IsVisible middle) (two : ∀ result, middle result → (next result).IsVisible post) :
    (program >>= next).IsVisible post := by
  change (program.bind next).IsVisible post
  induction program with
  | done result => exact two result one
  | ask request continuation ih =>
      exact ⟨one.1, fun answer reveals => ih answer (one.2 answer reveals)⟩
  | call callee args continuation ih =>
      exact ⟨one.1, fun outcome shows => ih outcome (one.2 outcome shows)⟩

theorem visible_bindExcept {first : ExceptT ε Host α} {next : α → ExceptT ε Host β}
    {middle : Except ε α → Prop} {post : Except ε β → Prop} (one : first.run.IsVisible middle)
    (two : ∀ result, middle (.ok result) → (next result).run.IsVisible post)
    (fails : ∀ error, post (.error error)) : (first >>= next).run.IsVisible post := by
  refine IsVisible.bind one fun outcome holds => ?_
  cases outcome with
  | ok result => exact two result holds
  | error error => exact fails error

/-- Something that does not fail, followed by something that may. -/
theorem visible_lift {first : Host α} {next : α → ExceptT ε Host β} {middle : α → Prop}
    {post : Except ε β → Prop} (one : first.IsVisible middle)
    (two : ∀ result, middle result → (next result).run.IsVisible post) :
    ((first : ExceptT ε Host α) >>= next).run.IsVisible post := by
  refine IsVisible.bind (@IsVisible.bind _ _ first _ middle
    (fun outcome => ∃ result, outcome = .ok result ∧ middle result) one fun result holds =>
      ⟨result, rfl, holds⟩) ?_
  rintro _ ⟨result, rfl, holds⟩
  exact two result holds

/-- A fault may be told in another way. -/
theorem visible_adapt {ε' : Type} {change : ε → ε'} {first : ExceptT ε Host Value}
    (visible : first.run.IsVisible Shows) : (ExceptT.adapt change first).run.IsVisible Shows := by
  refine IsVisible.bind visible fun outcome shows => ?_
  cases outcome with
  | ok value => exact fun other same => shows other (by cases same; rfl)
  | error error => exact nofun

theorem visible_request (request : Request) (visible : request.IsVisible) :
    (Host.request request).IsVisible request.Reveals :=
  ⟨visible, fun _ => id⟩

/-- Something for each of some items. -/
theorem visible_mapM {items : List α} {each : α → Host β} {next : List β → ExceptT ε Host γ}
    {post : Except ε γ → Prop} (one : ∀ item, (each item).IsVisible fun _ => True)
    (two : ∀ results, (next results).run.IsVisible post) :
    (items.mapM (fun item => (each item : ExceptT ε Host β)) >>= next).run.IsVisible post := by
  induction items generalizing next with
  | nil => exact two []
  | cons item rest ih =>
      rw [List.mapM_cons, bind_assoc]
      refine visible_lift (one item) fun first _ => ?_
      rw [bind_assoc]
      refine ih fun others => ?_
      rw [pure_bind]
      exact two (first :: others)

end Host

/-- A visible value is shown. -/
theorem shows_ok {value : Value} (visible : value.Visible) :
    Shows (.ok value : Except ε Value) := by
  rintro _ ⟨⟩
  exact visible

/-! ## Builtin functions -/

namespace Builtin

/-- To print hands nothing over but a number. -/
theorem visible_printArgs (args : List Value) : (printArgs args).run.IsVisible Shows := by
  refine Host.visible_mapM (fun arg => (Host.visible_request (.display arg) trivial).weaken fun _ _ =>
    trivial) fun shown => Host.visible_lift (Host.visible_request (.print _) trivial) fun _ _ => ?_
  exact shows_ok rfl

/-- An argument, or undefined. -/
theorem visible_arg (visible : ∀ arg ∈ args, arg.Visible) (index : Nat) :
    ((args[index]?).getD .undefined).Visible := by
  cases there : args[index]? with
  | none => rfl
  | some value => exact visible value (List.mem_of_getElem? there)

/-- A timer is started with arguments, which are visible. -/
theorem visible_startTimer (repeats : Bool) (visible : ∀ arg ∈ args, arg.Visible) :
    (startTimer repeats args).run.IsVisible Shows := by
  have refused : Shows (.error .typeMismatch : Except Fault Value) := nofun
  unfold startTimer
  dsimp only
  split
  swap
  · exact refused
  obtain ⟨wait, known⟩ | unknown := waitOf_cases args[1]?
  swap
  · rw [unknown]
    exact refused
  rw [known, show (liftM (.ok wait : Except Fault UInt32) : ExceptT Fault Host UInt32) = pure wait from
    rfl, pure_bind]
  have starts : (Host.startTimer wait ((args[0]?).getD .undefined) repeats
      ((args[2]?).getD .undefined)).run.IsVisible fun _ => True :=
    (Host.visible_request (.startTimer wait _ repeats _)
      ⟨visible_arg visible 0, visible_arg visible 2⟩).weaken fun _ _ => trivial
  exact Host.visible_bindExcept starts (fun id _ => shows_ok rfl) fun _ => nofun

/-- To stop one takes its number only. -/
theorem visible_stopTimer (args : List Value) : (stopTimer args).run.IsVisible Shows := by
  unfold stopTimer
  split
  · exact Host.visible_lift (Host.visible_request .stopTimers trivial) fun _ _ => shows_ok rfl
  · split
    · exact Host.visible_lift (Host.visible_request (.stopTimer _) trivial) fun _ _ => shows_ok rfl
    · exact shows_ok rfl

/-- Every builtin function handles visible values only. -/
theorem isVisible_native (builtin : Builtin) : builtin.native.IsVisible := by
  intro args visible
  cases builtin with
  | print => exact visible_printArgs args
  | systicks => exact Host.visible_lift (Host.visible_request .ticks trivial) fun _ _ => shows_ok rfl
  | setTimeout => exact visible_startTimer false visible
  | setInterval => exact visible_startTimer true visible
  | clearTimeout | clearInterval => exact visible_stopTimer args

end Builtin

/-! ## Runs -/

namespace Host

/-- A line is written to the log first. -/
theorem visible_said {line : String} {next : Unit → Host α} {post : α → Prop}
    (goesOn : (next ()).IsVisible post) : (Host.ask (.log line) next).IsVisible post :=
  ⟨trivial, fun _ _ => goesOn⟩

/-- A unit is called without arguments. -/
theorem visible_runUnit (unit : Nat) : (runUnit unit).run.IsVisible Shows := by
  refine visible_said ⟨fun value member => ?_, fun outcome shows => ?_⟩
  · rw [List.mem_singleton.mp member]
    rfl
  · cases outcome with
    | ok value => exact visible_said shows
    | error fault => exact visible_said nofun

theorem visible_executeProgram {program : Program} (compiled : program.IsCompiled) :
    (executeProgram program).run.IsVisible Shows :=
  visible_bindExcept (visible_request (.load program) compiled) (fun unit _ => visible_runUnit unit)
    fun _ => nofun

theorem visible_executeSource (source : Source) : (executeSource source).run.IsVisible Shows := by
  refine ⟨trivial, fun answer reveals => ?_⟩
  cases answer with
  | error diagnostic => exact visible_said nofun
  | ok program => exact visible_adapt (visible_executeProgram reveals)

/-- The functions of timers that are due are called with visible parameters. -/
theorem visible_fire {due : DueTimer} (now : UInt32)
    (visible : due.callback.Visible ∧ due.param.Visible) :
    (fire due now).run.IsVisible fun _ => True := by
  refine visible_said ⟨fun value member => ?_, fun outcome shows => ?_⟩
  · rcases List.mem_cons.mp member with rfl | last
    · exact visible.1
    · rw [List.mem_singleton.mp last]
      exact visible.2
  · cases outcome with
    | ok value => exact ⟨trivial, fun _ _ => trivial⟩
    | error fault => exact visible_said trivial

theorem visible_settle (due : DueTimer) : (settle due).IsVisible fun _ => True :=
  ⟨trivial, fun _ _ => trivial⟩

theorem visible_settleAll (dues : List DueTimer) : (dues.forM settle).IsVisible fun _ => True := by
  induction dues with
  | nil => exact trivial
  | cons due rest ih => exact IsVisible.bind (visible_settle due) fun _ _ => ih

theorem visible_isActive (due : DueTimer) : (isActive due).IsVisible fun _ => True := by
  unfold isActive
  split
  · exact trivial
  · exact ⟨trivial, fun _ _ => trivial⟩

/-- Each timer is called with the visible parameter it was given. -/
theorem visible_fireAll (now : UInt32) : ∀ {dues : List DueTimer} {count : Nat},
    (∀ due ∈ dues, due.callback.Visible ∧ due.param.Visible) →
      (fireAll now count dues).IsVisible fun _ => True
  | [], _, _ => trivial
  | due :: others, count, visible => by
      refine IsVisible.bind (visible_isActive due) fun active _ => ?_
      have later (count : Nat) : (fireAll now count others).IsVisible fun _ => True :=
        visible_fireAll now fun other member => visible other (List.mem_cons_of_mem _ member)
      split
      · refine IsVisible.bind (visible_fire now (visible due List.mem_cons_self)) fun outcome _ => ?_
        refine IsVisible.bind (visible_settle due) fun _ _ => ?_
        cases outcome with
        | ok _ => exact later _
        | error fault => exact IsVisible.bind (visible_settleAll others) fun _ _ => trivial
      · change (settle due >>= fun _ => fireAll now count others).IsVisible _
        exact IsVisible.bind (visible_settle due) fun _ _ => later count

theorem visible_poll (now : UInt32) : (poll now).run.IsVisible fun _ => True :=
  ⟨trivial, fun _ reveals => visible_fireAll now reveals⟩

end Host

end PocketScript
