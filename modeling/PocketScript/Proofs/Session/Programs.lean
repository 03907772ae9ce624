import PocketScript.Builtin.Natives
import PocketScript.Proofs.Machine.Careful
import PocketScript.Session

/-!
# Careful functions and runs

The builtin functions take care of the references that they handle (`Builtin.isCareful_native`), and so
do the programs by which a host runs a program text (`Host.careful_executeSource`) or the timers that
are due (`Host.careful_poll`): whatever happens, only the result is owned in the end beside what the
host has owned before.
-/

namespace PocketScript

open Environment

variable {α β γ ε : Type} {terms : Terms} {borrowed : List Value} {owned rest : List Reference}

namespace Host

/-! ## Programs that may fail -/

theorem careful_bindExcept {middle post : _ → List Reference → Prop} {first : ExceptT ε Host α}
    {next : α → ExceptT ε Host β} (one : first.run.Careful terms borrowed middle owned)
    (two : ∀ result owned, middle (.ok result) owned →
      (next result).run.Careful terms borrowed post owned)
    (fails : ∀ error owned, middle (.error error) owned → post (.error error) owned) :
    (first >>= next).run.Careful terms borrowed post owned := by
  refine Careful.bind one fun outcome owned holds => ?_
  cases outcome with
  | ok result => exact two result owned holds
  | error error => exact fails error owned holds

/-- A fault may be told in another way. -/
theorem careful_adapt {ε' : Type} {post : _ → List Reference → Prop} {change : ε → ε'}
    {first : ExceptT ε Host α} (one : first.run.Careful terms borrowed
      (fun outcome => post (outcome.mapError change)) owned) :
    (ExceptT.adapt change first).run.Careful terms borrowed post owned :=
  Careful.bind one fun _ _ holds => holds

/-- Something that does not fail, followed by something that may. -/
theorem careful_lift {middle : α → List Reference → Prop} {post : _ → List Reference → Prop}
    {first : Host α} {next : α → ExceptT ε Host β}
    (one : first.Careful terms borrowed middle owned)
    (two : ∀ result owned, middle result owned →
      (next result).run.Careful terms borrowed post owned) :
    ((first : ExceptT ε Host α) >>= next).run.Careful terms borrowed post owned := by
  have lifted : (liftM first : ExceptT ε Host α).run.Careful terms borrowed (fun outcome owned =>
      ∃ result, outcome = .ok result ∧ middle result owned) owned :=
    Careful.bind one fun result _ holds => ⟨result, rfl, holds⟩
  refine careful_bindExcept lifted ?_ ?_
  · rintro _ owned ⟨result, same, holds⟩
    injection same with same
    exact two _ owned (same ▸ holds)
  · rintro _ _ ⟨_, impossible, -⟩
    cases impossible

/-! ## Requests -/

theorem careful_request (request : Request) (sound : request.IsSound)
    (covers : ∀ value ∈ request.reads, Covers (rest ++ borrowed.map .value) value) :
    (Host.request request).Careful terms borrowed
      (fun answer owned => request.Fair answer ∧ owned = request.gives answer ++ rest)
      (request.takes ++ rest) :=
  ⟨rest, .refl _, sound, covers, fun _ fair => ⟨fair, rfl⟩⟩

/-- A line in the log, and whatever else moves no references. -/
theorem careful_aside (request : Request) (sound : request.IsSound) (takes : request.takes = [])
    (reads : request.reads = []) (gives : ∀ answer, request.gives answer = []) :
    (Host.request request).Careful terms borrowed
      (fun answer owned' => request.Fair answer ∧ owned' = owned) owned := by
  refine ⟨owned, by rw [takes]; exact .refl _, sound, fun value member => ?_, fun answer fair =>
    ⟨fair, by rw [gives]; rfl⟩⟩
  rw [reads] at member
  cases member

/-- Something that does not fail, and moves no references, for each of some items. -/
theorem careful_mapM {items : List α} {each : α → Host β} {next : List β → ExceptT ε Host γ}
    {post : _ → List Reference → Prop}
    (one : ∀ item, (each item).Careful terms borrowed (fun _ owned' => owned' = owned) owned)
    (two : ∀ results, (next results).run.Careful terms borrowed post owned) :
    (items.mapM (fun item => (each item : ExceptT ε Host β)) >>= next).run.Careful terms borrowed post
      owned := by
  induction items generalizing next with
  | nil => exact two []
  | cons item rest ih =>
      rw [List.mapM_cons, bind_assoc]
      refine careful_lift (one item) fun first _ same => ?_
      subst same
      rw [bind_assoc]
      refine ih fun others => ?_
      rw [pure_bind]
      exact two (first :: others)

end Host

/-! ## Builtin functions -/

namespace Builtin

variable (reports : ∀ fault : Fault, fault.isOrdinary = true → terms.reports fault)

/-- A plain value needs no reference. -/
theorem delivers_plain {value : Value} (plain : value.IsPlain) :
    Delivers terms (.ok value) [] :=
  ⟨[], fun _ member => absurd member List.not_mem_nil, .inr ⟨plain, rfl⟩⟩

theorem careful_plain {value : Value} (plain : value.IsPlain) :
    (pure value : ExceptT Fault Host Value).run.Careful terms borrowed (Delivers terms) [] :=
  delivers_plain plain

theorem careful_printArgs (args : List Value) :
    (printArgs args).run.Careful terms borrowed (Delivers terms) [] := by
  unfold printArgs
  refine Host.careful_mapM (fun arg => ?_) fun shown => ?_
  · exact (Host.careful_aside (.display arg) trivial rfl rfl fun _ => rfl).weaken fun _ _ => And.right
  · refine Host.careful_lift (Host.careful_aside (.print _) trivial rfl rfl fun _ => rfl) ?_
    rintro _ _ ⟨-, rfl⟩
    exact careful_plain ⟨rfl, by simp⟩

theorem careful_systicks (args : List Value) :
    (native .systicks args).run.Careful terms borrowed (Delivers terms) [] := by
  refine Host.careful_lift (Host.careful_aside .ticks trivial rfl rfl fun _ => rfl) ?_
  rintro _ _ ⟨-, rfl⟩
  exact careful_plain ⟨rfl, by simp [Value.ofNat]⟩

theorem waitOf_cases (arg : Option Value) :
    (∃ wait, waitOf arg = .ok wait) ∨ waitOf arg = .error .typeMismatch := by
  unfold waitOf
  split
  · exact .inl ⟨_, rfl⟩
  · exact .inl ⟨_, rfl⟩
  · exact .inr rfl

/-- An argument, or none, is kept by whoever has passed it. -/
theorem covers_arg (args : List Value) (index : Nat) :
    Covers ([] ++ args.map .value) ((args[index]?).getD .undefined) := by
  cases there : args[index]? with
  | none => exact .inr ⟨rfl, by simp⟩
  | some value => exact .inl (List.mem_map_of_mem (List.mem_of_getElem? there))

include reports in
/-- The arguments are covered while a timer is started with them. -/
theorem careful_startTimer (repeats : Bool) (args : List Value) :
    (startTimer repeats args).run.Careful terms args (Delivers terms) [] := by
  have refused : Delivers terms (.error .typeMismatch) [] :=
    ⟨reports _ rfl, fun _ member => absurd member List.not_mem_nil⟩
  unfold startTimer
  dsimp only
  split
  swap
  · exact refused
  obtain ⟨wait, known⟩ | unknown := waitOf_cases args[1]?
  swap
  · rw [unknown]
    exact refused
  rw [known, show (liftM (.ok wait : Except Fault UInt32) : ExceptT Fault Host UInt32) = pure wait from
    rfl, pure_bind]
  have covers : ∀ value ∈ [(args[0]?).getD .undefined, (args[2]?).getD .undefined],
      Covers ([] ++ args.map .value) value := by
    intro value member
    rcases List.mem_cons.mp member with rfl | last
    · exact covers_arg args 0
    · obtain rfl := List.mem_singleton.mp last
      exact covers_arg args 2
  have starts : (Host.startTimer wait ((args[0]?).getD .undefined) repeats
      ((args[2]?).getD .undefined)).run.Careful terms args _ [] :=
    Host.careful_request (.startTimer wait _ repeats _) trivial covers
  refine Host.careful_bindExcept starts ?_ ?_
  · rintro id _ ⟨-, rfl⟩
    exact careful_plain ⟨rfl, by simp [Value.ofNat]⟩
  · rintro fault _ ⟨ordinary, rfl⟩
    exact ⟨reports _ ordinary, fun _ member => absurd member List.not_mem_nil⟩

/-- To stop one needs no reference. -/
theorem careful_stopTimer (args : List Value) :
    (stopTimer args).run.Careful terms borrowed (Delivers terms) [] := by
  unfold stopTimer
  split
  · refine Host.careful_lift (Host.careful_aside .stopTimers trivial rfl rfl fun _ => rfl) ?_
    rintro _ _ ⟨-, rfl⟩
    exact careful_plain ⟨rfl, by simp⟩
  · split
    · refine Host.careful_lift (Host.careful_aside (.stopTimer _) trivial rfl rfl fun _ => rfl) ?_
      rintro _ _ ⟨-, rfl⟩
      exact careful_plain ⟨rfl, by simp⟩
    · exact careful_plain ⟨rfl, by simp⟩

include reports in
/-- Every builtin function takes care of what it handles. -/
theorem isCareful_native (builtin : Builtin) : builtin.native.IsCareful terms := by
  intro args
  cases builtin with
  | print => exact careful_printArgs args
  | systicks => exact careful_systicks args
  | setTimeout => exact careful_startTimer reports false args
  | setInterval => exact careful_startTimer reports true args
  | clearTimeout | clearInterval => exact careful_stopTimer args

end Builtin

/-! ## Runs -/

/-- Beside what was owned before there are only the result and what takes no block. -/
def Leaves (rest : List Reference) (outcome : Except ε Value) (owned : List Reference) : Prop :=
  ∃ idle : List Reference, (∀ reference ∈ idle, reference.block? = none) ∧
    owned.Perm ((outcome.toOption.toList.map .value ++ idle) ++ rest)

/-- A fault that ends a run is one that may arise. -/
def Terms.Allows (terms : Terms) : Except Fault α → Prop
  | .ok _ => True
  | .error fault => terms.Admits fault

/-- The same of the failure of a program text, which may also be one that does not compile. -/
def Terms.AllowsFailure (terms : Terms) : Except Failure α → Prop
  | .error (.fault fault) => terms.Admits fault
  | _ => True

namespace Host

/-- A line is written to the log first. -/
theorem careful_said {line : String} {next : Unit → Host α} {post : α → List Reference → Prop}
    (goesOn : (next ()).Careful terms borrowed post owned) :
    (Host.ask (.log line) next).Careful terms borrowed post owned :=
  ⟨owned, .refl _, trivial, fun _ member => absurd member List.not_mem_nil, fun _ _ => goesOn⟩

/-- A unit is called as the function that it is. -/
theorem careful_runUnit (unit : Nat) :
    (runUnit unit).run.Careful terms borrowed
      (fun outcome owned => Leaves rest outcome owned ∧ terms.Allows outcome)
      (.value (.function ⟨unit, 0⟩) :: rest) := by
  have idle : ∀ reference ∈ [Reference.value (.function ⟨unit, 0⟩)], reference.block? = none :=
    fun reference member => List.mem_singleton.mp member ▸ rfl
  refine careful_said (And.intro (fun value member => ?_) (And.intro (fun value => ?_)
    fun fault admits => ?_))
  · obtain rfl := List.mem_singleton.mp member
    exact .inl (List.mem_append_left _ List.mem_cons_self)
  · exact careful_said ⟨⟨_, idle, .refl _⟩, trivial⟩
  · exact careful_said ⟨⟨_, idle, .refl _⟩, admits⟩

/-- A verified program may be executed. -/
theorem careful_executeProgram {program : Program} (verified : program.Verified) :
    (executeProgram program).run.Careful terms borrowed
      (fun outcome owned => Leaves rest outcome owned ∧ terms.Allows outcome) rest := by
  have loads : (load program).run.Careful terms borrowed _ rest :=
    careful_request (.load program) verified fun _ member => absurd member List.not_mem_nil
  refine careful_bindExcept loads ?_ ?_
  · rintro unit _ ⟨-, rfl⟩
    exact careful_runUnit unit
  · rintro fault _ ⟨ordinary, rfl⟩
    exact ⟨⟨[], fun _ member => absurd member List.not_mem_nil, .refl _⟩,
      fun _ => Fault.isInternal_of_isOrdinary ordinary⟩

/-- Whatever text a host runs, the result is all that it owns afterwards beside what it has owned
before. -/
theorem careful_executeSource (source : Source) :
    (executeSource source).run.Careful terms borrowed
      (fun outcome owned => Leaves rest outcome owned ∧ terms.AllowsFailure outcome) rest := by
  refine ⟨rest, .refl _, trivial, fun _ member => absurd member List.not_mem_nil,
    fun answer fair => ?_⟩
  cases answer with
  | error diagnostic =>
      exact careful_said ⟨⟨[], fun _ member => absurd member List.not_mem_nil, .refl _⟩, trivial⟩
  | ok program =>
      refine careful_adapt ((careful_executeProgram fair).weaken fun outcome owned ends => ?_)
      cases outcome with
      | ok value => exact ⟨ends.1, trivial⟩
      | error fault => exact ends

/-! ## Timers -/

/-- To ask for a timer needs no reference. -/
theorem careful_isActive (due : DueTimer) :
    (isActive due).Careful terms borrowed (fun _ owned' => owned' = owned) owned := by
  unfold isActive
  split
  · exact rfl
  · exact (careful_aside (.hasTimer _) trivial rfl rfl fun _ => rfl).weaken fun _ _ => And.right

/-- Something that is done on a condition only, with what follows in either case. -/
theorem careful_either {condition : Prop} [Decidable condition] {middle : α → List Reference → Prop}
    {post : β → List Reference → Prop} {first : Host α} {other : α} {next : α → Host β}
    (one : condition → first.Careful terms borrowed middle owned)
    (two : ¬ condition → middle other owned)
    (rest : ∀ result owned, middle result owned → (next result).Careful terms borrowed post owned) :
    (if condition then first >>= next else pure other >>= next).Careful terms borrowed post owned := by
  split
  · exact Careful.bind (one ‹_›) rest
  · exact rest other owned (two ‹_›)

/-- The function of a due timer is run; nothing is left of it. -/
theorem careful_fire {due : DueTimer} (now : UInt32) (covers : ∀ value ∈ [due.callback, due.param],
    Covers (rest ++ borrowed.map .value) value) :
    (fire due now).run.Careful terms borrowed
      (fun outcome owned => owned = rest ∧ terms.Allows outcome) rest := by
  refine careful_said (And.intro covers (And.intro (fun value => ?_) fun fault admits => ?_))
  · exact ⟨rest, .refl _, trivial, fun _ member => absurd member List.not_mem_nil,
      fun _ _ => ⟨rfl, trivial⟩⟩
  · exact careful_said ⟨rfl, admits⟩

/-- A due timer is given up. -/
theorem careful_settle {due : DueTimer} (same : owned.Perm (due.references ++ rest)) :
    (settle due).Careful terms borrowed (fun _ owned => owned = rest) owned :=
  ⟨rest, same, trivial, fun _ member => absurd member List.not_mem_nil, fun _ _ => rfl⟩

/-- What was due is settled with its references. -/
theorem careful_settleAll : ∀ {dues : List DueTimer} {owned : List Reference},
    owned.Perm (dues.flatMap DueTimer.references ++ rest) →
      (dues.forM settle).Careful terms borrowed (fun _ owned => owned.Perm rest) owned
  | [], _, same => same
  | due :: others, owned, same => by
      rw [List.flatMap_cons, List.append_assoc] at same
      refine Careful.bind (careful_settle same) fun _ _ left => ?_
      subst left
      exact careful_settleAll (.refl _)

/-- Of due timers nothing is left, whether their functions fail or not. -/
theorem careful_fireAll (now : UInt32) : ∀ {dues : List DueTimer} {count : Nat}
    {owned : List Reference}, owned.Perm (dues.flatMap DueTimer.references ++ rest) →
      (fireAll now count dues).Careful terms borrowed
        (fun outcome owned => owned.Perm rest ∧ terms.Allows outcome) owned
  | [], _, _, same => ⟨same, trivial⟩
  | due :: others, count, owned, same => by
      rw [List.flatMap_cons, List.append_assoc] at same
      refine Careful.bind (careful_isActive due) fun active _ left => ?_
      subst left
      refine careful_either (fun _ => careful_fire now fun value member =>
        .inl (List.mem_append_left _ ?_)) (fun _ => ⟨rfl, trivial⟩) ?_
      · refine same.mem_iff.mpr (List.mem_append_left _ ?_)
        rcases List.mem_cons.mp member with rfl | last
        · exact List.mem_cons_self
        · rw [List.mem_singleton.mp last]
          exact List.mem_cons_of_mem _ List.mem_cons_self
      rintro outcome _ ⟨rfl, admits⟩
      refine Careful.bind (careful_settle same) fun _ _ left => ?_
      subst left
      cases outcome with
      | ok _ => exact careful_fireAll now (.refl _)
      | error fault => exact Careful.bind (careful_settleAll (.refl _)) fun _ _ left => ⟨left, admits⟩

/-- The host owns after a poll what it has owned before. -/
theorem careful_poll (now : UInt32) :
    (poll now).run.Careful terms borrowed
      (fun outcome owned => owned.Perm rest ∧ terms.Allows outcome) rest := by
  refine ⟨rest, .refl _, trivial, fun _ member => absurd member List.not_mem_nil, fun due _ => ?_⟩
  exact careful_fireAll now (.refl _)

end Host

end PocketScript
