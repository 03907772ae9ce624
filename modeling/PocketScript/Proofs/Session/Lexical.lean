import PocketScript.Proofs.Machine.Coherence
import PocketScript.Proofs.Machine.Lexical
import PocketScript.Proofs.Session.Clean
import PocketScript.Proofs.Session.Veiled

/-!
# Lexical scoping

Whatever a host runs, one program after the other, variables of functions are what the texts say. The
chronicle of a session (`Session.Recorded`) goes on with every run and is left alone by all else that the
host does in between. At every step of every run each variable of each activation has a place of its own
that holds its value, and instructions access the places of what the names in the text denote
(`Session.lexically_scoped`).
-/

namespace PocketScript

open Environment

variable {α : Type} {texts : Nat → List Outline} {catalogs : Nat → Catalog}

namespace Environment

/-- The loaded programs were compiled from texts that say this about variables. -/
def CompiledFrom (texts : Nat → List Outline) (env : Environment) : Prop :=
  ∀ (unit : Nat) program, env.programs[unit]? = some program →
    ∃ bytes limits isKnownGlobal, PocketScript.compile bytes limits isKnownGlobal = .ok program ∧
      texts unit = (UnitTree.ofTokens limits.maxExprDepth (TokenStream.ofBytes bytes)).outlines

variable {before middle after env : Environment} {hidden : Nat → Prop}

theorem CompiledFrom.explained (compiled : env.CompiledFrom texts) :
    ∃ catalogs, Explained texts catalogs env.programs := by
  have each (unit : Nat) : ∃ catalog, ∀ program, env.programs[unit]? = some program →
      program.Catalogued (texts unit) catalog := by
    cases loaded : env.programs[unit]? with
    | none => exact ⟨{}, nofun⟩
    | some program =>
        obtain ⟨bytes, limits, isKnownGlobal, compiled, same⟩ := compiled unit program loaded
        obtain ⟨catalog, catalogued⟩ := compile_catalogued compiled
        refine ⟨catalog, fun other same' => ?_⟩
        cases same'
        rw [same]
        exact catalogued
  choose catalogs all using each
  exact ⟨catalogs, all⟩

/-- There are such texts when nothing else was run than what was compiled. -/
theorem Veiled.compiledFrom (veiled : env.Veiled hidden) :
    ∃ texts, env.CompiledFrom texts := by
  have each (unit : Nat) : ∃ text, ∀ program, env.programs[unit]? = some program →
      ∃ bytes limits isKnownGlobal, PocketScript.compile bytes limits isKnownGlobal = .ok program ∧
        text = (UnitTree.ofTokens limits.maxExprDepth (TokenStream.ofBytes bytes)).outlines := by
    cases loaded : env.programs[unit]? with
    | none => exact ⟨[], nofun⟩
    | some program =>
        obtain ⟨bytes, limits, isKnownGlobal, compiled⟩ :=
          veiled.programs program (Array.mem_of_getElem? loaded)
        refine ⟨(UnitTree.ofTokens limits.maxExprDepth (TokenStream.ofBytes bytes)).outlines,
          fun other same => ?_⟩
        cases same
        exact ⟨bytes, limits, isKnownGlobal, compiled, rfl⟩
  choose texts all using each
  exact ⟨texts, all⟩

/-! ## What is done in between -/

/-- What leaves variables of functions, programs and names of globals alone. -/
structure Idles (before after : Environment) : Prop where
  spares : Spares before after
  faithful : Faithful before after

/-- What idles may do so step by step. -/
theorem Idles.trans (one : Idles before middle) (two : Idles middle after) : Idles before after :=
  ⟨one.spares.trans two.spares, one.faithful.trans two.faithful⟩

theorem idles_defineGlobal (name : String) (value : Value) (env : Environment) :
    Idles env (defineGlobal name value env).2 :=
  ⟨sparingUpdate_defineGlobal name value env, faithful_defineGlobal name value env⟩

theorem idles_register (name : String) (run : NativeFunction) (env : Environment) :
    Idles env (register name run env).2 := by
  obtain ⟨id, natives, log, same⟩ := register_changes name run env
  rw [same]
  have changed : Idles env { env with natives, log } :=
    ⟨.refl env.heap, .of_same rfl rfl⟩
  exact changed.trans (idles_defineGlobal name _ _)

theorem idles_registerAll : ∀ (builtins : List Builtin) (env : Environment),
    Idles env ((builtins.forM fun builtin =>
      discard (register builtin.name builtin.native) : Update Unit) env).2
  | [], env => ⟨.refl env.heap, .of_same rfl rfl⟩
  | builtin :: rest, env =>
      (idles_register builtin.name builtin.native env).trans (idles_registerAll rest _)

end Environment

namespace Session

/-- What a host does with an environment in which nothing runs. -/
inductive Errand where
  | request (asked : Request)
  | allocForeign (text : String) (hostHandle : Nat)
  | define (name : String) (value : Value)
  | advance (ticks : UInt32)

def Errand.apply (env : Environment) : Errand → Environment
  | .request asked => (answer asked env).2
  | .allocForeign text hostHandle => (Environment.allocForeign text hostHandle env).2
  | .define name value => (defineGlobal name value env).2
  | .advance ticks => (Environment.advance ticks env).2

/-- So no errand of the host runs anything. -/
theorem Errand.idles (env : Environment) (errand : Errand) :
    Idles env (errand.apply env) := by
  cases errand with
  | request asked => exact ⟨spares_answer asked env, faithful_answer asked env⟩
  | allocForeign text hostHandle =>
      have contained : Contained env (Environment.allocForeign text hostHandle env).2 :=
        contained_notingFullHeap (fun _ sound => Heap.sound_allocSized sound _ _) fun _ sound fitting =>
          fitting.allocForeign sound text hostHandle
      have backstage : Backstage env
          (Environment.allocForeign text hostHandle env).2 :=
        discreet_notingFullHeap (discreetAction_onHeap _) env
      exact ⟨sparing_allocForeign text hostHandle env,
        .of_same contained.units backstage.globals⟩
  | define name value => exact idles_defineGlobal name value env
  | advance ticks => exact ⟨.refl env.heap, .of_same rfl rfl⟩

/-! ## Chronicles of sessions -/

/-- What is known of variables in a session. -/
inductive Recorded (texts : Nat → List Outline) (config : Config) : Session → Chronicle → Prop
  | start : Recorded texts config (start config) {}
  | run {session : Session} {chronicle : Chronicle} (before : Recorded texts config session chronicle)
      {α : Type} (program : Host α) (gives : α → List Value) (runs : RunsCompiled session program gives)
      (steps : Nat) (result : α) (after : Environment)
      (ran : session.environment.run steps program = some (result, after)) :
      Recorded texts config ⟨after, gives result ++ session.owned⟩
        (chronicle.after texts (⟨session.environment, .host program⟩ : Machine α) steps)
  | idle {session : Session} {chronicle : Chronicle} (before : Recorded texts config session chronicle)
      (errand : Errand) (owned : List Value)
      (turn : Turn session ⟨errand.apply session.environment, owned⟩) :
      Recorded texts config ⟨errand.apply session.environment, owned⟩ chronicle

variable {config : Config} {session after : Session} {chronicle : Chronicle} {program : Host α}
  {gives : α → List Value} {home : Handle → LocalVariable}

theorem environment_of_run {env after : Environment} {steps : Nat} {result : α}
    (ran : env.run steps program = some (result, after)) :
    after = ((⟨env, .host program⟩ : Machine α).forward steps).environment := by
  unfold Environment.run Machine.run at ran
  obtain ⟨last, -, same⟩ := Option.map_eq_some_iff.mp ran
  exact (congrArg Prod.snd same).symm

/-- Whatever the host does, the chronicle goes on. -/
theorem Recorded.turn (recorded : Recorded texts config session chronicle)
    (turn : Turn session after) : ∃ chronicle, Recorded texts config after chronicle := by
  cases turn with
  | run program gives runs steps result after ran =>
      exact ⟨_, recorded.run program gives runs steps result after ran⟩
  | startTimer wait callback repeats param has =>
      exact ⟨_, recorded.idle (.request (.startTimer wait callback repeats param)) _
        (.startTimer wait callback repeats param has)⟩
  | allocForeign text hostHandle =>
      exact ⟨_, recorded.idle (.allocForeign text hostHandle) _ (.allocForeign text hostHandle)⟩
  | global slot name value known =>
      exact ⟨_, recorded.idle (.request (.retain value)) _ (.global slot name value known)⟩
  | step after step =>
      have turn : Turn session after := .step after step
      cases step with
      | execute env after owned source steps outcome ran =>
          exact ⟨_, recorded.run _ _ (.source source) steps outcome after ran⟩
      | executeProgram env after owned bytes limits known program compiled steps outcome ran =>
          exact ⟨_, recorded.run _ _ (.program bytes limits known program compiled) steps outcome after
            ran⟩
      | poll env after owned now steps outcome ran =>
          exact ⟨_, recorded.run _ _ (.poll now) steps outcome after ran⟩
      | stopTimer env owned id => exact ⟨_, recorded.idle (.request (.stopTimer id)) _ turn⟩
      | stopTimers env owned => exact ⟨_, recorded.idle (.request .stopTimers) _ turn⟩
      | allocString env owned text =>
          exact ⟨_, recorded.idle (.request (.allocString text)) _ turn⟩
      | define env owned name value has =>
          exact ⟨_, recorded.idle (.define name value) _ turn⟩
      | retain env owned value has =>
          exact ⟨_, recorded.idle (.request (.retain value)) _ turn⟩
      | release env owned value has =>
          exact ⟨_, recorded.idle (.request (.release value)) _ turn⟩
      | advance env owned ticks => exact ⟨_, recorded.idle (.advance ticks) _ turn⟩

theorem recorded_of_reached (reached : Relation.ReflTransGen Turn (start config) session) :
    ∃ chronicle, Recorded texts config session chronicle := by
  induction reached with
  | refl => exact ⟨{}, .start⟩
  | tail _ turn ih =>
      obtain ⟨chronicle, recorded⟩ := ih
      exact recorded.turn turn

theorem proper_of_reached (reached : Relation.ReflTransGen Turn (start config) session) :
    session.Sound compiled ∧ session.Veiled := by
  induction reached with
  | refl => exact ⟨sound_start config fun _ => id, veiled_start config⟩
  | tail _ turn ih => exact turn.proper ih.1 ih.2

theorem idles_start (config : Config) : Idles (Environment.new config) (start config).environment := by
  unfold start withBuiltins registerBuiltins
  dsimp only
  exact idles_registerAll _ _

/-- In a new environment nothing is shared. -/
theorem tied_start (config : Config) : Tied catalogs home {} (start config).environment := by
  have empty (block : Handle) (content : Content) :
      (Environment.new config).heap.get? block ≠ some content := fun found => by
    have inside := PoolSet.mem_contents found
    rw [show (Environment.new config).heap.blocks.contents = [] from
      PoolSet.contents_new config.pools] at inside
    cases inside
  have sound : (Environment.new config).heap.blocks.Sound := PoolSet.sound_new config.pools
  have spares := (idles_start config).spares
  have noCell (block : Handle) (value : Value) :
      (start config).environment.heap.cellGet? block ≠ some value := fun found =>
    empty block _ (Heap.cellGet?_eq_some.mp (spares.cellGet? sound found))
  have frames : (start config).environment.frames.toList = [] :=
    (sound_start config fun _ => id : (start config).Sound compiled).frames
  refine ⟨fun block value held => absurd held (noCell block value),
    fun one two value other held => absurd held (noCell one value),
    fun closure target cells held => absurd
      (spares.kept sound closure (.closure target cells) trivial held) (empty closure _), ?_, .nil⟩
  rw [frames]
  exact .nil

namespace Recorded

/-- A recorded session is one that is reached. -/
theorem reached (recorded : Recorded texts config session chronicle) :
    Relation.ReflTransGen Turn (Session.start config) session := by
  induction recorded with
  | start => exact .refl
  | run _ program gives runs steps result after ran ih =>
      exact .tail ih (.run program gives runs steps result after ran)
  | idle _ errand owned turn ih => exact .tail ih turn

/-- So it is sound and veiled. -/
theorem proper (recorded : Recorded texts config session chronicle) :
    session.Sound compiled ∧ session.Veiled :=
  proper_of_reached recorded.reached

theorem frames (recorded : Recorded texts config session chronicle) :
    session.environment.frames.toList = [] :=
  recorded.proper.1.frames

theorem coherent (recorded : Recorded texts config session chronicle) :
    session.environment.Coherent := by
  induction recorded with
  | start => exact (idles_start config).faithful.coherent (coherent_new config)
  | run before program gives runs steps result after ran ih =>
      rw [environment_of_run ran]
      exact (Becomes.forward steps ⟨_, .host program⟩).faithful.coherent ih
  | idle before errand owned turn ih => exact (errand.idles _).faithful.coherent ih

/-- Between two runs nothing is gathered. -/
theorem chronicled (recorded : Recorded texts config session chronicle)
    (tied : Tied catalogs home chronicle session.environment) :
    Chronicled catalogs home chronicle session.environment where
  tied := tied
  gathered frame listing running := by
    unfold running? at running
    rw [← Array.getLast?_toList, recorded.frames] at running
    cases running

/-- What the chronicle of a session tells is so. -/
theorem tied (recorded : Recorded texts config session chronicle)
    (explained : Explained texts catalogs session.environment.programs) :
    ∃ home, Tied catalogs home chronicle session.environment := by
  induction recorded with
  | start => exact ⟨fun _ => ⟨0, ""⟩, tied_start config⟩
  | run before program gives runs steps result after ran ih =>
      obtain rfl := environment_of_run ran
      have earlier := explained.fewer (Becomes.forward steps ⟨_, .host program⟩).faithful.programs
      obtain ⟨home, tied⟩ := ih earlier
      obtain ⟨⟨post, start⟩, veiled⟩ := runs.forward before.proper.1 before.proper.2 0
      obtain ⟨home', chronicled⟩ :=
        (before.chronicled tied).forward start veiled steps explained
      exact ⟨home', chronicled.tied⟩
  | @idle session chronicle before errand owned turn ih =>
      have idles := errand.idles session.environment
      obtain ⟨home, tied⟩ := ih (explained.fewer idles.faithful.programs)
      have none : (errand.apply session.environment).frames.toList = [] :=
        (before.idle errand owned turn).frames
      have chains : chronicle.chains = [] := by
        have frames := tied.frames
        rw [before.frames] at frames
        exact List.forall₂_nil_left_iff.mp frames
      have left := tied.lower before.proper.1.balanced.sound idles.spares
        (by rw [none]; exact List.nil_prefix) (by rw [none]; exact fun _ none => nomatch none)
      have same : chronicle.leave (errand.apply session.environment).frames.size = chronicle := by
        unfold Chronicle.leave
        rw [chains, List.take_nil, ← chains]
      exact ⟨home, same ▸ left⟩

/-- At every step of a run. -/
theorem lexical (recorded : Recorded texts config session chronicle)
    (runs : RunsCompiled session program gives) (steps : Nat)
    (explained : Explained texts catalogs
      ((⟨session.environment, .host program⟩ : Machine α).forward steps).environment.programs) :
    ∃ keeps, Lexical texts (chronicle.after texts ⟨session.environment, .host program⟩ steps)
        ((⟨session.environment, .host program⟩ : Machine α).forward steps).environment keeps ∧
      ((⟨session.environment, .host program⟩ : Machine α).forward steps).Complies texts
        (chronicle.after texts ⟨session.environment, .host program⟩ steps) keeps := by
  have faithful := (Becomes.forward steps (⟨session.environment, .host program⟩ : Machine α)).faithful
  obtain ⟨home, tied⟩ := recorded.tied (explained.fewer faithful.programs)
  obtain ⟨⟨post, start⟩, veiled⟩ := runs.forward recorded.proper.1 recorded.proper.2 0
  obtain ⟨home', chronicled⟩ :=
    (recorded.chronicled tied).forward start veiled steps explained
  exact chronicled.lexical (start.forward steps) trivial (veiled.forward start steps) explained
    (faithful.coherent recorded.coherent)

end Recorded

/-- **Variables are lexically scoped.** However far a host has come, and whatever it runs next of what
was compiled, at every step the loaded programs were compiled from some texts, and the session has a
chronicle for these. Then every variable that the chronicle knows of a function that runs or waits, and
every one that a closure shares, has a place of its own, which holds the value that was last stored in
the variable, no matter from where. What the instructions of these functions access is what the names
in the text denote, and so does the next instruction. -/
theorem lexically_scoped (reached : Relation.ReflTransGen Turn (start config) session)
    (runs : RunsCompiled session program gives) (steps : Nat) :
    (∃ texts, ((⟨session.environment, .host program⟩ : Machine α).forward
        steps).environment.CompiledFrom texts) ∧
      ∀ texts, ((⟨session.environment, .host program⟩ : Machine α).forward
        steps).environment.CompiledFrom texts →
          (∃ chronicle, Recorded texts config session chronicle) ∧
            ∀ chronicle, Recorded texts config session chronicle → ∃ keeps,
              Lexical texts (chronicle.after texts ⟨session.environment, .host program⟩ steps)
                  ((⟨session.environment, .host program⟩ : Machine α).forward
                    steps).environment keeps ∧
                ((⟨session.environment, .host program⟩ : Machine α).forward steps).Complies texts
                  (chronicle.after texts ⟨session.environment, .host program⟩ steps) keeps := by
  obtain ⟨sound, veiled⟩ := proper_of_reached reached
  obtain ⟨-, last⟩ := runs.forward sound veiled steps
  refine ⟨last.environment.compiledFrom, fun texts compiled => ⟨recorded_of_reached reached,
    fun chronicle recorded => ?_⟩⟩
  obtain ⟨catalogs, explained⟩ := compiled.explained
  exact recorded.lexical runs steps explained

/-- What the text of `closureProgram` says about variables. -/
def closureOutlines : List Outline :=
  [{ mentions := [.result, .result] }, { scopes := [["a"]], params := ["a"] },
    { scopes := [[], ["a"]], mentions := [.read "a"] }]

theorem outlines_closureText : (UnitTree.ofTokens ({} : CompileLimits).maxExprDepth
    (TokenStream.ofBytes closureText)).outlines = closureOutlines := by
  rw [TokenStream.ofBytes, @Lexer.tokensFrom_eq_within 33 _ _ _ (by cbv)]
  cbv

/-- A function is called that makes a closure. -/
def making (env : Environment) : Machine (Except Fault Value) :=
  ⟨env, .host (Host.run (.function ⟨0, 1⟩) [.boolean true]).run⟩

/-- The function has made a closure and is left. Its parameter is kept for the closure, in a cell. -/
theorem lexically_scoped_closure : ∃ session chronicle keeps,
    Relation.ReflTransGen Turn (start {}) session ∧
      Recorded (fun _ => closureOutlines) {} session chronicle ∧
        ((making session.environment).forward 12).result? = some (.ok (.closure ⟨0, 0, 1⟩)) ∧
          Lexical (fun _ => closureOutlines)
              (chronicle.after (fun _ => closureOutlines) (making session.environment) 12)
              ((making session.environment).forward 12).environment keeps ∧
            keeps ⟨1, "a"⟩ (.cell ⟨0, 0, 0⟩) ∧
              (chronicle.after (fun _ => closureOutlines) (making session.environment) 12).value
                ⟨1, "a"⟩ = .boolean true := by
  have all : ((start {}).environment.run 12 (Host.executeProgram closureProgram).run).map
      (fun ended =>
        let last := (making ended.2).forward 12
        let chronicle : Chronicle := (({} : Chronicle).after (fun _ => closureOutlines)
          ⟨(start {}).environment, .host (Host.executeProgram closureProgram).run⟩ 12).after
            (fun _ => closureOutlines) (making ended.2) 12
        (ended.1, last.result?, last.environment.programs, last.environment.heap.get? ⟨0, 0, 1⟩,
          chronicle.around ⟨0, 0, 1⟩, chronicle.value ⟨1, "a"⟩)) =
      some (.ok (.function ⟨0, 1⟩), some (.ok (.closure ⟨0, 0, 1⟩)), #[closureProgram],
        some (.closure ⟨0, 2⟩ #[.cell ⟨0, 0, 0⟩]), [1], .boolean true) := by cbv
  obtain ⟨⟨outcome, after⟩, ran, same⟩ := Option.map_eq_some_iff.mp all
  simp only [Prod.mk.injEq] at same
  obtain ⟨rfl, finished, programs, shares, around, kept⟩ := same
  have recorded : Recorded (fun _ => closureOutlines) {} ⟨after, [.function ⟨0, 1⟩]⟩ _ :=
    Recorded.start.run _ _ (.program _ _ _ _ compile_closureText) 12 _ _ ran
  have has : ∀ value ∈ [.function ⟨0, 1⟩, .boolean true], Has False [.function ⟨0, 1⟩] value := by
    intro value member
    rcases List.mem_cons.mp member with rfl | last
    · exact .inl List.mem_cons_self
    · rw [List.mem_singleton.mp last]
      exact .inr ⟨rfl, .inr fun _ impossible => by cases impossible⟩
  have compiled : ((making after).forward 12).environment.CompiledFrom fun _ => closureOutlines := by
    intro unit program loaded
    have member := Array.mem_of_getElem? loaded
    rw [programs, Array.mem_singleton] at member
    subst member
    exact ⟨_, _, _, compile_closureText, outlines_closureText.symm⟩
  obtain ⟨keeps, lexical, -⟩ :=
    ((lexically_scoped recorded.reached (.call _ _ has) 12).2 _ compiled).2 _ recorded
  have mentions : ((making after).forward 12).environment.Mentions (fun _ => closureOutlines) ⟨0, 2⟩
      closureProgram ⟨0, 0, 1, true, #[22, 0, 0, 56, 57]⟩ ⟨.loadUpvalue, 0, 0⟩ "a" := by
    refine ⟨by rw [programs]; rfl, rfl, [(0, ⟨.loadUpvalue, 0, 0⟩), (3, ⟨.ret, 0, 0⟩),
      (4, ⟨.retUndefined, 0, 0⟩)], 0, .read "a", by cbv, List.mem_cons_self, by cbv, rfl⟩
  have leads : ((making after).forward 12).environment.storage?
      ⟨0, closureProgram, 0, 0, some ⟨0, 0, 1⟩⟩ ⟨.loadUpvalue, 0, 0⟩ = some (.cell ⟨0, 0, 0⟩) := by
    have cell : ((making after).forward 12).environment.heap.closureCell? ⟨0, 0, 1⟩
        (0 : UInt16).toNat = some (.cell ⟨0, 0, 0⟩) := by
      unfold Heap.closureCell?
      rw [shares]
      rfl
    simp only [Environment.storage?, Option.bind_eq_bind, Option.bind_some, cell, Value.storage?]
  obtain ⟨location, denotes, at_⟩ :=
    lexical.closures _ _ _ shares _ _ _ _ _ mentions rfl leads 0
  have chain := congrArg (fun around => Location.of? "a" [[], ["a"]] (0 :: around)) around
  obtain rfl : .variable ⟨1, "a"⟩ = location := Option.some.inj (chain.symm.trans denotes)
  exact ⟨_, _, keeps, recorded.reached, recorded, finished, lexical, at_, kept⟩

end Session

end PocketScript
