import PocketScript.Proofs.Environment.Spared
import PocketScript.Proofs.Machine.Chronicle
import PocketScript.Proofs.Machine.Veiled

/-!
# Slots and cells as variables

What a chronicle knows of variables is tied to what lies in slots and cells (`Tied`): each cell is a
variable's, no two are the same variable's, and a cell holds what its variable has for its value. The slot of
a variable holds the value itself as long as there is no such cell, and otherwise the cell. What closures
have captured are the cells of the variables that the names of their captures denote.
-/

namespace PocketScript

open Environment

variable {catalogs : Nat → Catalog} {home home' : Handle → LocalVariable}
  {chronicle chronicle' : Chronicle} {env before after : Environment} {heap heap' : Heap}
  {frame : Frame} {chain : List Nat} {owner : LocalVariable} {value : Value} {block : Handle}
  {name : String}

/-! ## Frames and closures -/

/-- The names of the slots and captures of a function. -/
def FunctionRef.sheet (catalogs : Nat → Catalog) (target : FunctionRef) : Sheet :=
  (catalogs target.unit).sheet target.index.toNat

/-- The names that the function and those around it own. -/
def FunctionRef.scopes (catalogs : Nat → Catalog) (target : FunctionRef) : List (List String) :=
  ((catalogs target.unit).outline target.index.toNat).scopes

/-- The end of the slots of a frame's function on the stack. -/
def Frame.reach (catalogs : Nat → Catalog) (frame : Frame) : Nat :=
  frame.base + (frame.target.sheet catalogs).slots.length

/-- The frame, wherever its next instruction starts. -/
def Frame.still (frame : Frame) : Frame := { frame with pc := 0 }

/-- What lies in the slot of a variable: its value, as long as no cell is the variable's, or its
cell. -/
inductive LocalVariable.Lies (home : Handle → LocalVariable) (chronicle : Chronicle) (heap : Heap)
    (owner : LocalVariable) : Value → Prop
  | plain (value : Value) (visible : value.Visible) (same : value = chronicle.value owner)
      (alone : ∀ block held, heap.cellGet? block = some held → home block ≠ owner) :
      Lies home chronicle heap owner value
  | boxed (block : Handle) (same : home block = owner) : Lies home chronicle heap owner (.cell block)

/-- The frame belongs to the activation that comes first in a chain: its slots are the variables of this
activation. A closure that runs is the callee. -/
inductive Frame.Tied (catalogs : Nat → Catalog) (home : Handle → LocalVariable) (chronicle : Chronicle)
    (env : Environment) (frame : Frame) : List Nat → Prop
  | intro (activation : Nat) (begun : activation < chronicle.begun)
      (closure : ∀ closure, frame.closure = some closure → ∃ callee, frame.base = callee + 1 ∧
        env.stack[callee]? = some (.closure closure) ∧
          ∀ target cells, env.heap.get? closure = some (.closure target cells) →
            target = frame.target)
      (slots : ∀ (index : Nat) name, (frame.target.sheet catalogs).slots[index]? = some name →
        ∃ value, env.stack[frame.base + index]? = some value ∧
          LocalVariable.Lies home chronicle env.heap ⟨activation, name⟩ value) :
      Tied catalogs home chronicle env frame
        (activation :: frame.closure.elim [] chronicle.around)

/-- Slots and cells are variables of the chronicle. -/
structure Tied (catalogs : Nat → Catalog) (home : Handle → LocalVariable) (chronicle : Chronicle)
    (env : Environment) : Prop where
  cells : ∀ block value, env.heap.cellGet? block = some value →
    (home block).activation < chronicle.begun ∧ value = chronicle.value (home block)
  apart : ∀ one two value other, env.heap.cellGet? one = some value →
    env.heap.cellGet? two = some other → home one = home two → one = two
  captured : ∀ closure target cells, env.heap.get? closure = some (.closure target cells) →
    ∀ (index : Nat) name cell, (target.sheet catalogs).captures[index]? = some (some name) →
      cells[index]? = some (.cell cell) →
        Location.of? name (target.scopes catalogs).tail (chronicle.around closure) =
          some (.variable (home cell))
  frames : List.Forall₂ (Frame.Tied catalogs home chronicle env) env.frames.toList
    chronicle.chains
  distinct : chronicle.chains.Pairwise fun one two => one.head? ≠ two.head?

/-- What refers to cells and closures leads to some. -/
structure Environment.Live (env : Environment) : Prop where
  cell : ∀ (place : Nat) block, env.stack[place]? = some (.cell block) →
    ∃ value, env.heap.cellGet? block = some value
  closure : ∀ (place : Nat) block, env.stack[place]? = some (.closure block) →
    ∃ target cells, env.heap.get? block = some (.closure target cells)
  captured : ∀ closure target cells, env.heap.get? closure = some (.closure target cells) →
    ∀ (index : Nat) cell, cells[index]? = some (.cell cell) →
      ∃ value, env.heap.cellGet? cell = some value

theorem Heap.cellGet?_eq_some : heap.cellGet? block = some value ↔ heap.get? block = some (.cell value) := by
  unfold Heap.cellGet?
  constructor
  · intro found
    split at found
    · rename_i there
      cases found
      exact there
    · cases found
  · intro found
    rw [found]

/-- What is not what has been written was there before. -/
theorem Heap.Writes.older {written content : Content} {other : Handle}
    (writes : Heap.Writes block written heap heap') (found : heap'.get? other = some content)
    (differs : content ≠ written) : heap.get? other = some content := by
  have kept := writes.kept other content found
  split at kept
  · exact absurd kept differs
  · exact kept

theorem Environment.Holds.live {terms : Terms} {frames : List Frame} {values : List Value}
    {references : List Reference} (holds : env.Holds terms frames values references)
    (counted : Counted references values) : env.Live where
  cell place block there := by
    rw [← Array.getElem?_toList, holds.stack] at there
    exact holds.cell counted there
  closure place block there := by
    rw [← Array.getElem?_toList, holds.stack] at there
    exact holds.closure counted there
  captured closure target cells found index cell there :=
    (holds.balanced.knowsHeld found (List.mem_reverse.mpr
      (Array.mem_toList_iff.mpr (Array.mem_of_getElem? there)))).boxed

/-! ## What names denote -/

namespace Location

variable {own : List String} {scopes : List (List String)} {activation : Nat}

theorem of?_own (there : name ∈ own) :
    of? name (own :: scopes) (activation :: chain) = some (.variable ⟨activation, name⟩) :=
  if_pos there

theorem of?_around (other : name ∉ own) :
    of? name (own :: scopes) (activation :: chain) = of? name scopes chain :=
  if_neg other

theorem of?_global (none : ∀ own ∈ scopes, name ∉ own) :
    of? name scopes chain = some (.global name) := by
  induction scopes generalizing chain with
  | nil => rfl
  | cons own around ih =>
      obtain ⟨here, others⟩ := List.forall_mem_cons.mp none
      rw [of?, if_neg here]
      exact ih others

end Location

/-! ## Parts of the stack that stay -/

/-- A slot stays as it is when its variable keeps its value, and gets no cell. -/
theorem LocalVariable.Lies.mono (lies : owner.Lies home chronicle heap value)
    (same : chronicle'.value owner = chronicle.value owner)
    (fewer : ∀ block held, heap'.cellGet? block = some held → home' block = owner →
      ∃ other held, heap.cellGet? other = some held ∧ home other = owner)
    (boxes : ∀ block, value = .cell block → home' block = home block) :
    owner.Lies home' chronicle' heap' value := by
  cases lies with
  | plain value visible is alone =>
      refine .plain value visible (is.trans same.symm) fun block held found home => ?_
      obtain ⟨other, held, there, its⟩ := fewer block held found home
      exact alone other held there its
  | boxed block is => exact .boxed block ((boxes block rfl).trans is)

/-- Wherever the next instruction of the frame starts. -/
theorem Frame.Tied.moved (tied : frame.Tied catalogs home chronicle env chain) (pc : Nat) :
    ({ frame with pc } : Frame).Tied catalogs home chronicle env chain := by
  obtain ⟨activation, begun, closure, slots⟩ := tied
  exact .intro activation begun closure slots

/-- A frame is tied as before when nothing below its operands changes, nor what is known of the closure
that it runs and of its variables. -/
theorem Frame.Tied.mono (tied : frame.Tied catalogs home chronicle before chain)
    (begun : chronicle.begun ≤ chronicle'.begun)
    (stack : ∀ place < frame.reach catalogs, after.stack[place]? = before.stack[place]?)
    (closures : ∀ (place : Nat) closure, before.stack[place]? = some (.closure closure) →
      chronicle'.around closure = chronicle.around closure ∧
        ∀ target cells, after.heap.get? closure = some (.closure target cells) →
          before.heap.get? closure = some (.closure target cells))
    (lies : ∀ activation name (place : Nat) value, chain.head? = some activation →
      before.stack[place]? = some value →
        LocalVariable.Lies home chronicle before.heap ⟨activation, name⟩ value →
          LocalVariable.Lies home' chronicle' after.heap ⟨activation, name⟩ value) :
    frame.Tied catalogs home' chronicle' after chain := by
  obtain ⟨activation, started, closure, slots⟩ := tied
  have around : frame.closure.elim [] chronicle.around = frame.closure.elim [] chronicle'.around := by
    cases runs : frame.closure with
    | none => rfl
    | some block =>
        obtain ⟨callee, -, there, -⟩ := closure block runs
        exact (closures callee block there).1.symm
  rw [around]
  refine .intro activation (Nat.lt_of_lt_of_le started begun) (fun block runs => ?_)
    fun index name named => ?_
  · obtain ⟨callee, base, there, is⟩ := closure block runs
    refine ⟨callee, base, ?_, fun target cells found =>
      is target cells ((closures callee block there).2 target cells found)⟩
    rw [stack callee (by unfold Frame.reach; omega), there]
  · obtain ⟨value, there, lays⟩ := slots index name named
    obtain ⟨inside, -⟩ := List.getElem?_eq_some_iff.mp named
    refine ⟨value, ?_, lies activation name _ value rfl there lays⟩
    rw [stack _ (Nat.add_lt_add_left inside _), there]

/-- Frames are left, and the topmost one may go on. -/
theorem forall₂_left {ties ties' : Frame → List Nat → Prop} {frames frames' : List Frame}
    {chains : List (List Nat)} (tied : List.Forall₂ ties frames chains)
    (left : frames'.map Frame.still <+: frames.map Frame.still)
    (moved : ∀ frame chain pc, ties frame chain → ties { frame with pc } chain)
    (each : ∀ frame ∈ frames', ∀ chain, ties frame chain → ties' frame chain) :
    List.Forall₂ ties' frames' (chains.take frames'.length) := by
  induction frames' generalizing frames chains with
  | nil => exact .nil
  | cons frame' rest ih =>
      cases tied with
      | nil => simp at left
      | cons here others =>
          rename_i frame chain frames chains
          obtain ⟨same, left⟩ := List.cons_prefix_cons.mp left
          obtain ⟨first, more⟩ := List.forall_mem_cons.mp each
          refine .cons (first _ ?_) (ih others left more)
          have again := moved _ _ frame'.pc here
          have is : ({ frame with pc := frame'.pc } : Frame) = frame' := by
            obtain ⟨unit, index, pc, base, closure⟩ := frame
            obtain ⟨unit', index', pc', base', closure'⟩ := frame'
            cases same
            rfl
          rwa [is] at again

namespace Tied

theorem length_chains (tied : Tied catalogs home chronicle env) :
    chronicle.chains.length = env.frames.size := by
  rw [← tied.frames.length_eq, Array.length_toList]

/-- Something happens above the slots of the frames that are left, and it leaves cells and closures
alone. -/
theorem lower (tied : Tied catalogs home chronicle before)
    (sound : before.heap.blocks.Sound) (spares : Spares before after)
    (left : after.frames.toList.map Frame.still <+: before.frames.toList.map Frame.still)
    (stack : ∀ frame ∈ after.frames.toList, ∀ place < frame.reach catalogs,
      after.stack[place]? = before.stack[place]?) :
    Tied catalogs home (chronicle.leave after.frames.size) after where
  cells block value found := tied.cells block value (spares.cellGet? sound found)
  apart one two value other here there :=
    tied.apart one two value other (spares.cellGet? sound here) (spares.cellGet? sound there)
  captured closure target cells found :=
    tied.captured closure target cells (spares.kept sound _ _ trivial found)
  frames := by
    rw [← Array.length_toList]
    refine forall₂_left tied.frames left (fun frame chain pc there => there.moved pc)
      fun frame member chain there => ?_
    refine there.mono (Nat.le_refl _) (stack frame member)
      (fun place closure _ => ⟨rfl, fun target cells => spares.kept sound _ _ trivial⟩)
      fun activation name place value _ _ lies => lies.mono rfl (fun block held found is => ?_)
        fun _ _ => rfl
    exact ⟨block, held, spares.cellGet? sound found, is⟩
  distinct := tied.distinct.sublist (List.take_sublist _ _)

/-- The topmost frame belongs to the current activation, which is no other frame's. -/
theorem top {lower : List Frame} (tied : Tied catalogs home chronicle env)
    (frames : env.frames.toList = lower ++ [frame]) :
    ∃ chains activation, chronicle.chains =
        chains ++ [activation :: frame.closure.elim [] chronicle.around] ∧
      chronicle.current = activation :: frame.closure.elim [] chronicle.around ∧
        List.Forall₂ (Frame.Tied catalogs home chronicle env) lower chains ∧
          frame.Tied catalogs home chronicle env chronicle.current ∧
            ∀ chain ∈ chains, chain.head? ≠ some activation := by
  have all := tied.frames
  rw [frames] at all
  have below := List.forall₂_take_append _ _ _ all.flip
  have above := List.forall₂_drop_append _ _ _ all.flip
  generalize parted : chronicle.chains.drop lower.length = rest at above
  have split := List.take_append_drop lower.length chronicle.chains
  rw [parted] at split
  generalize chronicle.chains.take lower.length = chains at below split
  cases above with
  | cons here none =>
      rename_i chain _
      cases none
      have current : chronicle.current = chain := by
        rw [Chronicle.current, ← split, List.getLastD_concat]
      have apart := tied.distinct
      rw [← split] at apart
      have distinct := (List.pairwise_append.mp apart).2.2
      have tie : frame.Tied catalogs home chronicle env chain := here
      obtain ⟨activation, begun, closure, slots⟩ := tie
      exact ⟨chains, activation, split.symm, current, below.flip, current ▸ here,
        fun other member => distinct other member _ List.mem_cons_self⟩

/-! ## Functions that are entered -/

theorem visible_lookup {params : List String} {args : List Value}
    (shown : ∀ value ∈ args, value.Visible) (name : String) :
    (((params.zip args).lookup name).getD .undefined).Visible := by
  cases found : (params.zip args).lookup name with
  | none => rfl
  | some value =>
      obtain ⟨before, behind, same, -⟩ := List.lookup_eq_some_iff.mp found
      have pair : (name, value) ∈ params.zip args :=
        same ▸ List.mem_append_right _ List.mem_cons_self
      exact shown value (List.of_mem_zip pair).2

/-- The slots of a function that is entered are variables of its own. -/
theorem enter {target : FunctionRef} {closure : Option Handle} {callee : Nat}
    {params : List String} {args : List Value} (tied : Tied catalogs home chronicle before)
    (sound : before.heap.blocks.Sound) (spares : Spares before after)
    (frames : after.frames = before.frames.push (entered target closure callee))
    (stack : ∀ place ≤ callee, after.stack[place]? = before.stack[place]?)
    (low : ∀ frame ∈ before.frames.toList, frame.reach catalogs ≤ callee)
    (runs : ∀ block, closure = some block → before.stack[callee]? = some (.closure block) ∧
      ∀ other cells, before.heap.get? block = some (.closure other cells) → other = target)
    (shown : ∀ value ∈ args, value.Visible)
    (slots : ∀ (index : Nat) name, (target.sheet catalogs).slots[index]? = some name →
      after.stack[callee + 1 + index]? = some (((params.zip args).lookup name).getD .undefined)) :
    Tied catalogs home (chronicle.enter closure params args) after := by
  have older {owner : LocalVariable} (old : owner.activation < chronicle.begun) :
      (chronicle.enter closure params args).value owner = chronicle.value owner :=
    if_neg (Nat.ne_of_lt old)
  have started : ∀ chain ∈ chronicle.chains, ∃ activation, chain.head? = some activation ∧
      activation < chronicle.begun := by
    intro chain member
    obtain ⟨index, inside, rfl⟩ := List.mem_iff_getElem.mp member
    have tie := (List.forall₂_iff_get.mp tied.frames).2 index
      (tied.frames.length_eq.symm ▸ inside) inside
    simp only [List.get_eq_getElem] at tie
    generalize chronicle.chains[index] = chain at tie
    obtain ⟨activation, begun, -, -⟩ := tie
    exact ⟨activation, rfl, begun⟩
  refine ⟨fun block value found => ?_, fun one two value other here there =>
    tied.apart one two value other (spares.cellGet? sound here) (spares.cellGet? sound there),
    fun block other cells found =>
      tied.captured block other cells (spares.kept sound _ _ trivial found), ?_, ?_⟩
  · obtain ⟨old, same⟩ := tied.cells block value (spares.cellGet? sound found)
    exact ⟨Nat.lt_succ_of_lt old, same.trans (older old).symm⟩
  · rw [frames, Array.toList_push]
    refine List.rel_append (List.forall₂_iff_get.mpr ⟨tied.frames.length_eq, fun index here there => ?_⟩)
      (.cons (.intro chronicle.begun (Nat.lt_succ_self _) (fun block same => ?_)
        fun index name named => ?_) .nil)
    · have tie := (List.forall₂_iff_get.mp tied.frames).2 index here there
      have first := started _ (List.get_mem _ ⟨index, there⟩)
      have reach := low _ (List.get_mem _ ⟨index, here⟩)
      refine tie.mono (Nat.le_succ _) (fun place below => stack place (by omega))
        (fun place closure _ => ⟨rfl, fun target cells => spares.kept sound _ _ trivial⟩)
        fun activation name place value head _ lies => lies.mono (older ?_)
          (fun block held found is => ⟨block, held, spares.cellGet? sound found, is⟩) fun _ _ => rfl
      obtain ⟨other, same, begun⟩ := first
      cases head.symm.trans same
      exact begun
    · obtain ⟨there, is⟩ := runs block same
      refine ⟨callee, rfl, (stack callee (Nat.le_refl _)).trans there, fun other cells found => ?_⟩
      exact is other cells (spares.kept sound _ _ trivial found)
    · refine ⟨_, slots index name named, .plain _ (visible_lookup shown name) ?_
        fun block held found is => ?_⟩
      · exact (if_pos rfl).symm
      · obtain ⟨old, -⟩ := tied.cells block held (spares.cellGet? sound found)
        rw [is] at old
        exact absurd old (Nat.lt_irrefl _)
  · refine List.pairwise_append.mpr ⟨tied.distinct, List.pairwise_singleton _ _, ?_⟩
    intro chain member last same heads
    rw [List.mem_singleton.mp same] at heads
    obtain ⟨activation, head, begun⟩ := started chain member
    cases head.symm.trans heads
    exact Nat.lt_irrefl _ begun

/-! ## Stores -/

/-- A variable that has a cell is given another value. -/
theorem write {old : Value} (tied : Tied catalogs home chronicle before)
    (there : before.heap.cellGet? block = some old)
    (writes : Heap.Writes block (.cell value) before.heap after.heap)
    (left : after.frames.toList.map Frame.still <+: before.frames.toList.map Frame.still)
    (stack : ∀ frame ∈ after.frames.toList, ∀ place < frame.reach catalogs,
      after.stack[place]? = before.stack[place]?) :
    Tied catalogs home
      ((chronicle.write (some (.variable (home block))) value).leave after.frames.size) after := by
  have live {other : Handle} {held : Value} (found : after.heap.cellGet? other = some held) :
      ∃ held, before.heap.cellGet? other = some held := by
    have kept := writes.kept other _ (Heap.cellGet?_eq_some.mp found)
    split at kept
    · rename_i same
      exact ⟨old, same ▸ there⟩
    · exact ⟨held, Heap.cellGet?_eq_some.mpr kept⟩
  have closures {other : Handle} {target : FunctionRef} {cells : Array Value}
      (found : after.heap.get? other = some (.closure target cells)) :
      before.heap.get? other = some (.closure target cells) := writes.older found (by simp)
  refine ⟨fun other held found => ?_, fun one two one' two' here there => ?_,
    fun closure target cells found => tied.captured closure target cells (closures found), ?_,
    tied.distinct.sublist (List.take_sublist _ _)⟩
  · have kept := writes.kept other _ (Heap.cellGet?_eq_some.mp found)
    by_cases same : other = block
    · rw [if_pos same] at kept
      cases kept
      subst same
      refine ⟨(tied.cells other old there).1, ?_⟩
      exact (Function.update_self (home other) value chronicle.value).symm
    · rw [if_neg same] at kept
      have found := Heap.cellGet?_eq_some.mpr kept
      obtain ⟨begun, is⟩ := tied.cells other held found
      refine ⟨begun, is.trans (Function.update_of_ne (fun homes => ?_) _ _).symm⟩
      exact same (tied.apart other block held old found there homes)
  · obtain ⟨one', here⟩ := live here
    obtain ⟨two', there⟩ := live there
    exact tied.apart one two one' two' here there
  · rw [← Array.length_toList]
    refine forall₂_left tied.frames left (fun frame chain pc tie => tie.moved pc)
      fun frame member chain tie => ?_
    refine tie.mono (Nat.le_refl _) (stack frame member)
      (fun place closure _ => ⟨rfl, fun target cells => closures⟩)
      fun activation name place held _ _ lies => ?_
    cases lies with
    | boxed other is => exact .boxed other is
    | plain held visible is alone =>
        refine .plain held visible (is.trans (Function.update_of_ne ?_ _ _).symm)
          fun other held found => ?_
        · exact fun same => alone block old there same.symm
        · obtain ⟨held, found⟩ := live found
          exact alone other held found

/-- A closure is made, and what it captures are the variables that its names denote. -/
theorem create {target : FunctionRef} {cells : Array Value}
    (tied : Tied catalogs home chronicle before) (live : before.Live)
    (fresh : before.heap.get? block = none)
    (writes : Heap.Writes block (.closure target cells) before.heap after.heap)
    (captures : ∀ (index : Nat) name cell, (target.sheet catalogs).captures[index]? = some (some name) →
      cells[index]? = some (.cell cell) →
        Location.of? name (target.scopes catalogs).tail chronicle.current =
          some (.variable (home cell)))
    (left : after.frames.toList.map Frame.still <+: before.frames.toList.map Frame.still)
    (stack : ∀ frame ∈ after.frames.toList, ∀ place < frame.reach catalogs,
      after.stack[place]? = before.stack[place]?) :
    Tied catalogs home ((chronicle.create block).leave after.frames.size) after := by
  have cells' {other : Handle} {held : Value} (found : after.heap.cellGet? other = some held) :
      before.heap.cellGet? other = some held :=
    Heap.cellGet?_eq_some.mpr (writes.older (Heap.cellGet?_eq_some.mp found) (by simp))
  have older {other : Handle} {content : Content} (found : before.heap.get? other = some content) :
      (chronicle.create block).around other = chronicle.around other := by
    refine Function.update_of_ne ?_ _ _
    rintro rfl
    cases fresh.symm.trans found
  refine ⟨fun other held found => tied.cells other held (cells' found),
    fun one two one' two' here there => tied.apart one two one' two' (cells' here) (cells' there),
    fun closure other captured found => ?_, ?_, tied.distinct.sublist (List.take_sublist _ _)⟩
  · have kept := writes.kept closure _ found
    by_cases same : closure = block
    · rw [if_pos same] at kept
      cases kept
      subst same
      have around : (chronicle.create closure).around closure = chronicle.current :=
        Function.update_self _ _ _
      intro index name cell named there
      change Location.of? name _ ((chronicle.create closure).around closure) = _
      rw [around]
      exact captures index name cell named there
    · rw [if_neg same] at kept
      intro index name cell named there
      change Location.of? name _ ((chronicle.create block).around closure) = _
      rw [older kept]
      exact tied.captured closure other captured kept index name cell named there
  · rw [← Array.length_toList]
    refine forall₂_left tied.frames left (fun frame chain pc tie => tie.moved pc)
      fun frame member chain tie => ?_
    refine tie.mono (Nat.le_refl _) (stack frame member)
      (fun place closure there => ?_) fun activation name place held _ _ lies => lies.mono rfl
        (fun other held found is => ⟨other, held, cells' found, is⟩) fun _ _ => rfl
    obtain ⟨other, captured, found⟩ := live.closure place closure there
    refine ⟨older found, fun target cells found' => ?_⟩
    have kept := writes.kept closure _ found'
    split at kept
    · rename_i same
      subst same
      cases fresh.symm.trans found
    · exact kept

section

variable {lower : List Frame} {activation index : Nat}
  (frames : before.frames.toList = lower ++ [frame])
  (current : chronicle.current.head? = some activation)
  (low : ∀ frame' ∈ lower, frame'.reach catalogs ≤ frame.base)
  (named : (frame.target.sheet catalogs).slots[index]? = some name)
  (once : (frame.target.sheet catalogs).slots.Nodup)
  (elsewhere : ∀ place, place ≠ frame.base + index → after.stack[place]? = before.stack[place]?)
  (here : after.stack[frame.base + index]? = some value)

include frames current low named once elsewhere here

/-- Of all slots on the stack only that of one variable of the topmost frame changes. -/
theorem forall₂_slot {pc : Nat} (tied : Tied catalogs home chronicle before)
    (going : after.frames.toList = lower ++ [{ frame with pc }])
    (begun : chronicle.begun ≤ chronicle'.begun) (around : chronicle'.around = chronicle.around)
    (closures : ∀ closure target cells, after.heap.get? closure = some (.closure target cells) →
      before.heap.get? closure = some (.closure target cells))
    (lies : LocalVariable.Lies home' chronicle' after.heap ⟨activation, name⟩ value)
    (others : ∀ owner (place : Nat) held, owner ≠ ⟨activation, name⟩ →
      before.stack[place]? = some held → LocalVariable.Lies home chronicle before.heap owner held →
        LocalVariable.Lies home' chronicle' after.heap owner held) :
    List.Forall₂ (Frame.Tied catalogs home' chronicle' after) after.frames.toList chronicle.chains := by
  obtain ⟨chains, own, split, is, below, tie, distinct⟩ := tied.top frames
  rw [is] at current tie
  cases current
  have same {other : Nat} {name' : String} (differs : other ≠ activation) :
      (⟨other, name'⟩ : LocalVariable) ≠ ⟨activation, name⟩ := fun same =>
    differs (congrArg LocalVariable.activation same)
  rw [going, split]
  refine List.rel_append (List.forall₂_iff_get.mpr ⟨below.length_eq, fun position inside there => ?_⟩)
    (.cons ?_ .nil)
  · have tie := (List.forall₂_iff_get.mp below).2 position inside there
    have reach := low _ (List.get_mem _ ⟨position, inside⟩)
    have head := distinct _ (List.get_mem _ ⟨position, there⟩)
    refine tie.mono begun (fun place below => elsewhere place (by omega))
      (fun place closure _ => ⟨congrFun around closure, closures closure⟩)
      fun other name' place held first at_ lies => others _ place held (same ?_) at_ lies
    rintro rfl
    exact head first
  · have again := tie.moved pc
    obtain ⟨_, started, closure, slots⟩ := tie
    rw [← around]
    refine .intro activation (Nat.lt_of_lt_of_le started begun) (fun block runs => ?_)
      fun index' name' named' => ?_
    · obtain ⟨callee, base, there, target⟩ := closure block runs
      refine ⟨callee, base, (elsewhere callee (by omega)).trans there, fun other cells found => ?_⟩
      exact target other cells (closures _ _ _ found)
    · by_cases position : index' = index
      · subst position
        cases named.symm.trans named'
        exact ⟨value, here, lies⟩
      · obtain ⟨held, there, lies⟩ := slots index' name' named'
        change ∃ value, after.stack[frame.base + index']? = some value ∧ _
        rw [elsewhere _ (by omega)]
        refine ⟨held, there, others _ _ held (fun same => position ?_) there lies⟩
        cases same
        obtain ⟨inside, is'⟩ := List.getElem?_eq_some_iff.mp named
        obtain ⟨inside', is⟩ := List.getElem?_eq_some_iff.mp named'
        exact (once.getElem_inj_iff).mp (is.trans is'.symm)

/-- A variable without a cell is given another value. -/
theorem store {pc : Nat} {old : Value} (tied : Tied catalogs home chronicle before)
    (going : after.frames.toList = lower ++ [{ frame with pc }])
    (sound : before.heap.blocks.Sound) (spares : Spares before after)
    (there : before.stack[frame.base + index]? = some old) (plain : old.Visible)
    (visible : value.Visible) :
    Tied catalogs home (chronicle.write (some (.variable ⟨activation, name⟩)) value) after := by
  -- The variable has no cell, for otherwise its cell would lie in the slot.
  have alone : ∀ block held, before.heap.cellGet? block = some held →
      home block ≠ ⟨activation, name⟩ := by
    obtain ⟨chains, own, -, is, -, tie, -⟩ := tied.top frames
    rw [is] at current tie
    cases current
    obtain ⟨_, -, -, slots⟩ := tie
    obtain ⟨held, at_, lies⟩ := slots index name named
    cases there.symm.trans at_
    cases lies with
    | plain _ _ _ alone => exact alone
    | boxed block => cases plain
  refine ⟨fun block held found => ?_, fun one two one' two' here there =>
    tied.apart one two one' two' (spares.cellGet? sound here) (spares.cellGet? sound there),
    fun closure target cells found =>
      tied.captured closure target cells (spares.kept sound _ _ trivial found), ?_, tied.distinct⟩
  · have found := spares.cellGet? sound found
    obtain ⟨begun, is⟩ := tied.cells block held found
    exact ⟨begun, is.trans (Function.update_of_ne (alone block held found) _ _).symm⟩
  · have value' : (chronicle.write (some (.variable ⟨activation, name⟩)) value).value =
        Function.update chronicle.value ⟨activation, name⟩ value := rfl
    have all : List.Forall₂ (Frame.Tied catalogs home
        (chronicle.write (some (.variable ⟨activation, name⟩)) value) after) after.frames.toList
          chronicle.chains :=
      forall₂_slot frames current low named once elsewhere here tied going (Nat.le_refl _) rfl
        (fun closure target cells => spares.kept sound _ _ trivial)
        (.plain value visible (by rw [value', Function.update_self]) fun block held found =>
          alone block held (spares.cellGet? sound found))
        fun owner place held other _ lies => lies.mono (by rw [value', Function.update_of_ne other])
          (fun block held found is => ⟨block, held, spares.cellGet? sound found, is⟩) fun _ _ => rfl
    exact all

/-- A variable without a cell is given one, with the value that it has. -/
theorem box {pc : Nat} {old : Value} (tied : Tied catalogs home chronicle before) (live : before.Live)
    (going : after.frames.toList = lower ++ [{ frame with pc }])
    (fresh : before.heap.get? block = none)
    (writes : Heap.Writes block (.cell old) before.heap after.heap)
    (there : before.stack[frame.base + index]? = some old) (plain : old.Visible)
    (boxed : value = .cell block) :
    Tied catalogs (Function.update home block ⟨activation, name⟩) chronicle after := by
  subst boxed
  obtain ⟨started, is, alone⟩ : activation < chronicle.begun ∧
      old = chronicle.value ⟨activation, name⟩ ∧ ∀ block held,
        before.heap.cellGet? block = some held → home block ≠ ⟨activation, name⟩ := by
    obtain ⟨chains, own, -, is, -, tie, -⟩ := tied.top frames
    rw [is] at current tie
    cases current
    obtain ⟨_, started, -, slots⟩ := tie
    obtain ⟨held, at_, lies⟩ := slots index name named
    cases there.symm.trans at_
    cases lies with
    | plain _ _ is alone => exact ⟨started, is, alone⟩
    | boxed block => cases plain
  -- Whatever else there is was there before, and is still the cell of the same variable.
  have older {other : Handle} {content : Content} (found : before.heap.get? other = some content) :
      Function.update home block ⟨activation, name⟩ other = home other := by
    refine Function.update_of_ne ?_ _ _
    rintro rfl
    cases fresh.symm.trans found
  have cells {other : Handle} {held : Value} (found : after.heap.cellGet? other = some held) :
      (other = block ∧ held = old) ∨
        other ≠ block ∧ before.heap.cellGet? other = some held ∧
          Function.update home block ⟨activation, name⟩ other = home other := by
    have kept := writes.kept other _ (Heap.cellGet?_eq_some.mp found)
    split at kept
    · rename_i same
      cases kept
      exact .inl ⟨same, rfl⟩
    · exact .inr ⟨‹_›, Heap.cellGet?_eq_some.mpr kept, older kept⟩
  have closures {other : Handle} {target : FunctionRef} {captured : Array Value}
      (found : after.heap.get? other = some (.closure target captured)) :
      before.heap.get? other = some (.closure target captured) := writes.older found (by simp)
  have own : Function.update home block ⟨activation, name⟩ block = ⟨activation, name⟩ :=
    Function.update_self _ _ _
  refine ⟨fun other held found => ?_, fun one two one' two' first second homes => ?_,
    fun closure target captured found index name cell named there => ?_, ?_, tied.distinct⟩
  · obtain ⟨rfl, rfl⟩ | ⟨-, found, same⟩ := cells found
    · rw [own]
      exact ⟨started, is⟩
    · rw [same]
      exact tied.cells other held found
  · obtain ⟨rfl, -⟩ | ⟨-, first, one⟩ := cells first <;>
      obtain ⟨rfl, -⟩ | ⟨-, second, two⟩ := cells second
    · rfl
    · rw [own, two] at homes
      exact absurd homes.symm (alone _ _ second)
    · rw [own, one] at homes
      exact absurd homes (alone _ _ first)
    · rw [one, two] at homes
      exact tied.apart _ _ _ _ first second homes
  · have found := closures found
    obtain ⟨held, is⟩ := live.captured closure target captured found index cell there
    rw [older (Heap.cellGet?_eq_some.mp is)]
    exact tied.captured closure target captured found index name cell named there
  · refine forall₂_slot frames current low named once elsewhere here tied going (Nat.le_refl _) rfl
      (fun closure target captured => closures) (.boxed block own)
      fun owner place held other at_ lies => lies.mono rfl (fun one held found home' => ?_)
        fun other same => ?_
    · obtain ⟨rfl, -⟩ | ⟨-, found, same⟩ := cells found
      · rw [own] at home'
        exact absurd home'.symm other
      · exact ⟨one, held, found, same ▸ home'⟩
    · subst same
      obtain ⟨value, found⟩ := live.cell place other at_
      exact older (Heap.cellGet?_eq_some.mp found)

end

end Tied

end PocketScript
