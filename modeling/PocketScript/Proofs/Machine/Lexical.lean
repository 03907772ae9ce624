import PocketScript.Proofs.Environment.Storage
import PocketScript.Proofs.Machine.Chronicled
import PocketScript.Proofs.Machine.Faults

/-!
# Variables have places of their own

In a machine that keeps to its chronicle, each variable of a function that runs or waits, and each one
that a closure shares, is kept in one place, which no other variable has: in its cell, or in its slot as
long as there is no cell (`Keeps`). The place holds the variable's value, and the names in the text of a
function lead to the places of what they denote, by whichever instruction it is (`Tied.lexical`). So the
next instruction reads and writes what the text says (`Machine.Sound.complies`).
-/

namespace PocketScript

open Environment Environment.Ground

/-! ## What names lead to -/

/-- The name of the variable that is mentioned. -/
def Mention.name? : Mention → Option String
  | .read name | .write name | .declare name => some name
  | .result => none

/-- What a name denotes is kept there. -/
def Location.At (keeps : LocalVariable → Storage → Prop) : Location → Storage → Prop
  | .variable owner, storage => keeps owner storage
  | .global name, storage => storage = .global name

/-- What the text says about a function. -/
def FunctionRef.outline (texts : Nat → List Outline) (target : FunctionRef) : Outline :=
  (texts target.unit)[target.index.toNat]?.getD {}

/-- In the code of a function the instruction stands for a mention of the name. -/
structure Environment.Mentions (texts : Nat → List Outline) (env : Environment)
    (target : FunctionRef) (program : Program) (function : FunctionDef) (instr : Instruction)
    (name : String) : Prop where
  loaded : env.programs[target.unit]? = some program
  found : program.function? target.index = some function
  coded : ∃ (listing : Listing) (pc : Nat) (mention : Mention),
    function.code.disassemble = .ok listing ∧ (pc, instr) ∈ listing ∧
      listing.mention? (target.outline texts).mentions pc = some mention ∧ mention.name? = some name

/-- Variables have places of their own, which hold their values, and what names denote is found there. -/
structure Lexical (texts : Nat → List Outline) (chronicle : Chronicle) (env : Environment)
    (keeps : LocalVariable → Storage → Prop) : Prop where
  /-- A variable is kept in one place. -/
  single : ∀ owner storage other, keeps owner storage → keeps owner other → storage = other
  /-- No two variables share a place. -/
  apart : ∀ owner other storage, keeps owner storage → keeps other storage → owner = other
  value : ∀ owner storage, keeps owner storage →
    env.stored? storage = some (chronicle.value owner)
  /-- A function that runs or waits has all its variables, and its instructions access what their names
  denote. -/
  frames : ∀ (position : Nat) frame, env.frames[position]? = some frame →
    ∃ activation around, chronicle.chains[position]? = some (activation :: around) ∧
      (∀ name ∈ (frame.outline texts).scopes.headD [], ∃ storage, keeps ⟨activation, name⟩ storage) ∧
      ∀ program function instr name storage,
        env.Mentions texts frame.target program function instr name →
          env.storage? (activationOf frame function program) instr = some storage →
            ∃ location, Location.of? name (frame.outline texts).scopes (activation :: around) =
              some location ∧ location.At keeps storage
  /-- The cells of a closure are those of the variables around where it was made, whichever activation
  of its function uses them. -/
  closures : ∀ closure target cells,
    env.heap.get? closure = some (.closure target cells) →
      ∀ program function instr name storage,
        env.Mentions texts target program function instr name →
          instr.op.refersToUpvalue = true →
            env.storage? ⟨target.unit, program, 0, 0, some closure⟩ instr =
              some storage →
              ∀ activation, ∃ location, Location.of? name (target.outline texts).scopes
                (activation :: chronicle.around closure) = some location ∧ location.At keeps storage

variable {α : Type} {texts : Nat → List Outline} {catalogs : Nat → Catalog}
  {home : Handle → LocalVariable} {chronicle : Chronicle} {terms : Terms}
  {keep : α → List Reference → Prop} {programs : Array Program} {config : Config}
  {env after : Environment} {callers : Callers α}
  {frames : List Frame} {frame other : Frame} {lower locals operands values : List Value}
  {callee value : Value}
  {references : List Reference} {keeps : Reference} {function : FunctionDef} {listing : Listing}
  {level cells : Nat → Nat} {program : Program} {instr : Instruction} {name : String}
  {post : α → Prop} {block : Handle} {chain : List Nat} {owner variable_ : LocalVariable}
  {storage : Storage} {height position place : Nat}

/-! ## Places of variables -/

/-- A variable is kept in its cell, or in its slot as long as there is none. -/
inductive Keeps (catalogs : Nat → Catalog) (home : Handle → LocalVariable) (chronicle : Chronicle)
    (env : Environment) : LocalVariable → Storage → Prop
  | cell (block : Handle) (value : Value) (held : env.heap.cellGet? block = some value) :
      Keeps catalogs home chronicle env (home block) (.cell block)
  | slot (position : Nat) (frame : Frame) (activation : Nat) (around : List Nat) (index : Nat)
      (name : String) (value : Value) (there : env.frames.toList[position]? = some frame)
      (chain : chronicle.chains[position]? = some (activation :: around))
      (named : (frame.target.sheet catalogs).slots[index]? = some name)
      (lies : env.stack[frame.base + index]? = some value) (visible : value.Visible) :
      Keeps catalogs home chronicle env ⟨activation, name⟩ (.slot (frame.base + index))

/-- The functions of frames, whose variables stand on the stack above each other. -/
structure Rows (catalogs : Nat → Catalog) (programs : Array Program) (frames : List Frame)
    (height : Nat) : Prop where
  known : ∀ frame ∈ frames, ∃ program function listing, programs[frame.unit]? = some program ∧
    program.function? frame.index = some function ∧ function.Verified program listing ∧
      frame.base + function.varCount.toNat ≤ height
  apart : frames.Pairwise fun lower upper => lower.reach catalogs ≤ upper.base
  boxed : ∀ place, BoxedIn programs frames place → place < height
  /-- No slot is boxed that an instruction accesses as such. -/
  unboxed : ∀ frame ∈ frames, ∀ listing, frame.Lists programs listing →
    ∀ pc instr, (pc, instr) ∈ listing → instr.op.refersToSlot = true →
      ¬ BoxedIn programs frames (frame.base + instr.a.toNat)

namespace Rows

theorem nil : Rows catalogs programs [] height where
  known _ none := absurd none List.not_mem_nil
  apart := .nil
  boxed place boxed := by
    obtain ⟨_, none, -⟩ := boxed
    cases none
  unboxed _ none := absurd none List.not_mem_nil

theorem mono {higher : Nat} (rows : Rows catalogs programs frames height) (more : height ≤ higher) :
    Rows catalogs programs frames higher :=
  { rows with
    known := fun frame member => by
      obtain ⟨program, function, listing, loaded, found, verified, low⟩ := rows.known frame member
      exact ⟨program, function, listing, loaded, found, verified, Nat.le_trans low more⟩
    boxed := fun place boxed => Nat.lt_of_lt_of_le (rows.boxed place boxed) more }

/-- A slot that an instruction accesses lies among the variables. -/
theorem slot_lt (rows : Rows catalogs programs frames height) (member : frame ∈ frames)
    (lists : frame.Lists programs listing) {pc : Nat} (there : (pc, instr) ∈ listing)
    (plain : instr.op.refersToSlot = true) : frame.base + instr.a.toNat < height := by
  obtain ⟨program, function, listing', loaded, found, verified, low⟩ := rows.known frame member
  obtain ⟨program', function', loaded', found', listed⟩ := lists
  cases loaded.symm.trans loaded'
  cases found.symm.trans found'
  cases listed.symm.trans verified.listed
  have := (verified.inRange pc instr there).variable_ (.inl plain)
  omega

/-- Another frame stands above. -/
theorem push (explained : Explained texts catalogs programs)
    (rows : Rows catalogs programs frames lower.length)
    (occupies : Occupies terms programs config lower keeps frame function listing level cells) :
    Rows catalogs programs (frames ++ [frame]) (lower.length + 1 + function.varCount.toNat) := by
  obtain ⟨program, loaded, found, verified⟩ := occupies.program
  have base := occupies.base
  refine ⟨fun other member => ?_, ?_, fun place boxed => ?_,
    fun other member listing' lists pc instr there plain boxed => ?_⟩
  · rcases List.mem_append.mp member with below | top
    · obtain ⟨program', function', listing', loaded', found', verified', low⟩ := rows.known other below
      exact ⟨program', function', listing', loaded', found', verified', by omega⟩
    · obtain rfl := List.mem_singleton.mp top
      exact ⟨program, function, listing, loaded, found, verified, by omega⟩
  · refine List.pairwise_append.mpr ⟨rows.apart, List.pairwise_singleton _ _, fun other below top last => ?_⟩
    obtain rfl := List.mem_singleton.mp last
    obtain ⟨program', function', -, loaded', found', -, low⟩ := rows.known other below
    have few : (other.target.sheet catalogs).slots.length ≤ function'.varCount.toNat :=
      @Explained.slots_le texts catalogs programs function' program' other.target explained loaded' found'
    unfold Frame.reach
    omega
  · rcases boxedIn_append.mp boxed with below | top
    · have := rows.boxed place below
      omega
    · exact (occupies.boxed_cases top).2
  · rcases List.mem_append.mp member with below | top <;>
      rcases boxedIn_append.mp boxed with low | own
    · exact rows.unboxed other below listing' lists pc instr there plain low
    · have := rows.slot_lt below lists there plain
      have := (occupies.boxed_cases own).1
      omega
    · obtain rfl := List.mem_singleton.mp top
      have := rows.boxed _ low
      omega
    · obtain rfl := List.mem_singleton.mp top
      obtain rfl := occupies.lists.mp lists
      obtain ⟨slot, boxes, same⟩ := boxedIn_singleton.mp own
      obtain rfl : instr.a = slot := UInt16.toNat_inj.mp (Nat.add_left_cancel same)
      obtain ⟨offset, boxing, member, box, here, -⟩ := occupies.boxes.mp boxes
      exact verified.unboxed pc instr there plain ⟨offset, boxing, member, box, here⟩

end Rows

/-- The variables of waiting functions. -/
theorem Layers.rows (explained : Explained texts catalogs programs)
    (layers : Layers terms programs config keep callers frames values references) :
    Rows catalogs programs frames values.length := by
  induction layers with
  | host => exact .nil
  | native _ _ _ _ _ _ _ _ _ _ _ _ _ ih =>
      refine ih.mono ?_
      rw [List.length_append]
      exact Nat.le_add_right _ _
  | frame _ _ _ _ locals operands _ _ _ _ _ _ _ _ _ occupies waits ih =>
      refine (ih.push explained occupies).mono ?_
      have slots := (waits .undefined).slots
      simp only [List.length_append, List.length_cons, slots]
      omega

namespace Machine

/-- The frames of a sound machine stand above each other, and cells in their slots are those of boxed
variables. -/
theorem Sound.rows {machine : Machine α} (sound : machine.Sound terms keep)
    (explained : Explained texts catalogs machine.environment.programs)
    (veiled : machine.environment.Veiled machine.environment.Hides) : ∃ height,
      Rows catalogs machine.environment.programs machine.environment.frames.toList height ∧
        ∀ place < height, ∀ block, machine.environment.stack[place]? = some (.cell block) →
          BoxedIn machine.environment.programs machine.environment.frames.toList place := by
  cases sound with
  | host env program owned holds careful =>
      refine ⟨0, ?_, fun place none => absurd none (Nat.not_lt_zero place)⟩
      rw [show env.frames.toList = [] from holds.frames]
      exact .nil
  | native env program callers frames lower args callee owned references layers room holds
      careful =>
      rw [show env.frames.toList = _ from holds.frames]
      exact ⟨_, layers.rows explained, fun place _ block there =>
        (ungathered_layers layers holds veiled).1.stack place block there⟩
  | running env callers frames frame lower locals operands callee keeps references function
      listing level cells layers stands occupies placed holds =>
      rw [show env.frames.toList = _ from holds.frames]
      refine ⟨_, (layers.rows explained).push explained occupies, fun place low block there => ?_⟩
      refine ((hides_now occupies holds).mp (veiled.stack place block there)).resolve_right ?_
      have few := occupies.gathered_le veiled.gathers placed
      have size := holds.size
      simp only [List.length_append, List.length_cons, placed.slots] at size
      omega
  | ended env callers frames lower value references layers count holds =>
      rw [show env.frames.toList = _ from holds.frames]
      exact ⟨_, layers.rows explained, fun place _ block there =>
        (ungathered_layers layers holds veiled).1.stack place block there⟩

/-- What refers to cells and closures leads to some. -/
theorem Sound.live {machine : Machine α} (sound : machine.Sound terms keep) :
    machine.environment.Live := by
  cases sound with
  | host env program owned holds careful =>
      exact holds.live fun _ none => absurd none List.not_mem_nil
  | native env program callers frames lower args callee owned references layers room holds
      careful => exact holds.live ((layers.counted.above _).more owned)
  | running env callers frames frame lower locals operands callee keeps references function
      listing level cells layers stands occupies placed holds =>
      exact holds.live (layers.counted.window stands (locals ++ operands))
  | ended env callers frames lower value references layers count holds =>
      exact holds.live (layers.counted.above [value])

end Machine

/-! ## Every variable has its place -/

namespace Keeps

theorem frame_tied (tied : Tied catalogs home chronicle env)
    (there : env.frames.toList[position]? = some frame)
    (known : chronicle.chains[position]? = some chain) :
    frame.Tied catalogs home chronicle env chain := by
  obtain ⟨inside, rfl⟩ := List.getElem?_eq_some_iff.mp there
  obtain ⟨inside', rfl⟩ := List.getElem?_eq_some_iff.mp known
  exact (List.forall₂_iff_get.mp tied.frames).2 position inside inside'

/-- A slot in which no cell lies holds the value of its variable, which has no cell. -/
theorem slot_plain {activation index : Nat} {around : List Nat}
    (tied : Tied catalogs home chronicle env)
    (there : env.frames.toList[position]? = some frame)
    (known : chronicle.chains[position]? = some (activation :: around))
    (named : (frame.target.sheet catalogs).slots[index]? = some name)
    (lies : env.stack[frame.base + index]? = some value) (visible : value.Visible) :
    value = chronicle.value ⟨activation, name⟩ ∧ ∀ block held,
      env.heap.cellGet? block = some held → home block ≠ ⟨activation, name⟩ := by
  have tie := frame_tied tied there known
  cases tie with
  | intro _ _ _ slots =>
      obtain ⟨other, lies', kept⟩ := slots index name named
      cases lies.symm.trans lies'
      cases kept with
      | plain _ _ same alone => exact ⟨same, alone⟩
      | boxed block => cases visible

theorem stored (tied : Tied catalogs home chronicle env)
    (keeps : Keeps catalogs home chronicle env owner storage) :
    env.stored? storage = some (chronicle.value owner) := by
  cases keeps with
  | cell block value held => rw [← (tied.cells block value held).2]; exact held
  | slot position frame activation around index name value there chain named lies visible =>
      rw [← (slot_plain tied there chain named lies visible).1]
      exact lies

/-- Only one frame belongs to an activation. -/
theorem position_eq {first second activation : Nat} {one two : List Nat}
    (tied : Tied catalogs home chronicle env)
    (here : chronicle.chains[first]? = some (activation :: one))
    (there : chronicle.chains[second]? = some (activation :: two)) : first = second := by
  obtain ⟨inside, same⟩ := List.getElem?_eq_some_iff.mp here
  obtain ⟨inside', same'⟩ := List.getElem?_eq_some_iff.mp there
  have apart := List.pairwise_iff_getElem.mp tied.distinct
  rcases Nat.lt_trichotomy first second with less | rfl | more
  · exact absurd (by rw [same, same']; rfl) (apart first second inside inside' less)
  · rfl
  · exact absurd (by rw [same, same']; rfl) (apart second first inside' inside more)

theorem single {further : Storage} (tied : Tied catalogs home chronicle env)
    (once : ∀ frame ∈ env.frames.toList, (frame.target.sheet catalogs).slots.Nodup)
    (one : Keeps catalogs home chronicle env owner storage)
    (two : Keeps catalogs home chronicle env owner further) : storage = further := by
  generalize same : owner = variable_ at two
  cases one with
  | cell block value held =>
      cases two with
      | cell block' value' held' => rw [tied.apart block block' value value' held held' same]
      | slot position frame activation around index name value' there chain named lies visible =>
          exact absurd same ((slot_plain tied there chain named lies visible).2 block value held)
  | slot position frame activation around index name value there chain named lies visible =>
      cases two with
      | cell block value' held =>
          exact absurd same.symm ((slot_plain tied there chain named lies visible).2 block value' held)
      | slot position' frame' activation' around' index' name' value' there' chain' named' =>
          cases same
          obtain rfl := position_eq tied chain chain'
          cases there.symm.trans there'
          obtain ⟨inside, is⟩ := List.getElem?_eq_some_iff.mp named
          obtain ⟨inside', is'⟩ := List.getElem?_eq_some_iff.mp named'
          have unique := once frame (List.mem_of_getElem? there)
          rw [(unique.getElem_inj_iff).mp (is.trans is'.symm)]

theorem apart (rows : Rows catalogs programs env.frames.toList height)
    (one : Keeps catalogs home chronicle env owner storage)
    (two : Keeps catalogs home chronicle env variable_ storage) : owner = variable_ := by
  cases one with
  | cell block value held =>
      cases two
      rfl
  | slot position frame activation around index name value there chain named lies visible =>
      generalize same : Storage.slot (frame.base + index) = storage at two
      cases two with
      | cell => cases same
      | slot position' frame' activation' around' index' name' value' there' chain' named' =>
          injection same with same
          obtain ⟨inside, is⟩ := List.getElem?_eq_some_iff.mp there
          obtain ⟨inside', is'⟩ := List.getElem?_eq_some_iff.mp there'
          obtain ⟨few, -⟩ := List.getElem?_eq_some_iff.mp named
          obtain ⟨few', -⟩ := List.getElem?_eq_some_iff.mp named'
          have stacked := List.pairwise_iff_getElem.mp rows.apart
          obtain rfl : position = position' := by
            rcases Nat.lt_trichotomy position position' with less | same | more
            · have := stacked position position' inside inside' less
              rw [is, is'] at this
              unfold Frame.reach at this
              omega
            · exact same
            · have := stacked position' position inside' inside more
              rw [is, is'] at this
              unfold Frame.reach at this
              omega
          cases there.symm.trans there'
          cases chain.symm.trans chain'
          obtain rfl : index = index' := Nat.add_left_cancel same
          cases named.symm.trans named'
          rfl

end Keeps

/-! ## What names denote is found -/

/-- An instruction reaches the storage of a variable of the name: in a slot or a capture that has it, or
as a global when no function around has a variable of the name. -/
inductive Environment.Reaches (env : Environment) (sheet : Sheet) (scopes : List (List String))
    (activation : Activation) (instr : Instruction) (name : String) : Storage → Prop
  | slot (own : instr.op.refersToUpvalue = false)
      (named : sheet.slots[instr.a.toNat]? = some name)
      (plain : instr.op.refersToSlot = true) :
      Reaches env sheet scopes activation instr name
        (.slot (activation.base + instr.a.toNat))
  | box (own : instr.op.refersToUpvalue = false)
      (named : sheet.slots[instr.a.toNat]? = some name) (cell : Handle)
      (there : env.stack[activation.base + instr.a.toNat]? = some (.cell cell)) :
      Reaches env sheet scopes activation instr name (.cell cell)
  | capture (named : sheet.name? (.capture instr.a) = some name) (closure cell : Handle)
      (runs : activation.closure = some closure)
      (there : env.heap.closureCell? closure instr.a.toNat = some (.cell cell)) :
      Reaches env sheet scopes activation instr name (.cell cell)
  | global (none : ∀ own ∈ scopes, name ∉ own) :
      Reaches env sheet scopes activation instr name (.global name)

section

variable (explained : Explained texts catalogs env.programs)

include explained

/-- In the code of an explained function, an instruction that stands for a mention accesses what is
mentioned. -/
theorem Environment.Mentions.accesses {target : FunctionRef}
    (mentions : env.Mentions texts target program function instr name) :
    ∃ mention, mention.name? = some name ∧ (catalogs target.unit).Accesses (target.sheet catalogs)
      (target.scopes catalogs) instr.role mention := by
  obtain ⟨listing, pc, mention, listed, member, stands, named⟩ := mentions.coded
  have access : instr.role.isAccess = true := by
    by_contra none
    unfold Listing.mention? at stands
    rw [Code.lookup_of_mem listed member] at stands
    simp only [Option.bind_eq_bind, Option.bind_some, if_neg none] at stands
    cases stands
  obtain ⟨other, stands', accesses⟩ := (@Explained.codes texts catalogs env.programs function
    program target explained mentions.loaded mentions.found).accesses listed member access
  have outline : target.outline texts = (catalogs target.unit).outline target.index.toNat :=
    @Explained.outline texts catalogs env.programs function program target explained
      mentions.loaded mentions.found
  rw [outline, stands'] at stands
  cases stands
  exact ⟨mention, named, accesses⟩

theorem Environment.Mentions.reaches {target : FunctionRef} {activation : Activation}
    (mentions : env.Mentions texts target program function instr name)
    (same : activation.program = program)
    (leads : env.storage? activation instr = some storage) :
    env.Reaches (target.sheet catalogs) (target.scopes catalogs) activation instr name
      storage := by
  obtain ⟨mention, named, accesses⟩ := mentions.accesses explained
  have strings : (catalogs target.unit).strings = program.strings :=
    (explained _ _ mentions.loaded).strings
  subst same
  have found {other : String} {place : Place} {constant : UInt16} (is : other = name)
      (accessed : instr.role.place? = some (place, constant))
      (names : (catalogs target.unit).Names (target.sheet catalogs) (target.scopes catalogs) other
        place constant) : env.Reaches (target.sheet catalogs) (target.scopes catalogs)
          activation instr name storage := by
    subst is
    obtain ⟨rfl, own, ⟨plain, rfl⟩ | ⟨cell, there, rfl⟩⟩ | ⟨rfl, closure, cell, runs, there, rfl⟩ |
      ⟨rfl, text, known, rfl⟩ := storage?_cases accessed leads
    · exact .slot own names plain
    · exact .box own names cell there
    · exact .capture names closure cell runs there
    · have spelled := names.1
      rw [strings] at spelled
      cases known.symm.trans spelled
      exact .global names.2
  generalize is : instr.role = role at accesses found
  cases accesses with
  | load names => exact found (Option.some.inj named) rfl names
  | store names => exact found (Option.some.inj named) rfl names
  | declare topLevel known =>
      obtain ⟨op, a, b⟩ := instr
      obtain rfl : op = .declareGlobal := by
        cases op <;> first | rfl | cases is
      cases is
      rw [strings] at known
      have leads : (activation.program.string? a).map Storage.global = some storage := leads
      rw [show activation.program.string? a = _ from known] at leads
      cases leads
      rw [Option.some.inj named, topLevel]
      exact .global fun _ none => absurd none List.not_mem_nil
  | loadResult => cases named
  | storeResult => cases named

end

/-- A name of a function's own is that of one of its slots. -/
theorem Explained.slot_of_name {target : FunctionRef} (explained : Explained texts catalogs programs)
    (loaded : programs[target.unit]? = some program)
    (found : program.function? target.index = some function)
    (own : name ∈ (target.outline texts).scopes.headD []) :
    ∃ index : Nat, (target.sheet catalogs).slots[index]? = some name := by
  have outline : target.outline texts = (catalogs target.unit).outline target.index.toNat :=
    explained.outline loaded found
  rw [outline] at own
  have inner : target.index.toNat ≠ 0 := fun zero => by
    rw [zero, (explained _ _ loaded).main.1] at own
    cases own
  obtain ⟨names, around, scopes, same⟩ :=
    ((explained _ _ loaded).owns _ _ (Nat.pos_of_ne_zero inner) found).mem
  rw [scopes] at own
  exact List.mem_iff_getElem?.mp ((same name).mpr own)

namespace Keeps

/-- The variable of a slot is kept in it, or in the cell that lies there. -/
theorem of_slot {activation index : Nat} {around : List Nat}
    (tied : Tied catalogs home chronicle env) (live : env.Live)
    (there : env.frames.toList[position]? = some frame)
    (known : chronicle.chains[position]? = some (activation :: around))
    (named : (frame.target.sheet catalogs).slots[index]? = some name)
    (lies : env.stack[frame.base + index]? = some value) :
    (value.Visible → Keeps catalogs home chronicle env ⟨activation, name⟩
        (.slot (frame.base + index))) ∧
      ∀ cell, value = .cell cell →
        Keeps catalogs home chronicle env ⟨activation, name⟩ (.cell cell) := by
  refine ⟨fun visible => .slot position frame activation around index name value there known named lies
    visible, fun cell same => ?_⟩
  subst same
  obtain ⟨held, alive⟩ := live.cell _ cell lies
  have tie := frame_tied tied there known
  cases tie with
  | intro _ _ _ slots =>
      obtain ⟨other, lies', lays⟩ := slots index name named
      cases lies.symm.trans lies'
      cases lays with
      | plain _ visible => cases visible
      | boxed _ is =>
          rw [← is]
          exact .cell cell held alive

/-- The cells of a closure are there. -/
theorem of_captured {closure cell : Handle} {index : Nat} (live : env.Live)
    (there : env.heap.closureCell? closure index = some (.cell cell)) :
    Keeps catalogs home chronicle env (home cell) (.cell cell) := by
  unfold Heap.closureCell? at there
  split at there
  · rename_i target cells held
    obtain ⟨value, alive⟩ := live.captured closure target cells held index cell there
    exact .cell cell value alive
  · cases there

end Keeps

section

variable (tied : Tied catalogs home chronicle env) (live : env.Live)
  (explained : Explained texts catalogs env.programs)
  (rows : Rows catalogs env.programs env.frames.toList height)
  (boxed : ∀ place < height, ∀ block, env.stack[place]? = some (.cell block) →
    BoxedIn env.programs env.frames.toList place)

include tied live explained rows boxed

/-- The variables of a frame. -/
theorem Tied.lexical_frame (there : env.frames.toList[position]? = some frame) :
    ∃ activation around, chronicle.chains[position]? = some (activation :: around) ∧
      (∀ name ∈ (frame.outline texts).scopes.headD [],
        ∃ storage, Keeps catalogs home chronicle env ⟨activation, name⟩ storage) ∧
      ∀ program function instr name storage,
        env.Mentions texts frame.target program function instr name →
          env.storage? (activationOf frame function program) instr = some storage →
            ∃ location, Location.of? name (frame.outline texts).scopes (activation :: around) =
              some location ∧ location.At (Keeps catalogs home chronicle env) storage := by
  obtain ⟨inside, -⟩ := List.getElem?_eq_some_iff.mp there
  have short : position < chronicle.chains.length := tied.frames.length_eq ▸ inside
  obtain ⟨chain, known⟩ : ∃ chain, chronicle.chains[position]? = some chain :=
    ⟨_, List.getElem?_eq_getElem short⟩
  have tie := Keeps.frame_tied tied there known
  have member := List.mem_of_getElem? there
  cases tie with
  | intro activation begun closure slots =>
  refine ⟨activation, _, known, fun name own => ?_,
    fun program function instr name storage mentions leads => ?_⟩
  · obtain ⟨program, function, -, loaded, found, -⟩ := rows.known frame member
    obtain ⟨index, named⟩ :=
      @Explained.slot_of_name texts catalogs env.programs function program name frame.target
        explained loaded found own
    obtain ⟨value, lies, -⟩ := slots index name named
    have kept := Keeps.of_slot tied live there known named lies
    by_cases boxes : ∃ cell, value = .cell cell
    · obtain ⟨cell, same⟩ := boxes
      exact ⟨_, kept.2 cell same⟩
    · exact ⟨_, kept.1 (Value.visible_iff.mpr fun cell same => boxes ⟨cell, same⟩)⟩
  · have reaches := @Environment.Mentions.reaches texts catalogs env function program
      instr name storage explained frame.target (activationOf frame function program) mentions
      rfl leads
    have outline : (frame.outline texts).scopes = frame.target.scopes catalogs :=
      congrArg Outline.scopes (@Explained.outline texts catalogs env.programs function program
        frame.target explained mentions.loaded mentions.found)
    rw [outline]
    have own {index : Nat} (named : (frame.target.sheet catalogs).slots[index]? = some name) :
        Location.of? name (frame.target.scopes catalogs)
          (activation :: frame.closure.elim [] chronicle.around) =
            some (.variable ⟨activation, name⟩) := by
      obtain ⟨names, around, scopes, same⟩ := @Explained.own texts catalogs env.programs
        function program frame.target explained mentions.loaded mentions.found fun empty => by
          rw [empty] at named
          cases named
      rw [scopes]
      exact Location.of?_own ((same name).mp (List.mem_of_getElem? named))
    cases reaches with
    | slot _ named plain =>
        obtain ⟨value, lies, -⟩ := slots _ name named
        have kept := Keeps.of_slot tied live there known named lies
        refine ⟨_, own named, kept.1 (Value.visible_iff.mpr fun cell same => ?_)⟩
        -- Such a slot is not boxed, so no cell lies there.
        obtain ⟨listing, pc, mention, listed, at_, -⟩ := mentions.coded
        have lists : frame.Lists env.programs listing :=
          ⟨program, function, mentions.loaded, mentions.found, listed⟩
        refine rows.unboxed frame member listing lists pc instr at_ plain ?_
        exact boxed _ (rows.slot_lt member lists at_ plain) cell (same ▸ lies)
    | box _ named cell lies =>
        exact ⟨_, own named, (Keeps.of_slot tied live there known named lies).2 cell rfl⟩
    | capture named block cell runs at_ =>
        have runs : frame.closure = some block := runs
        obtain ⟨-, -, -, same⟩ := closure block runs
        rw [runs]
        exact ⟨_, tied.of?_captured explained mentions.loaded mentions.found same named at_ activation,
          Keeps.of_captured live at_⟩
    | global none => exact ⟨_, Location.of?_global none, rfl⟩

/-- What chronicles tell of variables is so. -/
theorem Tied.lexical :
    Lexical texts chronicle env (Keeps catalogs home chronicle env) := by
  refine ⟨fun owner storage other => Keeps.single tied fun frame member => ?_,
    fun owner other storage => Keeps.apart rows,
    fun owner storage => Keeps.stored tied, fun position frame there => ?_,
    fun closure target cells held program function instr name storage mentions upvalue leads
      activation => ?_⟩
  · obtain ⟨program, function, -, loaded, found, -⟩ := rows.known frame member
    exact @Explained.nodup texts catalogs env.programs function program frame.target explained
      loaded found
  · rw [← Array.getElem?_toList] at there
    exact tied.lexical_frame live explained rows boxed there
  · have outline : (target.outline texts).scopes = target.scopes catalogs :=
      congrArg Outline.scopes (@Explained.outline texts catalogs env.programs function program
        target explained mentions.loaded mentions.found)
    have reaches := @Environment.Mentions.reaches texts catalogs env function program
      instr name storage explained target ⟨target.unit, program, 0, 0, some closure⟩ mentions
      rfl leads
    rw [outline]
    cases reaches with
    | slot own => cases upvalue.symm.trans own
    | box own => cases upvalue.symm.trans own
    | capture named block cell runs at_ =>
        cases runs
        refine ⟨_, tied.of?_captured explained mentions.loaded mentions.found (fun other cells' held' => ?_)
          named at_ activation, Keeps.of_captured live at_⟩
        cases held.symm.trans held'
        rfl
    | global none => exact ⟨_, Location.of?_global none, rfl⟩

end

/-! ## The next instruction -/

namespace Machine

/-- The mention for which the instruction stands that is executed in the next step. -/
def mention? (texts : Nat → List Outline) (machine : Machine α) : Option Mention :=
  match machine.control with
  | .script callers =>
      if callers.frames < machine.environment.frames.size then machine.environment.mention? texts
      else none
  | _ => none

/-- The next step accesses a storage as it is mentioned. Only the read of a global that is not there
fails. -/
def Access (machine : Machine α) (mention : Mention) (name : String) (storage : Storage) : Prop :=
  (∃ after, machine.executed? = some after ∧
      Environment.Accesses storage machine.environment after mention) ∨
    mention = .read name ∧ storage = .global name ∧ machine.environment.global? name = none ∧
      machine.raised? = some (.undefinedVariable name)

/-- The instruction that is executed in the next step accesses a variable. -/
def accesses (machine : Machine α) : Bool :=
  match machine.control with
  | .script callers =>
      callers.frames < machine.environment.frames.size &&
        (machine.environment.running?.bind fun (frame, listing) => listing.lookup frame.pc).any
          (·.role.isAccess)
  | _ => false

/-- The next instruction does what the text says. -/
structure Complies (texts : Nat → List Outline) (chronicle : Chronicle)
    (keeps : LocalVariable → Storage → Prop) (machine : Machine α) : Prop where
  /-- An instruction that accesses a variable stands for a mention of it in the text. Only the top level
  has a result, which is none. -/
  mentioned : machine.accesses = true → ∃ mention frame, machine.mention? texts = some mention ∧
    machine.environment.frames.back? = some frame ∧
      (mention = .result → (frame.outline texts).scopes = [])
  /-- It accesses what the name denotes. -/
  denoted : ∀ mention name, machine.mention? texts = some mention → mention.name? = some name →
    ∃ location storage, chronicle.locate? texts machine.environment name = some location ∧
      location.At keeps storage ∧ machine.Access mention name storage

section

variable
  (layers : Layers terms env.programs env.config keep callers frames lower references)
  (stands : keeps.StandsFor callee)
  (occupies : Occupies terms env.programs env.config lower keeps frame function listing
    level cells)
  (placed : Placed function listing level cells frame.pc locals operands)
  (holds : env.Holds terms (frames ++ [frame]) (lower ++ callee :: (locals ++ operands))
    ((locals ++ operands).map .value ++ keeps :: references))
  (member : (frame.pc, instr) ∈ listing)
  (loaded : env.programs[frame.unit]? = some program)

include layers occupies placed holds member loaded

/-- What the instruction comes to is the next step. -/
theorem executed_access (other : instr.op ≠ .call)
    (done : execute (activationOf frame function program) instr
      (env.at_ (frame.pc + instr.size)) = (.ok (), after)) :
    (⟨env, .script callers⟩ : Machine α).executed? = some after ∧
      (⟨env, .script callers⟩ : Machine α).step.environment = after := by
  have executed := executeNext_member holds occupies placed loaded member
  rw [done] at executed
  simp only [Except.map, if_neg other] at executed
  have more := callers_lt layers holds
  constructor
  · unfold executed?
    simp only [if_pos more, executed]
  · rw [step_next more executed]

/-- An instruction that fails raises its fault. -/
theorem raised_access {fault : Fault}
    (failed : (execute (activationOf frame function program) instr
      (env.at_ (frame.pc + instr.size))).1 = .error fault) :
    (⟨env, .script callers⟩ : Machine α).raised? = some fault := by
  have executed := executeNext_member holds occupies placed loaded member
  rw [failed] at executed
  have more := callers_lt layers holds
  unfold raised?
  simp only [if_pos more, executed, Except.map]

omit layers loaded in
/-- There is an operand for an instruction that takes one. -/
theorem operand_enough (takes : 0 < instr.needs) :
    (activationOf frame function program).floor < env.stack.size := by
  have needs := occupies.leveled.needs _ _ member
  have size := holds.size
  have base := occupies.base
  simp only [List.length_append, List.length_cons, placed.slots, placed.depth] at size
  change frame.base + function.varCount.toNat < _
  omega

include stands

/-- Well-formed code is not refused. -/
theorem not_refused (trusted : terms.trusted) :
    ¬ Refused (execute (activationOf frame function program) instr
      (env.at_ (frame.pc + instr.size))) := by
  rintro ⟨fault, failed, proper⟩
  have executes := executes_next layers stands occupies placed holds
  rw [executeNext_member holds occupies placed loaded member, failed] at executes
  rw [executes.1 trusted] at proper
  cases proper

end

/-- The position of the topmost frame does not matter. -/
theorem accesses_at {pc : Nat} {mention : Mention}
    (accesses : Environment.Accesses storage (env.at_ pc) after mention) :
    Environment.Accesses storage env after mention := by
  have same : (env.at_ pc).stored? storage = env.stored? storage := by
    cases storage <;> rfl
  cases accesses with
  | read name value stored pushed globals => exact .read name value (same ▸ stored) pushed globals
  | write name value operand stored others => exact .write name value operand stored others
  | declare name stored others => exact .declare name (same ▸ stored) others

section

variable {kept : LocalVariable → Storage → Prop} {mention : Mention}
  (layers : Layers terms env.programs env.config keep callers frames lower references)
  (stands : keeps.StandsFor callee)
  (occupies : Occupies terms env.programs env.config lower keeps frame function listing
    level cells)
  (placed : Placed function listing level cells frame.pc locals operands)
  (holds : env.Holds terms (frames ++ [frame]) (lower ++ callee :: (locals ++ operands))
    ((locals ++ operands).map .value ++ keeps :: references))
  (member : (frame.pc, instr) ∈ listing)
  (loaded : env.programs[frame.unit]? = some program)
  (tied : Tied catalogs home chronicle env)
  (lexical : Lexical texts chronicle env kept)
  (mentioned : env.mention? texts = some mention) (named : mention.name? = some name)

include occupies holds member loaded tied lexical mentioned named

/-- The storage to which the next instruction leads is that of what the name denotes. -/
theorem located (leads : env.storage? (activationOf frame function program) instr =
    some storage) : ∃ location, chronicle.locate? texts env name = some location ∧
      location.At kept storage := by
  obtain ⟨known, there, found, verified⟩ := occupies.program
  cases loaded.symm.trans there
  have last : env.frames[frames.length]? = some frame := by
    rw [← Array.getElem?_toList, holds.frames, List.getElem?_concat_length]
  obtain ⟨activation, around, chain, -, all⟩ := lexical.frames frames.length frame last
  have length := tied.length_chains
  rw [holds.count, List.length_append, List.length_singleton] at length
  have current : chronicle.current = activation :: around := by
    rw [Chronicle.current, List.getLastD_eq_getLast?, List.getLast?_eq_getElem?, length,
      Nat.add_sub_cancel, chain, Option.getD_some]
  have mentions : env.Mentions texts frame.target program function instr name := by
    refine ⟨there, found, listing, frame.pc, mention, verified.listed, member, ?_, named⟩
    unfold Environment.mention? at mentioned
    rw [running?_eq occupies holds] at mentioned
    exact mentioned
  obtain ⟨location, denotes, at_⟩ := all program function instr name storage mentions leads
  refine ⟨location, ?_, at_⟩
  unfold Chronicle.locate?
  rw [← Array.getLast?_toList, holds.frames, List.getLast?_concat, current]
  exact denotes

/-- A value that is stored in a variable's cell is there afterwards. -/
theorem accesses_intoCell {cell : Handle}
    (enough : (activationOf frame function program).floor < env.stack.size)
    (stores : instr.op = .storeCell ∨ instr.op = .storeUpvalue)
    (leads : env.storage? (activationOf frame function program) instr =
      some (.cell cell)) {name : String}
    (goesOn : ∀ after, storeInCell (activationOf frame function program) cell
      (env.at_ (frame.pc + instr.size)) = (.ok (), after) → after.Live) :
    AccessesTo (.cell cell) (env.at_ (frame.pc + instr.size)) (.write name)
      (storeInCell (activationOf frame function program) cell
        (env.at_ (frame.pc + instr.size))) := by
  obtain ⟨location, -, at_⟩ :=
    located occupies holds member loaded tied lexical mentioned named leads
  have alive : env.heap.cellGet? cell ≠ none := by
    cases location with
    | «variable» owner =>
        have held : env.heap.cellGet? cell = _ := lexical.value owner _ at_
        rw [held]
        nofun
    | global other => cases at_
  obtain ⟨fault, last, -, -, low | gone⟩ | ⟨value, old, heap, -, top, held, writes, stored⟩ :=
    @storeInCell_cases (env.at_ (frame.pc + instr.size))
      (activationOf frame function program) (Heap.Balanced.sound holds.balanced) cell
  · exact absurd enough (Nat.not_lt.mpr low)
  · exact absurd gone alive
  have live := goesOn _ stored
  refine ⟨_, stored, .write name value top ?_ fun _ _ => rfl⟩
  -- The variable still refers to the cell, which is not given up therefore.
  obtain ⟨still, found⟩ : ∃ still, heap.cellGet? cell = some still := by
    obtain ⟨place, constant, accessed⟩ : ∃ place constant,
        instr.role.place? = some (place, constant) := by
      obtain ⟨op, a, b⟩ := instr
      obtain rfl | rfl : op = .storeCell ∨ op = .storeUpvalue := stores
      · exact ⟨_, _, rfl⟩
      · exact ⟨_, _, rfl⟩
    obtain ⟨-, -, ⟨-, impossible⟩ | ⟨other, there, same⟩⟩ | ⟨-, closure, other, runs, there, same⟩ |
      ⟨-, text, -, impossible⟩ := storage?_cases accessed leads
    · cases impossible
    · cases same
      exact live.cell _ cell there
    · cases same
      obtain ⟨_, _, -, current, -, tie, -⟩ := tied.top holds.frames
      rw [current] at tie
      obtain ⟨_, -, closure', -⟩ := tie
      obtain ⟨place, -, lies, -⟩ := closure' closure runs
      obtain ⟨target, captured, kept⟩ := live.closure place closure lies
      have before : env.heap.get? closure = some (.closure target captured) :=
        writes.older kept (by simp)
      unfold Heap.closureCell? at there
      rw [before] at there
      exact live.captured closure target captured kept _ cell there
    · cases impossible
  have written := writes.kept cell _ (Heap.cellGet?_eq_some.mp found)
  rw [if_pos rfl] at written
  cases written
  exact found

include layers placed in
/-- An instruction that accesses a storage complies with the text. -/
theorem complies_access (other : instr.op ≠ .call)
    (leads : env.storage? (activationOf frame function program) instr = some storage)
    (accesses : AccessesTo storage (env.at_ (frame.pc + instr.size)) mention
      (execute (activationOf frame function program) instr
        (env.at_ (frame.pc + instr.size)))) :
    ∃ location storage, chronicle.locate? texts env name = some location ∧
      location.At kept storage ∧
        (⟨env, .script callers⟩ : Machine α).Access mention name storage := by
  obtain ⟨location, denotes, at_⟩ :=
    located occupies holds member loaded tied lexical mentioned named leads
  obtain ⟨after, done, accesses⟩ := accesses
  exact ⟨location, storage, denotes, at_, .inl ⟨after,
    (executed_access layers occupies placed holds member loaded other done).1, accesses_at accesses⟩⟩

include layers placed in
/-- A global is accessed. -/
theorem complies_global (coherent : env.Coherent) (access : GlobalAccess) {index b : UInt16}
    (same : instr = ⟨access.op, index, b⟩) (means : mention = access.mention name)
    (known : program.string? index = some name)
    (proper : ¬ Refused (execute (activationOf frame function program) instr
      (env.at_ (frame.pc + instr.size)))) :
    ∃ location storage, chronicle.locate? texts env name = some location ∧
      location.At kept storage ∧
        (⟨env, .script callers⟩ : Machine α).Access mention name storage := by
  have leads : env.storage? (activationOf frame function program) instr =
      some (.global name) := by
    have found : (program.string? index).map Storage.global = some (.global name) := by
      rw [known]
      rfl
    subst same
    cases access <;> exact found
  have enough : (access = .store ∨ access = .define) →
      (activationOf frame function program).floor < env.stack.size := fun takes =>
    operand_enough occupies placed holds member (by
      subst same
      obtain rfl | rfl := takes <;> exact Nat.one_pos)
  have noted := ((Faithful.of_same rfl rfl : Faithful env
    (env.at_ (frame.pc + instr.size))).coherent coherent).noted
  subst same
  obtain ⟨rfl, none, failed⟩ | refused | accesses :=
    @execute_global (env.at_ (frame.pc + (⟨access.op, index, b⟩ : Instruction).size))
      (activationOf frame function program) name index noted loaded known access b enough
  · obtain ⟨location, denotes, at_⟩ :=
      located occupies holds member loaded tied lexical mentioned named leads
    exact ⟨location, _, denotes, at_, .inr ⟨means, rfl, none,
      raised_access layers occupies placed holds member loaded failed⟩⟩
  · exact absurd refused proper
  · rw [← means] at accesses
    refine complies_access layers occupies placed holds member loaded tied lexical mentioned named ?_
      leads accesses
    cases access <;> nofun

omit mentioned named in
include layers placed stands in
/-- A variable of a function is written. -/
theorem complies_store {place : Place} {constant : UInt16} {name : String}
    (written : env.mention? texts = some (.write name))
    (is : instr.role = .store place constant) (own : place ≠ .global)
    (proper : ¬ Refused (execute (activationOf frame function program) instr
      (env.at_ (frame.pc + instr.size)))) :
    ∃ location storage, chronicle.locate? texts env name = some location ∧
      location.At kept storage ∧
        (⟨env, .script callers⟩ : Machine α).Access (.write name) name storage := by
  obtain ⟨known, there, found, verified⟩ := occupies.program
  have stores := store_cases is own
  have takes : 0 < instr.needs := by
    unfold Instruction.needs
    obtain op | op | op := stores <;> rw [op] <;> exact Nat.one_pos
  have enough : (activationOf frame function program).floor < env.stack.size :=
    operand_enough occupies placed holds member takes
  have noCall : instr.op ≠ .call := by
    obtain op | op | op := stores <;> rw [op] <;> nofun
  obtain slot | cell := stores
  · have inside := (verified.inRange _ _ member).variable_ (.inl (by rw [slot]; rfl))
    obtain ⟨op, a, b⟩ := instr
    cases slot
    exact complies_access layers occupies placed holds member loaded tied lexical written rfl noCall rfl
      (@execute_storeLocal (env.at_ (frame.pc + (⟨.storeLocal, a, b⟩ : Instruction).size))
        (activationOf frame function program) a b inside enough name)
  · obtain refused | ⟨block, leads, same⟩ :=
      @execute_intoCell (env.at_ (frame.pc + instr.size))
        (activationOf frame function program) instr cell
    · exact absurd refused proper
    refine complies_access layers occupies placed holds member loaded tied lexical written rfl noCall
      leads ?_
    rw [same]
    have sound : (⟨env, .script callers⟩ : Machine α).Sound terms keep :=
      .running env callers frames frame lower locals operands callee keeps references function
        listing level cells layers stands occupies placed holds
    refine accesses_intoCell occupies holds member loaded tied lexical written rfl enough cell leads
      fun after done => ?_
    rw [← same] at done
    have live := sound.step.live
    rwa [(executed_access layers occupies placed holds member loaded noCall done).2] at live

end

section

variable {kept : LocalVariable → Storage → Prop}
  (layers : Layers terms env.programs env.config keep callers frames lower references)
  (stands : keeps.StandsFor callee)
  (occupies : Occupies terms env.programs env.config lower keeps frame function listing
    level cells)
  (placed : Placed function listing level cells frame.pc locals operands)
  (holds : env.Holds terms (frames ++ [frame]) (lower ++ callee :: (locals ++ operands))
    ((locals ++ operands).map .value ++ keeps :: references))
  (tied : Tied catalogs home chronicle env)
  (lexical : Lexical texts chronicle env kept)
  (explained : Explained texts catalogs env.programs) (coherent : env.Coherent)
  (trusted : terms.trusted)

include layers stands occupies placed holds tied lexical explained coherent trusted

/-- What the next instruction of the topmost frame accesses. -/
theorem denoted_running {mention : Mention} {name : String}
    (mentioned : env.mention? texts = some mention) (named : mention.name? = some name) :
    ∃ location storage, chronicle.locate? texts env name = some location ∧
      location.At kept storage ∧
        (⟨env, .script callers⟩ : Machine α).Access mention name storage := by
  obtain ⟨instr, member⟩ := placed.here
  obtain ⟨program, loaded, found, verified⟩ := occupies.program
  have proper := not_refused layers stands occupies placed holds member loaded trusted
  have access : instr.role.isAccess = true := by
    by_contra aside
    have none : env.mention? texts = none :=
      mention?_aside occupies holds member (Bool.eq_false_iff.mpr aside)
    cases none.symm.trans mentioned
  obtain ⟨other, there, accesses⟩ := mention?_access occupies holds member explained access
  cases there.symm.trans mentioned
  have strings : (catalogs frame.unit).strings = program.strings := (explained _ _ loaded).strings
  have global (access : GlobalAccess) {constant : UInt16} (is : instr.role = access.role constant)
      (means : mention = access.mention name)
      (known : (catalogs frame.unit).strings[constant.toNat]? = some name) :
      ∃ location storage, chronicle.locate? texts env name = some location ∧
        location.At kept storage ∧
          (⟨env, .script callers⟩ : Machine α).Access mention name storage := by
    obtain ⟨other, same, spelled⟩ := GlobalAccess.of_role is name
    rw [strings] at known
    exact complies_global layers occupies placed holds member loaded tied lexical mentioned named
      coherent other spelled (means.trans same.symm) known proper
  have noCall (is : instr.role ≠ .aside) : instr.op ≠ .call := fun call => is (by
    rw [Instruction.role, call]
    rfl)
  generalize is : instr.role = role at accesses noCall
  cases accesses with
  | @load text place constant names =>
      obtain rfl : text = name := Option.some.inj named
      by_cases own : place = .global
      · subst own
        exact global .load is rfl names.1
      · obtain refused | ⟨storage, leads, accesses⟩ :=
          @execute_load (env.at_ (frame.pc + instr.size))
            (activationOf frame function program) instr place constant is own text
        · exact absurd refused proper
        · exact complies_access layers occupies placed holds member loaded tied lexical mentioned named
            (noCall fun same => by cases same) leads accesses
  | @store text place constant names =>
      obtain rfl : text = name := Option.some.inj named
      by_cases own : place = .global
      · subst own
        exact global .store is rfl names.1
      · exact complies_store layers stands occupies placed holds member loaded tied lexical mentioned is
          own proper
  | declare topLevel known =>
      obtain rfl := Option.some.inj named
      exact global .declare is rfl known
  | loadResult => cases named
  | storeResult => cases named

omit stands tied lexical coherent trusted in
/-- For what the next instruction of the topmost frame stands. -/
theorem mentioned_running
    (access : (⟨env, .script callers⟩ : Machine α).accesses = true) :
    ∃ mention frame, env.mention? texts = some mention ∧
      env.frames.back? = some frame ∧
        (mention = .result → (frame.outline texts).scopes = []) := by
  obtain ⟨instr, member⟩ := placed.here
  obtain ⟨program, loaded, found, verified⟩ := occupies.program
  replace access : instr.role.isAccess = true := by
    unfold Machine.accesses at access
    simpa only [running?_eq occupies holds, Option.bind_some, Code.lookup_of_mem verified.listed member,
      Option.any_some, Bool.and_eq_true, callers_lt layers holds, decide_true, true_and] using access
  obtain ⟨mention, there, accesses⟩ := mention?_access occupies holds member explained access
  have top : env.frames.back? = some frame := by
    rw [← Array.getLast?_toList, holds.frames, List.getLast?_concat]
  refine ⟨mention, frame, there, top, fun result => ?_⟩
  have outline : frame.outline texts = (catalogs frame.unit).outline frame.index.toNat :=
    @Explained.outline texts catalogs env.programs function program frame.target explained
      loaded found
  subst result
  rw [outline]
  generalize instr.role = role at accesses
  cases accesses with
  | loadResult topLevel => exact topLevel
  | storeResult topLevel => exact topLevel

end

/-- The next step of a sound machine complies with the text. -/
theorem Sound.complies {machine : Machine α} {kept : LocalVariable → Storage → Prop}
    (sound : machine.Sound terms keep) (trusted : terms.trusted)
    (tied : Tied catalogs home chronicle machine.environment)
    (lexical : Lexical texts chronicle machine.environment kept)
    (explained : Explained texts catalogs machine.environment.programs)
    (coherent : machine.environment.Coherent) : machine.Complies texts chronicle kept := by
  cases sound with
  | host => exact ⟨nofun, nofun⟩
  | native => exact ⟨nofun, nofun⟩
  | running env callers frames frame lower locals operands callee keeps references function
      listing level cells layers stands occupies placed holds =>
      have same : (⟨env, .script callers⟩ : Machine α).mention? texts =
          env.mention? texts := if_pos (callers_lt layers holds)
      exact ⟨fun access => same ▸ mentioned_running layers occupies placed holds explained access,
        fun mention name mentioned named => denoted_running layers stands occupies placed holds tied
          lexical explained coherent trusted (same.symm.trans mentioned) named⟩
  | ended env callers frames lower value references layers count holds =>
      have few : ¬ callers.frames < env.frames.size := by
        rw [holds.count, count]
        exact Nat.lt_irrefl _
      have none : (⟨env, .script callers⟩ : Machine α).mention? texts = none := if_neg few
      refine ⟨fun access => ?_, fun mention name mentioned => ?_⟩
      · have more : (decide (callers.frames < env.frames.size) && _) = true := access
        exact absurd (of_decide_eq_true (Bool.and_eq_true_iff.mp more).1) few
      · cases none.symm.trans mentioned

end Machine

/-- What a chronicle tells of variables is so, and the machine goes on as the text says. -/
theorem Chronicled.lexical {machine : Machine α} (sound : machine.Sound terms keep)
    (trusted : terms.trusted) (veiled : machine.Veiled post)
    (explained : Explained texts catalogs machine.environment.programs)
    (coherent : machine.environment.Coherent)
    (chronicled : Chronicled catalogs home chronicle machine.environment) :
    ∃ keeps, Lexical texts chronicle machine.environment keeps ∧
      machine.Complies texts chronicle keeps := by
  obtain ⟨height, rows, boxed⟩ := sound.rows explained veiled.environment
  have lexical := chronicled.tied.lexical sound.live explained rows boxed
  exact ⟨_, lexical, sound.complies trusted chronicled.tied lexical explained coherent⟩

end PocketScript
