import PocketScript.Proofs.Code.Listing
import PocketScript.Proofs.Compile.Declared
import PocketScript.Proofs.Scope.Sheets
import PocketScript.Proofs.Scope.Table
import PocketScript.Proofs.Tree.Outline

/-!
# Code accesses the variables that the text names

The instructions that access variables come in the order in which the text mentions these, and each of
them accesses the place that has the name: a slot or a capture of the nearest function around that owns
a variable of the name, or the global of the name when there is none. What a closure captures are, in
the function that creates it, the variables of the names that its captures have (`Catalog.Spells`). So
it is in all functions of a program text that can be compiled (`Compiling.catalogued_unit`).
-/

namespace PocketScript

/-- What an instruction does with variables. Globals are named by a constant. -/
inductive Role where
  | aside
  | load (place : Place) (constant : UInt16)
  | store (place : Place) (constant : UInt16)
  | declare (constant : UInt16)
  /-- A variable is pushed, to be captured. -/
  | gather (source : CaptureSource)
  | create (function count : UInt16)
  deriving DecidableEq, Repr

def Opcode.role (op : Opcode) (a b : UInt16) : Role :=
  match op with
  | loadLocal | loadCell => .load (.slot a) 0
  | storeLocal | storeCell => .store (.slot a) 0
  | loadUpvalue => .load (.capture a) 0
  | storeUpvalue => .store (.capture a) 0
  | loadGlobal => .load .global a
  | storeGlobal | defineGlobal => .store .global a
  | declareGlobal => .declare a
  | pushCell => .gather (.outerSlot a)
  | pushUpvalue => .gather (.outerCapture a)
  | makeClosure => .create a b
  | _ => .aside

def Instruction.role (instr : Instruction) : Role :=
  instr.op.role instr.a instr.b

def PendingInstruction.role (instr : PendingInstruction) : Role :=
  instr.op.role instr.a instr.b

/-- What is known of a program: its strings, and for each function what it says about variables and the
names of its slots and captures. -/
structure Catalog where
  strings : Array String := #[]
  outline : Nat → Outline := fun _ => {}
  sheet : Nat → Sheet := fun _ => {}

namespace Catalog

/-- The place has the name, or the constant is the name of a global that no function around owns. -/
def Names (catalog : Catalog) (sheet : Sheet) (scopes : List (List String)) (name : String)
    (place : Place) (constant : UInt16) : Prop :=
  match place with
  | .global => catalog.strings[constant.toNat]? = some name ∧ ∀ own ∈ scopes, name ∉ own
  | place => sheet.name? place = some name

/-- An instruction accesses the variable that is mentioned. -/
inductive Accesses (catalog : Catalog) (sheet : Sheet) (scopes : List (List String)) :
    Role → Mention → Prop
  | load {name place constant} (names : catalog.Names sheet scopes name place constant) :
      Accesses catalog sheet scopes (.load place constant) (.read name)
  | store {name place constant} (names : catalog.Names sheet scopes name place constant) :
      Accesses catalog sheet scopes (.store place constant) (.write name)
  | declare {name constant} (topLevel : scopes = [])
      (known : catalog.strings[constant.toNat]? = some name) :
      Accesses catalog sheet scopes (.declare constant) (.declare name)
  /-- The top level has a slot for the result of the unit. -/
  | loadResult (topLevel : scopes = []) : Accesses catalog sheet scopes (.load (.slot 0) 0) .result
  | storeResult (topLevel : scopes = []) : Accesses catalog sheet scopes (.store (.slot 0) 0) .result

/-- The instructions access the mentioned variables one after the other. -/
inductive Spells (catalog : Catalog) (sheet : Sheet) (scopes : List (List String)) :
    List Role → List Mention → Prop
  | nil : Spells catalog sheet scopes [] []
  | aside {roles mentions} (rest : Spells catalog sheet scopes roles mentions) :
      Spells catalog sheet scopes (.aside :: roles) mentions
  | access {role mention roles mentions} (accesses : catalog.Accesses sheet scopes role mention)
      (rest : Spells catalog sheet scopes roles mentions) :
      Spells catalog sheet scopes (role :: roles) (mention :: mentions)
  /-- A closure captures, for each capture that has a name, the variable of this name. -/
  | closure {roles mentions} (function count : UInt16) (sources : List CaptureSource)
      (length : count.toNat = sources.length)
      (around : (catalog.outline function.toNat).scopes.tail = scopes)
      (names : ∀ (index : Nat) source name, sources[index]? = some source →
        (catalog.sheet function.toNat).captures[index]? = some (some name) →
          sheet.name? source.place = some name)
      (rest : Spells catalog sheet scopes roles mentions) :
      Spells catalog sheet scopes (sources.map .gather ++ .create function count :: roles) mentions

variable {catalog : Catalog} {sheet : Sheet} {scopes : List (List String)} {roles more : List Role}
  {mentions further : List Mention} {name : String} {place : Place} {constant : UInt16}

theorem Spells.append (one : Spells catalog sheet scopes roles mentions)
    (two : Spells catalog sheet scopes more further) :
    Spells catalog sheet scopes (roles ++ more) (mentions ++ further) := by
  induction one with
  | nil => exact two
  | aside _ ih => exact .aside ih
  | access accesses _ ih => exact .access accesses ih
  | closure function count sources length around names _ ih =>
      rw [List.append_assoc, List.cons_append]
      exact .closure function count sources length around names ih

/-- The code of a function accesses the variables that the function mentions. -/
def Codes (catalog : Catalog) (index : Nat) (function : FunctionDef) : Prop :=
  ∃ (assembler : Assembler) (varCount : Nat) (captured : Array Bool) (isClosure : Bool),
    assembler.finish varCount function.argCount captured isClosure = .ok function ∧
      (∀ instr ∈ assembler.pending.toList, instr.IsProper) ∧
      catalog.Spells (catalog.sheet index) (catalog.outline index).scopes
        (assembler.pending.toList.map (·.role)) (catalog.outline index).mentions

/-- The variables of a function are its slots, the parameters first. -/
structure Owns (catalog : Catalog) (index : Nat) (function : FunctionDef) : Prop where
  count : function.varCount.toNat = (catalog.sheet index).slots.length
  nodup : (catalog.sheet index).slots.Nodup
  mem : ∃ names around, (catalog.outline index).scopes = names :: around ∧
    ∀ name, name ∈ (catalog.sheet index).slots ↔ name ∈ names
  params : (catalog.outline index).params =
    (catalog.sheet index).slots.take function.argCount.toNat

end Catalog

namespace Compilation

/-- A compilation that ends with a catalog, in a function that is complete with some scopes around
it. The functions since another state are in the catalog. -/
structure EndsWith (before after : Compilation) (entries : List (Outline × Sheet)) (catalog : Catalog)
    (final : Scopes) : Prop where
  steady : Scopes.Steady after.scopes final
  numbered : final.Numbered
  small : after.size ≤ 65535
  strings : ∀ (index : Nat) text, after.strings.items[index]? = some text →
    catalog.strings[index]? = some text
  entries : ∀ (index : Nat) outline sheet, entries[index]? = some (outline, sheet) →
    catalog.outline (before.functions.size + index) = outline ∧
      catalog.sheet (before.functions.size + index) = sheet

/-- What has been compiled says about variables what a survey says. -/
structure Spelled (around : List (List String)) (survey : Survey) (code : List PendingInstruction)
    (entries : List (Outline × Sheet)) (before after : Compilation) : Prop where
  steady : Scopes.Steady before.scopes after.scopes
  argCounts : after.scopes.map (·.argCount) = before.scopes.map (·.argCount)
  pending : after.assembler.pending.toList = before.assembler.pending.toList ++ code
  kept : ∀ (index : Nat) function, before.functions[index]? = some function →
    after.functions[index]? = some function
  strings : ∀ (index : Nat) text, before.strings.items[index]? = some text →
    after.strings.items[index]? = some text
  outlines : entries.map (·.1) = survey.outlines
  count : after.functions.size = before.functions.size + entries.length
  spells : ∀ catalog final, EndsWith before after entries catalog final →
    catalog.Spells final.sheet around (code.map (·.role)) survey.mentions
  functions : ∀ catalog final, EndsWith before after entries catalog final →
    ∀ (index : Nat) function, before.functions.size ≤ index →
      after.functions[index]? = some function →
        catalog.Codes index function ∧ catalog.Owns index function

/-- The same, whatever the code is. -/
def Tells (around : List (List String)) (survey : Survey) (before after : Compilation) : Prop :=
  ∃ code entries, Spelled around survey code entries before after

variable {around : List (List String)} {survey more : Survey} {before middle after state : Compilation}
  {code code' : List PendingInstruction} {entries entries' : List (Outline × Sheet)} {catalog : Catalog}
  {final : Scopes} {name : String} {place : Place}

theorem Spelled.size (spelled : Spelled around survey code entries before after) :
    after.size = before.size + code.length := by
  have same := congrArg List.length spelled.pending
  rwa [List.length_append, Array.length_toList, Array.length_toList] at same

/-- A step that adds no code and completes no functions. -/
theorem Tells.of_quiet (steady : Scopes.Steady before.scopes after.scopes)
    (argCounts : after.scopes.map (·.argCount) = before.scopes.map (·.argCount))
    (pending : after.assembler.pending = before.assembler.pending)
    (functions : after.functions = before.functions)
    (strings : ∀ (index : Nat) text, before.strings.items[index]? = some text →
      after.strings.items[index]? = some text) : Tells around {} before after :=
  ⟨[], [], steady, argCounts, by rw [pending, List.append_nil], fun _ _ found => functions ▸ found, strings, rfl,
    by rw [functions]; rfl, fun _ _ _ => .nil, fun _ _ _ index function new found => by
      rw [functions, Array.getElem?_eq_none new] at found
      cases found⟩

/-- Nothing has to be told. -/
theorem Tells.refl (state : Compilation) : Tells around {} state state :=
  .of_quiet (.refl _) rfl rfl rfl fun _ _ => id

/-- Code may be spelled step by step. -/
theorem Spelled.trans (one : Spelled around survey code entries before middle)
    (two : Spelled around more code' entries' middle after) :
    Spelled around (survey ++ more) (code ++ code') (entries ++ entries') before after := by
  -- Whatever the compilation ends with, the first part of it does.
  have first {catalog : Catalog} {final : Scopes}
      (ends : EndsWith before after (entries ++ entries') catalog final) :
      EndsWith before middle entries catalog final := by
    refine ⟨two.steady.trans ends.steady, ends.numbered, ?_, fun index text found =>
      ends.strings index text (two.strings index text found), fun index outline sheet found =>
        ends.entries index outline sheet ?_⟩
    · have := two.size
      have := ends.small
      omega
    · rwa [List.getElem?_append_left (List.getElem?_eq_some_iff.mp found).1]
  have second {catalog : Catalog} {final : Scopes}
      (ends : EndsWith before after (entries ++ entries') catalog final) :
      EndsWith middle after entries' catalog final := by
    refine ⟨ends.steady, ends.numbered, ends.small, ends.strings, fun index outline sheet found => ?_⟩
    rw [one.count, Nat.add_assoc]
    refine ends.entries _ outline sheet ?_
    rwa [List.getElem?_append_right (Nat.le_add_right _ _), Nat.add_sub_cancel_left]
  refine ⟨one.steady.trans two.steady, two.argCounts.trans one.argCounts, ?_, fun index function found =>
    two.kept _ _ (one.kept _ _ found), fun index text found => two.strings _ _ (one.strings _ _ found),
    ?_, ?_, fun catalog final ends => ?_, fun catalog final ends index function new found => ?_⟩
  · rw [two.pending, one.pending, List.append_assoc]
  · rw [List.map_append, one.outlines, two.outlines, Survey.outlines_append]
  · rw [two.count, one.count, List.length_append, Nat.add_assoc]
  · rw [List.map_append, Survey.mentions_append]
    exact (one.spells catalog final (first ends)).append (two.spells catalog final (second ends))
  · by_cases inside : index < middle.functions.size
    · have there := two.kept index _ (Array.getElem?_eq_getElem inside)
      cases there.symm.trans found
      exact one.functions catalog final (first ends) index _ new (Array.getElem?_eq_getElem inside)
    · exact two.functions catalog final (second ends) index function (Nat.le_of_not_lt inside) found

/-- And told of in the same steps. -/
theorem Tells.trans (one : Tells around survey before middle) (two : Tells around more middle after) :
    Tells around (survey ++ more) before after := by
  obtain ⟨_, _, one⟩ := one
  obtain ⟨_, _, two⟩ := two
  exact ⟨_, _, one.trans two⟩

/-- Behind something else happens what adds no code. -/
theorem Tells.quietly (tells : Tells around survey before middle) (quiet : Tells around {} middle after) :
    Tells around survey before after := by
  have both := tells.trans quiet
  rwa [Survey.append_empty] at both

theorem Tells.steady (tells : Tells around survey before after) :
    Scopes.Steady before.scopes after.scopes :=
  tells.elim fun _ ⟨_, spelled⟩ => spelled.steady

theorem Tells.lists (tells : Tells around survey before after) (lists : before.scopes.Lists around) :
    after.scopes.Lists around :=
  tells.steady.lists lists

/-! ## Instructions -/

/-- Instructions are added to the code of the function, which mention some variables. -/
theorem Tells.push {instr : PendingInstruction} {mentions : List Mention}
    (spells : ∀ catalog final, Scopes.Steady state.scopes final → final.Numbered →
      (∀ (index : Nat) text, state.strings.items[index]? = some text →
        catalog.strings[index]? = some text) →
          Catalog.Spells catalog final.sheet around [instr.role] mentions) :
    Tells around { mentions } state (state.assembling (·.push instr)) :=
  ⟨[instr], [], .refl _, rfl, Array.toList_push, fun _ _ => id, fun _ _ => id, rfl, rfl,
    fun catalog final ends => spells catalog final ends.steady ends.numbered ends.strings,
    fun _ _ _ index function new found => by
      have none : state.functions[index]? = none := Array.getElem?_eq_none new
      cases none.symm.trans found⟩

/-- An instruction that has nothing to do with variables. -/
theorem Tells.emit (tells : Tells around survey before state) (op : Opcode) (a : UInt16 := 0)
    (b : UInt16 := 0) (aside : op.role a b = .aside := by rfl) :
    Tells around survey before (state.emit op a b) :=
  tells.quietly <| .push fun _ _ _ _ _ => by
    rw [PendingInstruction.role, aside]
    exact .aside .nil

/-- A jump mentions no name. -/
theorem Tells.emitJump (tells : Tells around survey before state) (op : Opcode) (target : Label)
    (aside : op.role 0 0 = .aside := by rfl) : Tells around survey before (state.emitJump op target) :=
  tells.quietly <| .push fun _ _ _ _ _ => by
    rw [PendingInstruction.role, aside]
    exact .aside .nil

/-- Nor does a label. -/
theorem Tells.addLabel (tells : Tells around survey before state) : Tells around survey before state.addLabel :=
  tells.quietly (.of_quiet (.refl _) rfl rfl rfl fun _ _ => id)

/-- Wherever it is placed. -/
theorem Tells.placeLabel (tells : Tells around survey before state) (label : Label) :
    Tells around survey before (state.placeLabel label) :=
  tells.quietly (.of_quiet (.refl _) rfl rfl rfl fun _ _ => id)

/-- Nor does the depth of the stack. -/
theorem Tells.setDepth (tells : Tells around survey before state) (depth : Int) :
    Tells around survey before (state.setDepth depth) :=
  tells.quietly (.of_quiet (.refl _) rfl rfl rfl fun _ _ => id)

theorem Tells.addGlobal (tells : Tells around survey before state) (name : String) :
    Tells around survey before (state.addGlobal name) :=
  tells.quietly (.of_quiet (.refl _) rfl rfl rfl fun _ _ => id)

/-- A loop may be left. -/
theorem Tells.leaving (tells : Tells around survey before state) (outer : Compilation) :
    Tells around survey before (state.leaving outer) :=
  tells.quietly (.of_quiet (.refl _) rfl rfl rfl fun _ _ => id)

/-- And entered. -/
theorem Tells.entering (tells : Tells around survey before state) (labels : LoopLabels) :
    Tells around survey before (state.entering labels) :=
  tells.quietly (.of_quiet (.refl _) rfl rfl rfl fun _ _ => id)

/-! ## Constants and names -/

/-- A constant stands in its place, and the others stay in theirs. -/
theorem items_add {α : Type} [BEq α] [LawfulBEq α] [Hashable α] {limit : Nat}
    {table table' : ConstantTable α} {item : α} {index : UInt16}
    (added : table.add limit item = (some index, table')) :
    table'.items[index.toNat]? = some item ∧
      ∀ (place : Nat) other, table.items[place]? = some other → table'.items[place]? = some other := by
  refine ⟨(table'.places_iff item index).mp (places_add added).1, fun place other found => ?_⟩
  unfold ConstantTable.add at added
  split at added
  · cases added
    exact found
  · split at added
    · cases added
    · cases added
      obtain ⟨inside, same⟩ := Array.getElem?_eq_some_iff.mp found
      rw [Array.getElem?_push_lt inside, same]

theorem Tells.addString {limit : Nat} {value : String} {index : UInt16} {strings : ConstantTable String}
    (tells : Tells around survey before state)
    (added : state.strings.add limit value = (some index, strings)) :
    Tells around survey before { state with strings } :=
  tells.quietly (.of_quiet (.refl _) rfl rfl rfl (items_add added).2)

theorem Tells.addNumber (tells : Tells around survey before state) (numbers : ConstantTable Number) :
    Tells around survey before { state with numbers } :=
  tells.quietly (.of_quiet (.refl _) rfl rfl rfl fun _ _ => id)

/-- A place that has the name in all complete scopes. -/
def Denotes (scopes : Scopes) (around : List (List String)) (name : String) (place : Place) : Prop :=
  match place with
  | .global => ∀ own ∈ around, name ∉ own
  | place => ∀ final, Scopes.Steady scopes final → final.Numbered →
      final.sheet.name? place = some name

theorem Denotes.mono {scopes later : Scopes} (denotes : Denotes scopes around name place)
    (steady : Scopes.Steady scopes later) : Denotes later around name place := by
  cases place with
  | global => exact denotes
  | slot index => exact fun final grown => denotes final (steady.trans grown)
  | capture index => exact fun final grown => denotes final (steady.trans grown)

variable {context : CompileContext} {span : Span}

open Compiling in
/-- A name is resolved to the place that stands for it. -/
theorem tells_resolve (leads : Leads context (resolve name span) before place after)
    (lists : before.scopes.Lists around) :
    Tells around {} before after ∧ Denotes after.scopes around name place := by
  obtain ⟨scopes, resolved, rfl⟩ := leads_resolve.mp leads
  have named := Scopes.named_resolve lists resolved
  refine ⟨.of_quiet (Scopes.knows_resolve resolved).1 (Scopes.argCounts_resolve resolved) rfl rfl fun _ _ => id, ?_⟩
  cases place with
  | global => exact named
  | slot index =>
      exact fun final steady numbered => steady.refines.name? (named (steady.numbered numbered))
  | capture index =>
      exact fun final steady numbered => steady.refines.name? (named (steady.numbered numbered))

open Compiling in
/-- To load from there reads the name. -/
theorem tells_load (leads : Leads context (load place name span) state () after)
    (denotes : Denotes state.scopes around name place) :
    Tells around (.of (.read name)) state after := by
  have loaded := leads_load.mp leads
  cases place with
  | slot index =>
      subst loaded
      exact .push fun catalog final steady numbered _ => .access (.load (denotes final steady numbered)) .nil
  | capture index =>
      subst loaded
      exact .push fun catalog final steady numbered _ => .access (.load (denotes final steady numbered)) .nil
  | global =>
      obtain ⟨index, strings, added, rfl⟩ := loaded
      have pushed : Tells around (.of (.read name)) { state with strings }
          (Compilation.emit { state with strings } .loadGlobal index) :=
        .push fun catalog final _ _ known =>
          .access (.load ⟨known _ _ (items_add added).1, denotes⟩) .nil
      exact ((Tells.refl state).addString added).trans pushed

open Compiling in
/-- And to store there writes it. -/
theorem tells_store (leads : Leads context (store place name span) state () after)
    (denotes : Denotes state.scopes around name place) :
    Tells around (.of (.write name)) state after := by
  cases place with
  | slot index =>
      have stored : after = state.emit .storeLocal index := leads_store leads
      subst stored
      exact .push fun catalog final steady numbered _ =>
        .access (.store (denotes final steady numbered)) .nil
  | capture index =>
      have stored : after = state.emit .storeUpvalue index := leads_store leads
      subst stored
      exact .push fun catalog final steady numbered _ =>
        .access (.store (denotes final steady numbered)) .nil
  | global =>
      obtain ⟨index, strings, added, rfl⟩ := leads_store leads
      have pushed : Tells around (.of (.write name)) { state with strings }
          (Compilation.emit { state with strings } .storeGlobal index) :=
        .push fun catalog final _ _ known =>
          .access (.store ⟨known _ _ (items_add added).1, denotes⟩) .nil
      exact ((Tells.refl state).addString added).trans pushed

/-- A known name denotes its slot, and the functions around stay as they are. -/
theorem declareSlot_known {slot : UInt16}
    (leads : Compiling.Leads context (Compiling.declareSlot name span) before slot after)
    (inside : before.scopes ≠ []) (lists : before.scopes.Lists around)
    (known : ∀ own ∈ around.head?, name ∈ own) :
    after = before ∧ Denotes before.scopes around name (.slot slot) := by
  have declared := Compiling.leads_declareSlot.mp leads
  cases listed : before.scopes with
  | nil => exact absurd listed inside
  | cons scope outer =>
      rw [listed] at declared lists
      obtain ⟨scope', declared, rfl⟩ := declared
      cases lists with
      | cons own _ =>
          have there : name ∈ scope.slots := (own.mem name).mpr (known _ rfl)
          unfold FunctionScope.declare at declared
          split at declared
          · rename_i index found
            cases declared
            refine ⟨by rw [← listed], fun final steady numbered => ?_⟩
            exact steady.refines.name? (Scopes.name?_slot own.few found)
          · rename_i missing
            exact absurd there (FunctionScope.find?_eq_none.mp missing)

/-- The value on top goes to the slot of a name. -/
theorem Tells.keep {slot : UInt16} (tells : Tells around survey before state)
    (denotes : Denotes state.scopes around name (.slot slot)) :
    Tells around (survey ++ .of (.write name)) before ((state.emit .storeLocal slot).emit .pop) := by
  refine (tells.trans ?_).emit .pop
  exact .push fun catalog final steady numbered _ =>
        .access (.store (denotes final steady numbered)) .nil

/-- At the top level a global is declared. -/
theorem Tells.declareGlobal {index : UInt16} (tells : Tells [] survey before state)
    (known : state.strings.items[index.toNat]? = some name) :
    Tells [] (survey ++ .of (.declare name)) before (state.emit .declareGlobal index) :=
  tells.trans <| .push fun _ _ _ _ strings => .access (.declare rfl (strings _ _ known)) .nil

/-- At the top level the value on top goes to a global. -/
theorem Tells.define {index : UInt16} (tells : Tells around survey before state) (topLevel : around = [])
    (known : state.strings.items[index.toNat]? = some name) :
    Tells around (survey ++ .of (.write name)) before (state.emit .defineGlobal index) := by
  refine tells.trans (.push fun catalog final _ _ strings => .access (.store ⟨strings _ _ known, ?_⟩) .nil)
  rw [topLevel]
  exact fun _ member => absurd member List.not_mem_nil

end Compilation

end PocketScript
