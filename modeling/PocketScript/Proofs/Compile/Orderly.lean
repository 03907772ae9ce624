import Mathlib
import PocketScript.Proofs.Compile.Captures
import PocketScript.Proofs.Compile.Origin
import PocketScript.Proofs.Compile.Shaped
import PocketScript.Proofs.Token.Lexemes

/-!
# Operands refer to what there is

Whatever is compiled refers to slots, captures, constants and functions that are there
(`Compilation.Orderly`): an operand is chosen when they are known, and from then on there are only
more of them. The functions that are completed on the way are found behind those there were, each
with its origin.
-/

namespace PocketScript

/-- An operation without an operand that refers to anything. -/
def Opcode.isFree (op : Opcode) : Bool :=
  !op.refersToSlot && !op.refersToCell && op != .makeCell && !op.refersToUpvalue &&
    op != .pushNumber && !op.refersToString && !op.refersToFunction

theorem Resources.allow_free {resources : Resources} {index : Nat}
    {instr : PendingInstruction} (free : instr.op.isFree = true) :
    resources.Allow index instr := by
  simp only [Opcode.isFree, Bool.and_eq_true, Bool.not_eq_true', bne_iff_ne] at free
  obtain ⟨⟨⟨⟨⟨⟨slot, cell⟩, box⟩, capture⟩, number⟩, string⟩, function⟩ := free
  refine ⟨fun refers => ?_, fun refers => ?_, box, fun refers => ?_, fun op => absurd op number,
    fun refers => ?_, fun refers => ?_⟩
  · cases slot.symm.trans refers
  · cases cell.symm.trans refers
  · cases capture.symm.trans refers
  · cases string.symm.trans refers
  · cases function.symm.trans refers

/-- The function at a place has an origin. -/
def FunctionDef.Completed (function : FunctionDef) (numbers strings : Nat)
    (functions : Array FunctionDef) (place : Nat) : Prop :=
  ∃ origin : Origin, origin.Yields numbers strings functions place function

namespace Compilation

variable {before middle after state state' : Compilation}

/-- What there is to refer to in the innermost function. -/
def resources (state : Compilation) (first : Nat) : Resources where
  slots := state.scopes.slotCount
  isCaptured slot := Scopes.IsCaptured slot state.scopes
  captures := state.scopes.captureCount
  numbers := state.numbers.items.size
  strings := state.strings.items.size
  functions := state.functions
  first

/-- What was compiled keeps what there was, and refers to what there is. -/
structure Orderly (before after : Compilation) : Prop where
  sane : after.scopes.Sane
  scopes : Scopes.Widen before.scopes after.scopes
  numbers : before.numbers.items.size ≤ after.numbers.items.size
  strings : before.strings.items.size ≤ after.strings.items.size
  functions : ∀ (index : Nat) function, before.functions[index]? = some function →
    after.functions[index]? = some function
  pending : ∀ (index : Nat) instr, before.assembler.pending[index]? = some instr →
    after.assembler.pending[index]? = some instr
  allowed : ∀ (index : Nat) instr, before.size ≤ index →
    after.assembler.pending[index]? = some instr →
      (after.resources before.functions.size).Allow index instr
  /-- The variables captured since then are pushed somewhere. -/
  pushed : ∀ slot, Scopes.IsCaptured slot after.scopes → Scopes.IsCaptured slot before.scopes ∨
    ∃ index : Nat, after.assembler.pending[index]? =
      some ⟨.pushCell, UInt16.ofNat slot, 0, none⟩
  completed : ∀ (index : Nat) function, before.functions.size ≤ index →
    after.functions[index]? = some function →
      function.Completed after.numbers.items.size after.strings.items.size after.functions index

/-- Tables of constants and scopes change, the code does not. -/
theorem Orderly.of_kept (sane : after.scopes.Sane) (scopes : Scopes.Widen before.scopes after.scopes)
    (captured : ∀ slot, Scopes.IsCaptured slot after.scopes → Scopes.IsCaptured slot before.scopes)
    (numbers : before.numbers.items.size ≤ after.numbers.items.size)
    (strings : before.strings.items.size ≤ after.strings.items.size)
    (functions : after.functions = before.functions)
    (pending : after.assembler.pending = before.assembler.pending) : Orderly before after where
  sane := sane
  scopes := scopes
  numbers := numbers
  strings := strings
  functions index function found := functions ▸ found
  pending index instr found := pending ▸ found
  allowed index instr new found := by
    rw [pending, Array.getElem?_eq_none new] at found
    cases found
  pushed slot now := .inl (captured slot now)
  completed index function new found := by
    rw [functions, Array.getElem?_eq_none new] at found
    cases found

/-- Only what nothing refers to has changed. -/
theorem Orderly.of_eq (sane : before.scopes.Sane) (scopes : after.scopes = before.scopes)
    (numbers : after.numbers = before.numbers) (strings : after.strings = before.strings)
    (functions : after.functions = before.functions)
    (pending : after.assembler.pending = before.assembler.pending) : Orderly before after :=
  .of_kept (scopes ▸ sane) (scopes ▸ .refl _) (fun _ captured => scopes ▸ captured)
    (Nat.le_of_eq (congrArg (·.items.size) numbers.symm))
    (Nat.le_of_eq (congrArg (·.items.size) strings.symm)) functions pending

/-- Nothing has to be done. -/
theorem Orderly.refl (sane : before.scopes.Sane) : Orderly before before :=
  .of_eq sane rfl rfl rfl rfl rfl

/-- Code is only added. -/
theorem Orderly.size_le (orderly : Orderly before after) : before.size ≤ after.size :=
  size_le_of_getElem? orderly.pending

/-- And so are functions. -/
theorem Orderly.functions_le (orderly : Orderly before after) :
    before.functions.size ≤ after.functions.size :=
  size_le_of_getElem? orderly.functions

/-- There is more to refer to afterwards. -/
theorem Orderly.within (orderly : Orderly before after) {less more : Nat} (first : less ≤ more) :
    (before.resources more).Within (after.resources less) :=
  ⟨orderly.scopes.slotCount_le, fun _ => orderly.scopes.isCaptured, orderly.scopes.captureCount_le,
    orderly.numbers, orderly.strings, fun index function _ => orderly.functions index function,
    first⟩

/-- What is orderly may be done step by step. -/
theorem Orderly.trans (first : Orderly before middle) (second : Orderly middle after) :
    Orderly before after where
  sane := second.sane
  scopes := first.scopes.trans second.scopes
  numbers := Nat.le_trans first.numbers second.numbers
  strings := Nat.le_trans first.strings second.strings
  functions index function found := second.functions _ _ (first.functions _ _ found)
  pending index instr found := second.pending _ _ (first.pending _ _ found)
  allowed index instr new found := by
    by_cases inside : index < middle.assembler.pending.size
    · have earlier := Array.getElem?_eq_getElem inside
      cases (second.pending _ _ earlier).symm.trans found
      exact (first.allowed index _ new earlier).mono (second.within (Nat.le_refl _))
    · exact (second.allowed index instr (Nat.le_of_not_lt inside) found).mono
        ((Orderly.refl second.sane).within first.functions_le)
  pushed slot captured := by
    obtain earlier | now := second.pushed slot captured
    · exact (first.pushed slot earlier).imp_right fun ⟨index, found⟩ =>
        ⟨index, second.pending _ _ found⟩
    · exact .inr now
  completed index function new found := by
    by_cases inside : index < middle.functions.size
    · have earlier := Array.getElem?_eq_getElem inside
      cases (second.functions _ _ earlier).symm.trans found
      obtain ⟨origin, yields⟩ := first.completed index _ new earlier
      exact ⟨origin, yields.mono second.numbers second.strings fun index other _ =>
        second.functions index other⟩
    · exact second.completed index function (Nat.le_of_not_lt inside) found

/-! ## Instructions -/

/-- An instruction that refers to what there is. -/
theorem Orderly.push (orderly : Orderly before state) {instr : PendingInstruction}
    (allow : (state.resources before.functions.size).Allow state.size instr) :
    Orderly before (state.assembling (·.push instr)) where
  sane := orderly.sane
  scopes := orderly.scopes
  numbers := orderly.numbers
  strings := orderly.strings
  functions := orderly.functions
  pending index other found := (grows_push state instr).pending index other
    (orderly.pending index other found)
  allowed index other new found := by
    change (state.assembler.pending.push instr)[index]? = some other at found
    rw [Array.getElem?_push] at found
    split at found
    · rename_i last
      cases found
      rw [last]
      exact allow
    · exact orderly.allowed index other new found
  pushed slot captured := (orderly.pushed slot captured).imp_right fun ⟨index, found⟩ =>
    ⟨index, (grows_push state instr).pending _ _ found⟩
  completed := orderly.completed

theorem Orderly.emit (orderly : Orderly before state) {op : Opcode} {a b : UInt16}
    (allow : (state.resources before.functions.size).Allow state.size ⟨op, a, b, none⟩) :
    Orderly before (state.emit op a b) :=
  orderly.push allow

/-- An instruction that refers to nothing. -/
theorem Orderly.emitFree (orderly : Orderly before state) (op : Opcode) (a : UInt16 := 0)
    (b : UInt16 := 0) (free : op.isFree = true := by rfl) : Orderly before (state.emit op a b) :=
  orderly.push (Resources.allow_free free)

/-- A jump refers to a label only. -/
theorem Orderly.emitJump (orderly : Orderly before state) (op : Opcode) (target : Label)
    (free : op.isFree = true := by rfl) : Orderly before (state.emitJump op target) :=
  orderly.push (Resources.allow_free free)

/-- Labels are no resources. -/
theorem Orderly.addLabel (orderly : Orderly before state) : Orderly before state.addLabel :=
  orderly.trans (.of_eq orderly.sane rfl rfl rfl rfl rfl)

/-- Wherever they are placed. -/
theorem Orderly.placeLabel (orderly : Orderly before state) (label : Label) :
    Orderly before (state.placeLabel label) :=
  orderly.trans (.of_eq orderly.sane rfl rfl rfl rfl rfl)

/-- Neither is the depth of the stack. -/
theorem Orderly.setDepth (orderly : Orderly before state) (depth : Int) :
    Orderly before (state.setDepth depth) :=
  orderly.trans (.of_eq orderly.sane rfl rfl rfl rfl rfl)

/-- A new global takes nothing away. -/
theorem Orderly.addGlobal (orderly : Orderly before state) (name : String) :
    Orderly before (state.addGlobal name) :=
  orderly.trans (.of_eq orderly.sane rfl rfl rfl rfl rfl)

/-- A loop may be left. -/
theorem Orderly.leaving (orderly : Orderly before state) (outer : Compilation) :
    Orderly before (state.leaving outer) :=
  orderly.trans (.of_eq orderly.sane rfl rfl rfl rfl rfl)

/-- And it may be entered. -/
theorem Orderly.entering (orderly : Orderly before state) (labels : LoopLabels) :
    Orderly before (state.entering labels) :=
  orderly.trans (.of_eq orderly.sane rfl rfl rfl rfl rfl)

/-! ## Constants and names -/

/-- A constant has a place in the table, which only grows. -/
theorem size_add {α : Type} [BEq α] [LawfulBEq α] [Hashable α] {limit : Nat}
    {table table' : ConstantTable α} {item : α} {index : UInt16}
    (added : table.add limit item = (some index, table')) :
    table.items.size ≤ table'.items.size ∧ index.toNat < table'.items.size := by
  obtain ⟨inside, -⟩ := Array.getElem?_eq_some_iff.mp
    ((table'.places_iff item index).mp (places_add added).1)
  refine ⟨?_, inside⟩
  unfold ConstantTable.add at added
  split at added
  · cases added
    exact Nat.le_refl _
  · split at added
    · cases added
    · cases added
      rw [Array.size_push]
      exact Nat.le_succ _

theorem Orderly.addNumber {limit : Nat} {value : Number} {index : UInt16} {numbers}
    (orderly : Orderly before state)
    (added : state.numbers.add limit value = (some index, numbers)) :
    Orderly before { state with numbers } ∧ index.toNat < numbers.items.size :=
  ⟨orderly.trans (.of_kept orderly.sane (.refl _) (fun _ => id) (size_add added).1 (Nat.le_refl _)
    rfl rfl), (size_add added).2⟩

theorem Orderly.addString {limit : Nat} {value : String} {index : UInt16} {strings}
    (orderly : Orderly before state)
    (added : state.strings.add limit value = (some index, strings)) :
    Orderly before { state with strings } ∧ index.toNat < strings.items.size :=
  ⟨orderly.trans (.of_kept orderly.sane (.refl _) (fun _ => id) (Nat.le_refl _) (size_add added).1
    rfl rfl), (size_add added).2⟩

variable {context : CompileContext}

open Compiling in
/-- Whatever a name denotes is there. -/
theorem orderly_resolve {name : String} {span : Span} {place : Place}
    (leads : Leads context (resolve name span) before place after) (sane : before.scopes.Sane) :
    Orderly before after ∧ after.scopes.Has place := by
  obtain ⟨scopes, resolved, rfl⟩ := leads_resolve.mp leads
  obtain ⟨sane', widen, has, captured⟩ := Scopes.resolve_widens sane resolved
  exact ⟨.of_kept sane' widen captured (Nat.le_refl _) (Nat.le_refl _) rfl rfl, has⟩

/-- A scope with another innermost function, which captures the same and has further slots. -/
theorem orderly_head {scope scope' : FunctionScope} {outer : Scopes}
    (listed : before.scopes = scope :: outer) (sane : before.scopes.Sane) (proper : scope'.Proper)
    (widens : scope.Widens scope') (captures : scope'.captures = scope.captures)
    (captured : ∀ slot, scope'.Captured slot → scope.Captured slot) :
    Orderly before { before with scopes := scope' :: outer } := by
  rw [listed] at sane
  obtain ⟨-, found, saneOuter⟩ := sane
  refine .of_kept ⟨proper, fun source member => found source (captures ▸ member), saneOuter⟩
    ?_ (fun slot now => ?_) (Nat.le_refl _) (Nat.le_refl _) rfl rfl
  · rw [listed]
    exact .head widens
  · rw [listed]
    exact captured slot now

open Compiling in
/-- A declared name has a slot of the innermost function. -/
theorem orderly_declareSlot {name : String} {span : Span} {slot : UInt16}
    (leads : Leads context (declareSlot name span) before slot after) (sane : before.scopes.Sane) :
    Orderly before after ∧ slot.toNat < after.scopes.slotCount := by
  have declared := leads_declareSlot.mp leads
  split at declared
  · rename_i none
    obtain ⟨rfl, rfl⟩ := declared
    rw [none]
    exact ⟨.refl sane, Nat.zero_lt_one⟩
  · rename_i scope outer listed
    obtain ⟨scope', declared, rfl⟩ := declared
    have proper : scope.Proper := by
      rw [listed] at sane
      exact sane.1
    obtain ⟨proper', widens, inside, captures, captured⟩ :=
      FunctionScope.declare_widens proper declared
    exact ⟨orderly_head listed sane proper' widens captures captured, inside⟩

open Compiling in
/-- The names declared ahead add slots. -/
theorem orderly_declareAhead {names : List (String × Span)}
    (leads : Leads context (declareAhead names) before () after) (sane : before.scopes.Sane) :
    Orderly before after := by
  induction names generalizing before with
  | nil =>
      obtain ⟨-, rfl⟩ := leads_pure.mp leads
      exact .refl sane
  | cons first rest ih =>
      rw [declareAhead] at leads
      obtain ⟨middle, declared, leads⟩ := leads_seq.mp leads
      obtain ⟨slot, declared⟩ := leads_discard.mp declared
      have one := (orderly_declareSlot declared sane).1
      exact one.trans (ih leads one.sane)

open Compiling in
/-- And so do parameters. -/
theorem orderly_declareParams {names : List (String × Span)}
    (leads : Leads context (declareParams names) before () after) (sane : before.scopes.Sane) :
    Orderly before after := by
  induction names generalizing before with
  | nil =>
      obtain ⟨-, rfl⟩ := leads_pure.mp leads
      exact .refl sane
  | cons first rest ih =>
      rw [declareParams] at leads
      obtain ⟨_, _, got, leads⟩ := leads_bind.mp leads
      obtain ⟨rfl, rfl⟩ := leads_get.mp got
      split at leads
      · exact ih leads sane
      · rename_i scope outer listed
        simp only [slotLimit, leads_bind, leads_read, leads_pure, leads_orComplain,
          leads_modify] at leads
        obtain ⟨_, _, ⟨_, _, ⟨rfl, rfl⟩, rfl, rfl⟩, ⟨_, scope'⟩, _, ⟨declared, rfl⟩, _, _, rfl,
          leads⟩ := leads
        have proper : scope.Proper := by
          rw [listed] at sane
          exact sane.1
        obtain ⟨proper', widens, captures, captured⟩ :=
          FunctionScope.declareParameter_widens proper declared
        have one := orderly_head listed sane proper' widens captures captured
        exact one.trans (ih leads one.sane)

open Compiling in
/-- Globals add nothing that operands refer to. -/
theorem orderly_addGlobals {names : List (String × Span)}
    (leads : Leads context (addGlobals names) before () after) (sane : before.scopes.Sane) :
    Orderly before after := by
  induction names generalizing before with
  | nil =>
      obtain ⟨-, rfl⟩ := leads_pure.mp leads
      exact .refl sane
  | cons first rest ih =>
      rw [addGlobals] at leads
      obtain ⟨_, added, leads⟩ := leads_seq.mp leads
      obtain rfl := leads_modify.mp added
      exact ((Orderly.refl sane).addGlobal first.1).trans (ih leads sane)

open Compiling in
theorem orderly_addString {value : String} {span : Span} {index : UInt16}
    (leads : Leads context (addString value span) before index after) (sane : before.scopes.Sane) :
    Orderly before after ∧ index.toNat < after.strings.items.size := by
  obtain ⟨strings, added, rfl⟩ := leads_addString.mp leads
  exact (Orderly.refl sane).addString added

/-- An instruction may name a string constant. -/
theorem Resources.allow_named {resources : Resources} {index : Nat} {op : Opcode} {a : UInt16}
    (inside : a.toNat < resources.strings) (named : op.refersToString = true) :
    resources.Allow index ⟨op, a, 0, none⟩ := by
  refine ⟨fun refers => ?_, fun refers => ?_, fun refers => ?_, fun refers => ?_,
    fun refers => ?_, fun _ => inside, fun refers => ?_⟩
  all_goals cases op <;> first | (cases named; done) | cases refers

/-- An instruction that refers to a string constant. -/
theorem Orderly.emitNamed {limit : Nat} {value : String} {op : Opcode} {index : UInt16} {strings}
    (orderly : Orderly before state)
    (added : state.strings.add limit value = (some index, strings))
    (named : op.refersToString = true) :
    Orderly before (Compilation.emit { state with strings } op index) := by
  obtain ⟨extended, inside⟩ := orderly.addString added
  exact extended.emit (Resources.allow_named inside named)

theorem Resources.allow_cell {resources : Resources} {index : Nat} {a : UInt16}
    (captured : resources.isCaptured a.toNat) :
    resources.Allow index ⟨.pushCell, a, 0, none⟩ := by
  refine ⟨fun refers => ?_, fun _ => ⟨rfl, captured⟩, fun refers => ?_, fun refers => ?_,
    fun refers => ?_, fun refers => ?_, fun refers => ?_⟩
  all_goals cases refers

theorem Resources.allow_number {resources : Resources} {index : Nat} {a : UInt16}
    (inside : a.toNat < resources.numbers) :
    resources.Allow index ⟨.pushNumber, a, 0, none⟩ := by
  refine ⟨fun refers => ?_, fun refers => ?_, fun refers => ?_, fun refers => ?_, fun _ => inside,
    fun refers => ?_, fun refers => ?_⟩
  all_goals cases refers

/-- An access to a variable that is there. -/
theorem Resources.allow_access {resources : Resources} {index : Nat} {op : Opcode} {a : UInt16}
    (slot : op.refersToSlot = true → a.toNat < resources.slots)
    (capture : op.refersToUpvalue = true → a.toNat < resources.captures)
    (access : op.refersToSlot = true ∨ op.refersToUpvalue = true) :
    resources.Allow index ⟨op, a, 0, none⟩ := by
  refine ⟨slot, fun refers => ?_, fun refers => ?_, capture, fun refers => ?_, fun refers => ?_,
    fun refers => ?_⟩
  all_goals
    cases op <;> first | (cases refers; done) |
      (obtain impossible | impossible := access <;> cases impossible)

open Compiling in
/-- A place that there is may be loaded from. -/
theorem Orderly.load {place : Place} {name : String} {span : Span}
    (orderly : Orderly before state) (has : state.scopes.Has place)
    (leads : Leads context (load place name span) state () after) : Orderly before after := by
  have loaded := leads_load.mp leads
  cases place with
  | slot index =>
      subst loaded
      exact orderly.emit (Resources.allow_access (fun _ => has) (fun refers => by cases refers)
        (.inl rfl))
  | capture index =>
      subst loaded
      exact orderly.emit (Resources.allow_access (fun refers => by cases refers) (fun _ => has)
        (.inr rfl))
  | global =>
      obtain ⟨index, strings, added, rfl⟩ := loaded
      exact orderly.emitNamed added rfl

open Compiling in
/-- And stored to. -/
theorem Orderly.store {place : Place} {name : String} {span : Span}
    (orderly : Orderly before state) (has : state.scopes.Has place)
    (leads : Leads context (store place name span) state () after) : Orderly before after := by
  cases place with
  | slot index =>
      have stored : after = state.emit .storeLocal index := leads_store leads
      rw [stored]
      exact orderly.emit (Resources.allow_access (fun _ => has) (fun refers => by cases refers)
        (.inl rfl))
  | capture index =>
      have stored : after = state.emit .storeUpvalue index := leads_store leads
      rw [stored]
      exact orderly.emit (Resources.allow_access (fun refers => by cases refers) (fun _ => has)
        (.inr rfl))
  | global =>
      obtain ⟨index, strings, added, rfl⟩ := leads_store leads
      exact orderly.emitNamed added rfl

/-- The value on top goes to a slot that is there. -/
theorem Orderly.keep (orderly : Orderly before state) {slot : UInt16}
    (inside : slot.toNat < state.scopes.slotCount) :
    Orderly before ((state.emit .storeLocal slot).emit .pop) :=
  (orderly.emit (Resources.allow_access (fun _ => inside) (fun refers => by cases refers)
    (.inl rfl))).emitFree .pop

/-- What there is for a value to go to: a slot of the function, or the name of a global. -/
def Offers (state : Compilation) : Sink → Prop
  | .drop => True
  | .slot slot => slot.toNat < state.scopes.slotCount
  | .global name => name.toNat < state.strings.items.size

/-- It is still there later. -/
theorem Orderly.offers (orderly : Orderly before after) {sink : Sink} (offers : before.Offers sink) :
    after.Offers sink := by
  cases sink with
  | drop => trivial
  | slot slot => exact Nat.lt_of_lt_of_le offers orderly.scopes.slotCount_le
  | global name => exact Nat.lt_of_lt_of_le offers orderly.strings

theorem Orderly.sinking (orderly : Orderly before state) {sink : Sink} (offers : state.Offers sink) :
    Orderly before (state.sinking sink) := by
  cases sink with
  | drop => exact orderly.emitFree _
  | slot slot => exact orderly.keep offers
  | global name => exact orderly.emit (Resources.allow_named offers rfl)

/-- The place of a name is there. -/
theorem orderly_placed {name : String} {span : Span} {sink : Sink} {placed : Compilation}
    (places : Compiling.Placed context name span before sink placed) (sane : before.scopes.Sane) :
    Orderly before placed ∧ placed.Offers sink := by
  cases places with
  | global _ added =>
      obtain ⟨one, inside⟩ := orderly_addString added sane
      exact ⟨one.addGlobal name, inside⟩
  | slot _ declared => exact orderly_declareSlot declared sane

/-! ## Functions -/

/-- The instruction that pushes what a function captures. -/
def pushing : CaptureSource → PendingInstruction
  | .outerSlot index => ⟨.pushCell, index, 0, none⟩
  | .outerCapture index => ⟨.pushUpvalue, index, 0, none⟩

theorem pushCaptures_eq (state : Compilation) (sources : List CaptureSource) :
    state.pushCaptures sources =
      sources.foldl (fun state source => state.assembling (·.push (pushing source))) state := by
  unfold pushCaptures
  congr 1
  funext state source
  cases source <;> rfl

/-- What a function captures is there to be pushed. -/
theorem Orderly.pushCaptures {sources : List CaptureSource} (orderly : Orderly before state)
    (found : ∀ source ∈ sources, source.FoundIn state.scopes) :
    Orderly before (state.pushCaptures sources) ∧
      ∀ source ∈ sources, ∃ index : Nat,
        (state.pushCaptures sources).assembler.pending[index]? = some (pushing source) := by
  rw [pushCaptures_eq]
  induction sources generalizing state with
  | nil => exact ⟨orderly, fun _ member => by cases member⟩
  | cons source rest ih =>
      have there := found source List.mem_cons_self
      have allow : (state.resources before.functions.size).Allow state.size (pushing source) := by
        obtain ⟨scope, outer, listed⟩ : ∃ scope outer, state.scopes = scope :: outer := by
          cases listed : state.scopes with
          | nil =>
              rw [listed] at there
              cases there
          | cons scope outer => exact ⟨scope, outer, rfl⟩
        unfold resources
        rw [listed] at there ⊢
        cases source with
        | outerSlot index => exact Resources.allow_cell there
        | outerCapture index =>
            exact Resources.allow_access (fun refers => by cases refers) (fun _ => there) (.inr rfl)
      obtain ⟨others, pushed⟩ := ih (orderly.push allow) fun other member =>
        found other (List.mem_cons_of_mem _ member)
      refine ⟨others, fun other member => ?_⟩
      obtain rfl | later := List.mem_cons.mp member
      · have grows := (adds_pushCaptures (state.assembling (·.push (pushing other))) rest).1.grows
        rw [pushCaptures_eq] at grows
        exact ⟨state.size, grows.pending _ _ Array.getElem?_push_size⟩
      · exact pushed other later

/-- The instruction that creates the value of a function. -/
theorem Resources.allow_created {resources : Resources} {index place count : Nat}
    {function : FunctionDef} {op : Opcode} {b : UInt16} (few : place ≤ 65535)
    (new : resources.first ≤ place) (there : resources.functions[place]? = some function)
    (uses : function.UsesBelow count) (creates : op.refersToFunction = true)
    (plain : op = .pushFunction → count = 0)
    (closure : op = .makeClosure → b = UInt16.ofNat count ∧ count ≤ index) :
    resources.Allow index ⟨op, UInt16.ofNat place, b, none⟩ := by
  have same := toNat_ofNat_of_le few
  refine ⟨fun refers => ?_, fun refers => ?_, fun refers => ?_, fun refers => ?_,
    fun refers => ?_, fun refers => ?_, fun _ => ?_⟩
  case refine_7 =>
    simp only [same]
    exact ⟨new, function, count, there, uses, plain, closure⟩
  all_goals cases op <;> first | (cases creates; done) | cases refers

/-- The functions around an inner one, which captures whatever is captured in them since. -/
theorem Orderly.innermost (inner : Orderly before.opened state) :
    ∃ scope outer, state.scopes = scope :: outer ∧ Scopes.Widen before.scopes outer ∧
      ∀ slot, Scopes.IsCaptured slot outer →
        Scopes.IsCaptured slot before.scopes ∨ .outerSlot (UInt16.ofNat slot) ∈ scope.captures := by
  have scopes := inner.scopes
  cases listed : state.scopes with
  | nil =>
      rw [listed] at scopes
      cases scopes
  | cons scope outer =>
      rw [listed] at scopes
      cases scopes with
      | cons _ tail captured => exact ⟨scope, outer, rfl, tail, captured⟩

/-- A function that starts captures nothing. -/
theorem sane_opened (sane : before.scopes.Sane) : before.opened.scopes.Sane :=
  ⟨⟨rfl, Nat.zero_le _, Nat.le_refl _⟩, fun _ member => (by cases member; contradiction), sane⟩

theorem size_opened (state : Compilation) :
    state.opened.functions.size = state.functions.size + 1 :=
  Array.size_push _

/-- A function is completed from what was collected in it. -/
theorem Orderly.yields {scope : FunctionScope} {outer : Scopes} {function : FunctionDef}
    {body : List Stmt} {flow : Flow} (inner : Orderly before.opened state)
    (listed : state.scopes = scope :: outer)
    (finished : state.assembler.finish scope.slots.size scope.argCount scope.captured
      (!scope.captures.isEmpty) = .ok function)
    (layout : (CompleteCode.plain state.assembler).BodyAt body flow) :
    Origin.Yields ⟨state.assembler, scope.slots.size, scope.argCount, scope.captured,
      scope.captures.size, !scope.captures.isEmpty, body, flow⟩ state.numbers.items.size
        state.strings.items.size state.functions before.functions.size function := by
  obtain ⟨proper, -⟩ : scope.Proper ∧ True := by
    have sane := inner.sane
    rw [listed] at sane
    exact ⟨sane.1, trivial⟩
  refine ⟨finished, layout, fun index instr there => ?_, proper.small, proper.args,
    Nat.le_of_eq proper.captured, fun slot captured => ?_⟩
  · have allow := inner.allowed index instr (Nat.zero_le _) there
    unfold resources at allow
    rw [listed, size_opened] at allow
    exact allow
  · have now : Scopes.IsCaptured slot state.scopes := by
      rw [listed]
      exact captured
    obtain impossible | pushed := inner.pushed slot now
    · cases impossible
    · exact pushed

/-- The state in front of a function, with the constants of the function and with its captures in
the functions around it, which are not pushed yet. -/
def owing (before state : Compilation) : Compilation :=
  { before with scopes := state.scopes.tail, numbers := state.numbers, strings := state.strings }

/-- The completed function gets its place in the table. -/
theorem Orderly.closed {function : FunctionDef} (inner : Orderly before.opened state)
    (sane : Scopes.Sane state.scopes.tail)
    (completed : function.Completed state.numbers.items.size state.strings.items.size
      state.functions before.functions.size) :
    Orderly (before.owing state) (state.closed before function) ∧
      (state.closed before function).functions[before.functions.size]? = some function := by
  have opened := size_opened before
  have inside : before.functions.size < state.functions.size :=
    Nat.lt_of_lt_of_le (by omega) inner.functions_le
  have placed : (state.closed before function).functions[before.functions.size]? = some function :=
    Array.getElem?_setIfInBounds_self_of_lt inside
  have others : ∀ index ≠ before.functions.size,
      (state.closed before function).functions[index]? = state.functions[index]? :=
    fun index other => Array.getElem?_setIfInBounds_ne (Ne.symm other)
  have kept : ∀ place, before.functions.size ≤ place → ∀ (index : Nat) other, place < index →
      state.functions[index]? = some other →
        (state.closed before function).functions[index]? = some other :=
    fun place after index other behind there => by
      rw [others index (by omega)]
      exact there
  refine ⟨⟨sane, .refl _, Nat.le_refl _, Nat.le_refl _, fun index other there => ?_, fun _ _ => id,
    fun index instr new there => ?_, fun slot captured => .inl captured,
    fun index other new there => ?_⟩, placed⟩
  · have earlier : before.functions[index]? = some other := there
    obtain ⟨bound, same⟩ := Array.getElem?_eq_some_iff.mp earlier
    rw [others index (Nat.ne_of_lt bound)]
    refine inner.functions index other ?_
    change (before.functions.push default)[index]? = _
    rw [Array.getElem?_push_lt bound, same]
  · have earlier : before.assembler.pending[index]? = some instr := there
    have none : before.assembler.pending[index]? = none := Array.getElem?_eq_none new
    cases earlier.symm.trans none
  · by_cases here : index = before.functions.size
    · subst here
      cases placed.symm.trans there
      obtain ⟨origin, yields⟩ := completed
      exact ⟨origin, yields.mono (Nat.le_refl _) (Nat.le_refl _) (kept _ (Nat.le_refl _))⟩
    · rw [others index here] at there
      have behind : before.functions.size < index := Nat.lt_of_le_of_ne new (Ne.symm here)
      obtain ⟨origin, yields⟩ := inner.completed index other (opened ▸ behind) there
      exact ⟨origin, yields.mono (Nat.le_refl _) (Nat.le_refl _) (kept _ new)⟩

/-- When what a function captures has been pushed, everything is as it was in front of it. -/
theorem Orderly.of_owing (inner : Orderly before.opened state)
    (widen : Scopes.Widen before.scopes state.scopes.tail)
    (pushed : ∀ slot, Scopes.IsCaptured slot state.scopes.tail →
      Scopes.IsCaptured slot before.scopes ∨ ∃ index : Nat,
        after.assembler.pending[index]? = some ⟨.pushCell, UInt16.ofNat slot, 0, none⟩)
    (orderly : Orderly (before.owing state) after) : Orderly before after where
  sane := orderly.sane
  scopes := widen.trans orderly.scopes
  numbers := Nat.le_trans inner.numbers orderly.numbers
  strings := Nat.le_trans inner.strings orderly.strings
  functions := orderly.functions
  pending := orderly.pending
  allowed := orderly.allowed
  pushed slot captured := by
    obtain earlier | now := orderly.pushed slot captured
    · exact pushed slot earlier
    · exact .inr now
  completed := orderly.completed

open Compiling in
/-- A function is completed, and its value is created. -/
theorem orderly_closed {span : Span} (few : before.functions.size ≤ 65535)
    (inner : Orderly before.opened state)
    (layout : state.assembler.pending.size ≤ 65535 → ∃ body flow,
      (CompleteCode.plain state.assembler).BodyAt body flow)
    (leads : Leads context
      (closeFunction span before.functions.size before.assembler before.loops) state () after) :
    Orderly before after := by
  obtain ⟨function, finished, same⟩ := leads_closeFunction.mp leads
  obtain ⟨scope, outer, listed, widen, marked⟩ := inner.innermost
  have innermost : state.scope = scope := by
    rw [Compilation.scope, listed]
    rfl
  have tail : state.scopes.tail = outer := by
    rw [listed]
    rfl
  have sane := inner.sane
  rw [listed] at sane
  obtain ⟨-, found, saneOuter⟩ := sane
  rw [innermost] at finished same
  obtain ⟨body, flow, at_⟩ := layout (Assembler.pending_size_le finished)
  have yields := inner.yields listed finished at_
  obtain ⟨closed, placed⟩ := inner.closed (tail ▸ saneOuter) ⟨_, yields⟩
  obtain ⟨captured, pushed⟩ := @Orderly.pushCaptures _ _ scope.captures.toList closed
    fun source member => by
      change source.FoundIn state.scopes.tail
      rw [tail]
      exact found source (Array.mem_toList_iff.mp member)
  obtain ⟨-, count, -⟩ := adds_pushCaptures (state.closed before function) scope.captures.toList
  have uses : function.UsesBelow scope.captures.size := yields.usesBelow
  have there : ((state.closed before function).pushCaptures scope.captures.toList).functions[
      before.functions.size]? = some function :=
    (adds_pushCaptures _ _).1.functions.1 _ _ placed
  have owed : ∀ slot, Scopes.IsCaptured slot state.scopes.tail →
      Scopes.IsCaptured slot before.scopes ∨ ∃ index : Nat,
        ((state.closed before function).pushCaptures scope.captures.toList).assembler.pending[
          index]? = some ⟨.pushCell, UInt16.ofNat slot, 0, none⟩ := fun slot captured =>
    (marked slot (tail ▸ captured)).imp_right fun source =>
      pushed (.outerSlot (UInt16.ofNat slot)) (Array.mem_toList_iff.mpr source)
  by_cases none : scope.captures.isEmpty = true
  · have empty : scope.captures = #[] := Array.isEmpty_iff.mp none
    rw [if_pos none] at same
    rw [empty] at captured owed there uses
    subst same
    refine .of_owing inner (tail ▸ widen) (fun slot captured => ?_) (captured.emit
      (Resources.allow_created few (Nat.le_refl _) there uses rfl (fun _ => rfl)
        fun op => by cases op))
    exact (owed slot captured).imp_right fun ⟨index, found⟩ =>
      ⟨index, (grows_emit _ _ _ _).pending _ _ found⟩
  · rw [if_neg none] at same
    subst same
    refine .of_owing inner (tail ▸ widen) (fun slot captured => ?_) (captured.emit
      (Resources.allow_created few (Nat.le_refl _) there uses rfl (fun op => by cases op)
        fun _ => ⟨rfl, ?_⟩))
    · exact (owed slot captured).imp_right fun ⟨index, found⟩ =>
        ⟨index, (grows_emit _ _ _ _).pending _ _ found⟩
    · rw [count]
      exact Nat.le_add_left _ _

end Compilation

namespace Compiling

open Compilation

variable {context : CompileContext}

mutual

/-- An expression refers to what there is. -/
theorem orderly_expr : ∀ (tree : Expr) {before after : Compilation},
    Leads context (expr tree) before () after → before.scopes.Sane → Orderly before after
  | .literal value, before, after, leads, sane => by
      obtain rfl := leads_literal.mp leads
      cases value <;> exact (Orderly.refl sane).emitFree _
  | .number value span, before, after, leads, sane => by
      rw [expr] at leads
      have loaded := leads_number.mp leads
      split at loaded
      · subst loaded
        exact (Orderly.refl sane).emitFree _
      · split at loaded
        · subst loaded
          exact (Orderly.refl sane).emitFree _ _
        · obtain ⟨index, numbers, added, rfl⟩ := loaded
          obtain ⟨extended, inside⟩ := (Orderly.refl sane).addNumber added
          exact extended.emit (Resources.allow_number inside)
  | .string value span, before, after, leads, sane => by
      rw [expr] at leads
      obtain ⟨index, strings, added, rfl⟩ := leads_string.mp leads
      exact (Orderly.refl sane).emitNamed added rfl
  | .name ident span, before, after, leads, sane => by
      obtain ⟨place, middle, resolved, loaded⟩ := leads_name.mp leads
      obtain ⟨one, has⟩ := orderly_resolve resolved sane
      exact one.load has loaded
  | .unary op operand, before, after, leads, sane => by
      obtain ⟨middle, inner, rfl⟩ := leads_unary.mp leads
      have one := orderly_expr operand inner sane
      exact one.emitFree _ _ _ (by cases op <;> rfl)
  | .binary op left right, before, after, leads, sane => by
      obtain ⟨first, one, second, two, rfl⟩ := leads_binary.mp leads
      have one := orderly_expr left one sane
      have two := one.trans (orderly_expr right two one.sane)
      exact two.emitFree _ _ _ (by cases op <;> rfl)
  | .logical op left right, before, after, leads, sane => by
      obtain ⟨first, one, second, two, rfl⟩ := leads_logical.mp leads
      have one := (orderly_expr left one sane).addLabel.emitJump op.jump first.nextLabel
        (by cases op <;> rfl)
      exact (one.trans (orderly_expr right two one.sane)).placeLabel _
  | .conditional condition whenTrue whenFalse, before, after, leads, sane => by
      obtain ⟨tested, one, first, two, second, three, rfl⟩ := leads_conditional.mp leads
      have one := (orderly_expr condition one sane).addLabel.addLabel.emitJump .jumpIfFalse
        tested.nextLabel
      have two := (((one.trans (orderly_expr whenTrue two one.sane)).emitJump .jump
        tested.addLabel.nextLabel).placeLabel tested.nextLabel).setDepth
          (forked tested).assembler.depth
      exact (two.trans (orderly_expr whenFalse three two.sane)).placeLabel _
  | .assignName ident span none value, before, after, leads, sane => by
      obtain ⟨place, first, resolved, second, inner, stored⟩ := leads_assignName.mp leads
      obtain ⟨one, has⟩ := orderly_resolve resolved sane
      have two := orderly_expr value inner one.sane
      exact (one.trans two).store (two.scopes.has has) stored
  | .assignName ident span (some op) value, before, after, leads, sane => by
      obtain ⟨place, first, resolved, loaded, read, second, inner, stored⟩ :=
        leads_updateName.mp leads
      obtain ⟨one, has⟩ := orderly_resolve resolved sane
      have two := (Orderly.refl one.sane).load has read
      have three := (two.trans (orderly_expr value inner two.sane)).emitFree op.opcode 0 0
        (by cases op <;> rfl)
      exact (one.trans three).store (three.scopes.has has) stored
  | .assignElement container key none value, before, after, leads, sane => by
      obtain ⟨first, one, second, two, third, three, rfl⟩ := leads_assignElement.mp leads
      have one := orderly_expr container one sane
      have two := one.trans (orderly_expr key two one.sane)
      exact (two.trans (orderly_expr value three two.sane)).emitFree _
  | .assignElement container key (some op) value, before, after, leads, sane => by
      obtain ⟨first, one, second, two, third, three, rfl⟩ := leads_updateElement.mp leads
      have one := orderly_expr container one sane
      have two := ((one.trans (orderly_expr key two one.sane)).emitFree .dup2).emitFree .getElem
      exact ((two.trans (orderly_expr value three two.sane)).emitFree op.opcode 0 0
        (by cases op <;> rfl)).emitFree _
  | .element container key, before, after, leads, sane => by
      obtain ⟨first, one, second, two, rfl⟩ := leads_element.mp leads
      have one := orderly_expr container one sane
      exact (one.trans (orderly_expr key two one.sane)).emitFree _
  | .call callee args span, before, after, leads, sane => by
      obtain ⟨first, one, second, rest, -, rfl⟩ := leads_call.mp leads
      have one := orderly_expr callee one sane
      exact (one.trans (orderly_exprs args rest one.sane)).emitFree _ _
  | .array elements span, before, after, leads, sane => by
      obtain ⟨middle, inner, few, rfl⟩ := leads_array.mp leads
      exact (orderly_exprs elements inner sane).emitFree _ _
  | .object properties span, before, after, leads, sane => by
      obtain ⟨middle, inner, few, rfl⟩ := leads_object.mp leads
      exact (orderly_entries properties inner sane).emitFree _ _
  | .function body, before, after, leads, sane =>
      orderly_definition body (leads_function.mp leads) sane
  | .broken error, before, after, leads, sane => absurd leads not_leads_broken

/-- And so do expressions in a row. -/
theorem orderly_exprs : ∀ (trees : List Expr) {before after : Compilation},
    Leads context (exprs trees) before () after → before.scopes.Sane → Orderly before after
  | [], before, after, leads, sane => by
      obtain rfl := leads_exprs_nil.mp leads
      exact .refl sane
  | first :: rest, before, after, leads, sane => by
      obtain ⟨middle, one, more⟩ := leads_exprs_cons.mp leads
      have one := orderly_expr first one sane
      exact one.trans (orderly_exprs rest more one.sane)

/-- Properties refer to their keys. -/
theorem orderly_entries : ∀ (trees : List Entry) {before after : Compilation},
    Leads context (entries trees) before () after → before.scopes.Sane → Orderly before after
  | [], before, after, leads, sane => by
      obtain rfl := leads_entries_nil.mp leads
      exact .refl sane
  | .property key span value :: rest, before, after, leads, sane => by
      obtain ⟨named, pushed, middle, one, more⟩ := leads_entries_cons.mp leads
      obtain ⟨index, strings, added, rfl⟩ := leads_string.mp pushed
      have zero := (Orderly.refl sane).emitNamed added (show Opcode.refersToString .pushString = true from rfl)
      have one := zero.trans (orderly_expr value one zero.sane)
      exact one.trans (orderly_entries rest more one.sane)
  | .broken error :: rest, before, after, leads, sane => by
      rw [entries, leads_seq] at leads
      obtain ⟨middle, thrown, -⟩ := leads
      rw [entry] at thrown
      exact absurd thrown not_leads_throw

theorem orderly_definition : ∀ (tree : Definition) {before after : Compilation},
    Leads context (definition tree) before () after → before.scopes.Sane → Orderly before after
  | .mk span params declared body, before, after, leads, sane => by
      obtain ⟨few, named, params, ready, ahead, ended, inner, closed⟩ := leads_definition.mp leads
      have one := orderly_declareParams params (sane_opened sane)
      have two := one.trans (orderly_declareAhead ahead one.sane)
      have three := (two.trans (orderly_stmts body inner two.sane)).emitFree .retUndefined
      refine orderly_closed few three (fun small => ?_) closed
      exact ⟨body, bodyAt_of_parts params ahead (shape_stmts body inner) small⟩

/-- A variable refers to its slot or to its name. -/
theorem orderly_declarator : ∀ (tree : Declarator) {before after : Compilation},
    Leads context (declarator tree) before () after → before.scopes.Sane → Orderly before after
  | .variable name span none, before, after, leads, sane => by
      obtain ⟨sink, placed, places, rfl⟩ := leads_variable_none leads
      obtain ⟨one, offers⟩ := orderly_placed places sane
      cases places with
      | global => exact one.emit (Resources.allow_named offers rfl)
      | slot => exact one
  | .variable name span (some value), before, after, leads, sane => by
      obtain ⟨sink, placed, valued, places, inner, rfl⟩ := leads_variable leads
      obtain ⟨one, offers⟩ := orderly_placed places sane
      have two := orderly_expr value inner one.sane
      exact (one.trans two).sinking (two.offers offers)
  | .broken error, before, after, leads, sane => by
      rw [declarator] at leads
      exact absurd leads not_leads_throw

/-- And so do variables in a row. -/
theorem orderly_declarators : ∀ (trees : List Declarator) {before after : Compilation},
    Leads context (declarators trees) before () after → before.scopes.Sane → Orderly before after
  | [], before, after, leads, sane => by
      obtain rfl := leads_declarators_nil.mp leads
      exact .refl sane
  | first :: rest, before, after, leads, sane => by
      obtain ⟨middle, one, more⟩ := leads_declarators_cons.mp leads
      have one := orderly_declarator first one sane
      exact one.trans (orderly_declarators rest more one.sane)

/-- What a loop starts with refers to what there is. -/
theorem orderly_forStart : ∀ (tree : ForStart) {before after : Compilation},
    Leads context (forStart tree) before () after → before.scopes.Sane → Orderly before after
  | .nothing, before, after, leads, sane => by
      obtain rfl := leads_forStart_nothing.mp leads
      exact .refl sane
  | .declare names, before, after, leads, sane =>
      orderly_declarators names (leads_forStart_declare.mp leads) sane
  | .evaluate value, before, after, leads, sane => by
      obtain ⟨valued, inner, rfl⟩ := leads_forStart_evaluate.mp leads
      exact (orderly_expr value inner sane).emitFree _

/-- And so does its test. -/
theorem orderly_test : ∀ (tree : Option Expr) {started tested : Compilation},
    TestLeads context started tree tested → started.scopes.Sane → Orderly started tested
  | none, started, tested, leads, sane => by
      cases leads
      exact (Orderly.refl sane).addLabel.addLabel.placeLabel _
  | some condition, started, tested, leads, sane => by
      cases leads with
      | some inner =>
          have zero := (Orderly.refl sane).addLabel.addLabel.placeLabel started.nextLabel
          exact (zero.trans (orderly_expr condition inner zero.sane)).emitJump _ _

/-- And so does its step. -/
theorem orderly_step : ∀ (tree : Option Expr) {started tested stepped : Compilation} {next : Label},
    StepLeads context started tested tree next stepped → tested.scopes.Sane →
      Orderly tested stepped
  | none, started, tested, stepped, next, leads, sane => by
      cases leads
      exact .refl sane
  | some step, started, tested, stepped, next, leads, sane => by
      cases leads with
      | some inner =>
          have zero := ((Orderly.refl sane).addLabel.addLabel.emitJump .jump
            tested.nextLabel).placeLabel tested.addLabel.nextLabel
          exact (((zero.trans (orderly_expr step inner zero.sane)).emitFree .pop).emitJump .jump
            started.nextLabel).placeLabel _

/-- A statement refers to what there is. -/
theorem orderly_stmt : ∀ (tree : Stmt) {before after : Compilation},
    Leads context (stmt tree) before () after → before.scopes.Sane → Orderly before after
  | .expression value, before, after, leads, sane => by
      obtain ⟨valued, inner, rfl⟩ := leads_expression leads
      refine (orderly_expr value inner sane).sinking ?_
      split
      · rename_i topLevel
        rw [Offers, List.isEmpty_iff.mp topLevel]
        exact Nat.zero_lt_one
      · trivial
  | .declare names, before, after, leads, sane =>
      orderly_declarators names (leads_declare.mp leads) sane
  | .define name span body, before, after, leads, sane => by
      obtain ⟨sink, placed, valued, places, inner, rfl⟩ := leads_define leads
      obtain ⟨one, offers⟩ := orderly_placed places sane
      have two := orderly_definition body inner one.sane
      exact (one.trans two).sinking (two.offers offers)
  | .branch condition whenTrue none, before, after, leads, sane => by
      obtain ⟨tested, one, first, two, rfl⟩ := leads_branch.mp leads
      have one := (orderly_expr condition one sane).addLabel.emitJump .jumpIfFalse tested.nextLabel
      exact (one.trans (orderly_stmt whenTrue two one.sane)).placeLabel _
  | .branch condition whenTrue (some whenFalse), before, after, leads, sane => by
      obtain ⟨tested, one, first, two, second, three, rfl⟩ := leads_branch_else.mp leads
      have one := (orderly_expr condition one sane).addLabel.emitJump .jumpIfFalse tested.nextLabel
      have two := ((one.trans (orderly_stmt whenTrue two one.sane)).addLabel.emitJump .jump
        first.nextLabel).placeLabel tested.nextLabel
      exact (two.trans (orderly_stmt whenFalse three two.sane)).placeLabel _
  | .whileLoop condition body, before, after, leads, sane => by
      obtain ⟨tested, one, repeated, two, rfl⟩ := leads_whileLoop.mp leads
      have zero := (Orderly.refl sane).addLabel.addLabel.placeLabel before.nextLabel
      have one := ((zero.trans (orderly_expr condition one zero.sane)).emitJump .jumpIfFalse
        (endLabel before)).entering ⟨endLabel before, before.nextLabel⟩
      exact (((one.trans (orderly_stmt body two one.sane)).leaving tested).emitJump .jump
        before.nextLabel).placeLabel _
  | .forLoop begin test step body, before, after, leads, sane => by
      obtain ⟨started, zero, tested, one, next, stepped, two, repeated, three, rfl⟩ :=
        leads_forLoop leads
      have zero := orderly_forStart begin zero sane
      have one := zero.trans (orderly_test test one zero.sane)
      have two := (one.trans (orderly_step step two one.sane)).entering ⟨endLabel started, next⟩
      exact (((two.trans (orderly_stmt body three two.sane)).leaving stepped).emitJump .jump
        next).placeLabel _
  | .breakLoop span, before, after, leads, sane => by
      obtain ⟨labels, outer, inside, rfl⟩ := leads_breakLoop.mp leads
      exact ((Orderly.refl sane).emitJump _ _).setDepth _
  | .continueLoop span, before, after, leads, sane => by
      obtain ⟨labels, outer, inside, rfl⟩ := leads_continueLoop.mp leads
      exact ((Orderly.refl sane).emitJump _ _).setDepth _
  | .return_ none, before, after, leads, sane => by
      obtain rfl := leads_return_undefined.mp leads
      exact ((Orderly.refl sane).emitFree _).setDepth _
  | .return_ (some value), before, after, leads, sane => by
      obtain ⟨valued, inner, rfl⟩ := leads_return.mp leads
      exact ((orderly_expr value inner sane).emitFree _).setDepth _
  | .block body, before, after, leads, sane => orderly_stmts body (leads_block.mp leads) sane
  | .broken error, before, after, leads, sane => by
      rw [stmt] at leads
      exact absurd leads not_leads_throw

/-- And so do statements in a row. -/
theorem orderly_stmts : ∀ (trees : List Stmt) {before after : Compilation},
    Leads context (stmts trees) before () after → before.scopes.Sane → Orderly before after
  | [], before, after, leads, sane => by
      obtain rfl := leads_stmts_nil.mp leads
      exact .refl sane
  | first :: rest, before, after, leads, sane => by
      obtain ⟨middle, one, more⟩ := leads_stmts_cons.mp leads
      have one := orderly_stmt first one sane
      exact one.trans (orderly_stmts rest more one.sane)

end

/-- The top level of a unit has an origin, with a slot that nobody captures. -/
theorem yields_unit {tree : UnitTree} {after : Compilation}
    (leads : Leads context (unit tree) .start () after) :
    ∃ (origin : Origin) (main : FunctionDef), after.functions[0]? = some main ∧
      origin.captured = #[] ∧ origin.captures = 0 ∧
        origin.Yields after.numbers.items.size after.strings.items.size after.functions 0 main := by
  obtain ⟨named, globals, ended, body, main, finished, rfl⟩ := leads_unit leads
  have one := orderly_addGlobals globals trivial
  have two := one.trans (orderly_stmts tree.body body one.sane)
  have inner := shape_stmts tree.body body
  obtain ⟨flow, at_⟩ := bodyAt_of_unit globals inner (Assembler.pending_size_le finished)
  have noScopes : ended.scopes = [] := two.scopes.eq_nil
  have slot : (ended.resources 1).Allow ended.size ⟨.loadLocal, 0, 0, none⟩ := by
    refine Resources.allow_access (fun _ => ?_) (fun refers => by cases refers) (.inl rfl)
    unfold Compilation.resources
    rw [noScopes]
    exact Nat.zero_lt_one
  have three := (two.emit slot).emitFree .ret
  have others : ∀ (index : Nat) other, 0 < index → ended.functions[index]? = some other →
      (ended.functions.setIfInBounds 0 main)[index]? = some other := fun index other new there => by
    rw [Array.getElem?_setIfInBounds_ne (Nat.ne_of_lt new)]
    exact there
  refine ⟨⟨((ended.emit .loadLocal).emit .ret).assembler, 1, 0, #[], 0, false, tree.body, flow⟩, main,
    Array.getElem?_setIfInBounds_self_of_lt three.functions_le, rfl, rfl, finished, at_,
    fun index instr there => ?_, show 1 ≤ 65535 by decide, Nat.zero_le _, Nat.zero_le _,
    fun slot captured => by cases captured⟩
  refine (three.allowed index instr (Nat.zero_le _) there).mono ?_
  unfold Compilation.resources
  refine ⟨?_, fun slot captured => ?_, ?_, Nat.le_refl _, Nat.le_refl _, others, Nat.le_refl _⟩
  · exact Nat.le_of_eq (congrArg Scopes.slotCount noScopes)
  · change Scopes.IsCaptured slot ended.scopes at captured
    rw [noScopes] at captured
    cases captured
  · exact Nat.le_of_eq (congrArg Scopes.captureCount noScopes)

/-- Every function of a unit has an origin; the first one, its top level, captures nothing. -/
theorem completed_unit {tree : UnitTree} {after : Compilation}
    (leads : Leads context (unit tree) .start () after) :
    (∀ (index : Nat) function, after.functions[index]? = some function →
      function.Completed after.numbers.items.size after.strings.items.size after.functions index) ∧
      ∃ main, after.functions[0]? = some main ∧ main.UsesBelow 0 := by
  obtain ⟨origin, main, placed, -, plain, yields⟩ := yields_unit leads
  refine ⟨fun index function found => ?_, main, placed, plain ▸ yields.usesBelow⟩
  by_cases here : index = 0
  · subst here
    cases placed.symm.trans found
    exact ⟨_, yields⟩
  · obtain ⟨named, globals, ended, body, own, finished, rfl⟩ := leads_unit leads
    have one := orderly_addGlobals globals trivial
    have two := one.trans (orderly_stmts tree.body body one.sane)
    have there : ended.functions[index]? = some function := by
      rw [← found]
      exact (Array.getElem?_setIfInBounds_ne (Ne.symm here)).symm
    obtain ⟨origin, yields⟩ := two.completed index function (Nat.one_le_iff_ne_zero.mpr here) there
    refine ⟨origin, yields.mono (Nat.le_refl _) (Nat.le_refl _) fun place other behind there => ?_⟩
    change (ended.functions.setIfInBounds 0 own)[place]? = some other
    rw [Array.getElem?_setIfInBounds_ne (by omega)]
    exact there

/-- So the program of a unit passes the verifier. -/
theorem verified_unit {tree : UnitTree} {after : Compilation}
    (leads : Leads context (unit tree) .start () after) :
    Program.Verified ⟨after.numbers.items, after.strings.items, after.functions⟩ := by
  obtain ⟨completed, main⟩ := completed_unit leads
  refine ⟨main, fun index function found => ?_⟩
  obtain ⟨origin, yields⟩ := completed index function found
  exact ⟨_, yields.verified⟩

end Compiling

/-- Whatever compiles passes the verifier. -/
theorem compile_verified {bytes : List UInt8} {limits : CompileLimits}
    {isKnownGlobal : String → Bool} {program : Program}
    (compiled : compile bytes limits isKnownGlobal = .ok program) : program.Verified := by
  obtain ⟨done, leads, rfl⟩ := leads_of_compile compiled
  exact Compiling.verified_unit leads

/-- A function that makes closures, each with the parameter of the function captured. -/
def closureText : List UInt8 := "(def(a){return def(){return a}})".toUTF8.toList

/-- Its program: the parameter is boxed on entry and its cell is pushed for the closure. -/
def closureProgram : Program where
  numbers := #[]
  strings := #[]
  functions :=
    #[⟨1, 0, 1, false, #[9, 1, 0, 17, 0, 0, 13, 16, 0, 0, 56]⟩,
      ⟨1, 1, 1, false, #[20, 0, 0, 21, 0, 0, 10, 2, 0, 1, 0, 56, 57]⟩,
      ⟨0, 0, 1, true, #[22, 0, 0, 56, 57]⟩]

theorem compile_closureText : compile closureText {} (fun _ => false) = .ok closureProgram := by
  rw [compile, TokenStream.ofBytes, @Lexer.tokensFrom_eq_within 33 _ _ _ (by cbv)]
  cbv

theorem compile_verified_closure :
    compile closureText {} (fun _ => false) = .ok closureProgram ∧ closureProgram.Verified :=
  ⟨compile_closureText, compile_verified compile_closureText⟩

end PocketScript
