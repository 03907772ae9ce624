import Mathlib
import PocketScript.Proofs.Scope.Chains

/-!
# Names denote the nearest variables

A symbol table serves a compiler that opens and closes functions, declares their names and asks what
names denote (`SymbolTable.serve`). In every table that such requests lead to, a name denotes a slot
of the innermost function, the capture of that function that leads to the nearest function around
that declares the name, or a global (`SymbolTable.denotes_nearest`), unless a function on the way has
no room for one more capture. Chains of captures stay intact as long as the functions they go through
stay open, so that a variable has one capture in a function. Captures are numbered with 16 bits, and
so all of this is about limits up to 65536: with a limit above it two variables can share a capture
(`SymbolTable.captures_run_out`).
-/

namespace PocketScript

namespace FunctionScope

variable {scope scope' : FunctionScope} {limit : Nat} {index : UInt16} {name : String}

/-- A parameter gets a slot of its own, behind the others. -/
theorem declareParameter_cases (declared : scope.declareParameter limit name = .ok (index, scope')) :
    scope.find? name = none ∧ scope' =
      { scope with slots := scope.slots.push name, captured := scope.captured.push false,
                   argCount := scope.argCount + 1 } := by
  unfold declareParameter at declared
  split at declared
  · cases declared
  · rename_i missing
    obtain ⟨⟨place, named⟩, declaring, same⟩ := Scopes.bind_eq_ok declared
    cases same
    unfold declare at declaring
    rw [missing] at declaring
    dsimp only at declaring
    split at declaring
    · cases declaring
    · cases declaring
      exact ⟨missing, rfl⟩

/-- A name that was missing may be added. -/
theorem Distinct.push (distinct : scope.Distinct limit) (missing : scope.find? name = none)
    (slots : scope'.slots = scope.slots.push name) (captures : scope'.captures = scope.captures) :
    scope'.Distinct limit := by
  refine ⟨?_, by rw [captures]; exact distinct.captures, by rw [captures]; exact distinct.few⟩
  rw [slots, Array.toList_push]
  refine List.nodup_append.mpr ⟨distinct.slots, List.pairwise_singleton _ _,
    fun one member other last same => ?_⟩
  exact find?_eq_none.mp missing (Array.mem_def.mpr (List.mem_singleton.mp last ▸ same ▸ member))

theorem Distinct.declare (distinct : scope.Distinct limit)
    (declared : scope.declare limit name = .ok (index, scope')) : scope'.Distinct limit := by
  obtain ⟨-, rfl⟩ | ⟨missing, rfl⟩ := declare_cases declared
  · exact distinct
  · exact distinct.push missing rfl rfl

theorem Distinct.declareParameter (distinct : scope.Distinct limit)
    (declared : scope.declareParameter limit name = .ok (index, scope')) :
    scope'.Distinct limit := by
  obtain ⟨missing, rfl⟩ := declareParameter_cases declared
  exact distinct.push missing rfl rfl

theorem parameters_of_declare (proper : scope.Proper)
    (declared : scope.declare limit name = .ok (index, scope')) :
    scope'.parameters = scope.parameters := by
  obtain ⟨-, rfl⟩ | ⟨-, rfl⟩ := declare_cases declared
  · rfl
  · change (scope.slots.push name).toList.take scope.argCount.toNat = _
    rw [Array.toList_push, List.take_append_of_le_length proper.args]
    rfl

/-- A parameter of a function without other variables stands behind the parameters before it. -/
theorem parameters_of_declareParameter (proper : scope.Proper)
    (declared : scope.declareParameter limit name = .ok (index, scope'))
    (only : scope.argCount.toNat = scope.slots.size) :
    scope'.parameters = scope.parameters ++ [name] := by
  obtain ⟨proper', -⟩ := declareParameter_widens proper declared
  obtain ⟨-, rfl⟩ := declareParameter_cases declared
  have small := proper'.small
  rw [Array.size_push] at small
  have count : (scope.argCount + 1).toNat = scope.slots.size + 1 := by
    rw [UInt16.toNat_add, only]
    exact Nat.mod_eq_of_lt (show scope.slots.size + 1 < 65536 by omega)
  unfold parameters
  rw [count, only, Array.toList_push, List.take_of_length_le (by simp), List.take_of_length_le]
  exact Nat.le_refl _

theorem capture_of_not_mem {source : CaptureSource} (missing : source ∉ scope.captures)
    (room : scope.captures.size < limit) :
    scope.capture limit source = .ok (UInt16.ofNat scope.captures.size,
      { scope with captures := scope.captures.push source }) := by
  have none : scope.captures.findIdx? (· == source) = none :=
    Array.findIdx?_eq_none_iff.mpr fun other member =>
      beq_eq_false_iff_ne.mpr fun same => missing (same ▸ member)
  rw [capture, none]
  exact if_neg (Nat.not_le.mpr room)

end FunctionScope

namespace Scopes

variable {before after scopes : Scopes} {scope : FunctionScope} {limit count : Nat} {name : String}

/-- Some of the functions, those that are the furthest out. -/
def outermost (count : Nat) (scopes : Scopes) : Scopes := scopes.drop (scopes.length - count)

theorem outermost_length (scopes : Scopes) : outermost scopes.length scopes = scopes := by
  rw [outermost, Nat.sub_self, List.drop_zero]

theorem outermost_cons (few : count ≤ scopes.length) :
    outermost count (scope :: scopes) = outermost count scopes := by
  rw [outermost, List.length_cons, Nat.succ_sub few, List.drop_succ_cons, outermost]

theorem Widened.outermost (widened : Widened before after) (count : Nat) :
    Widened (outermost count before) (outermost count after) := by
  rw [Scopes.outermost, Scopes.outermost, widened.length_eq]
  exact List.forall₂_drop _ widened

/-- What `resolve` tells, and the functions as it leaves them, also where it fails. -/
def tryResolve (limit : Nat) (name : String) : Scopes → Except Complaint Place × Scopes
  | [] => (.ok .global, [])
  | scope :: outer =>
      match scope.find? name with
      | some slot => (.ok (.slot (UInt16.ofNat slot)), scope :: outer)
      | none =>
          let (outcome, scope, outer) := tryCapture limit name scope outer
          (outcome.map fun | some index => .capture index | none => .global, scope :: outer)

theorem resolve_eq (limit : Nat) (name : String) (scopes : Scopes) :
    resolve limit name scopes =
      (tryResolve limit name scopes).1.map fun place =>
        (place, (tryResolve limit name scopes).2) := by
  cases scopes with
  | nil => rfl
  | cons scope outer =>
      rw [resolve, tryResolve]
      cases scope.find? name with
      | some slot => rfl
      | none =>
          dsimp only
          rw [captureFrom_eq]
          obtain ⟨outcome, scope', outer'⟩ := tryCapture limit name scope outer
          cases outcome with
          | error complaint => rfl
          | ok through => cases through <;> rfl

/-- What a name denotes in the innermost function: its slot there; the capture that leads to the
nearest function around that declares it, which knows that the variable is captured; or a global, and
then nothing has changed. There is no answer when a function on the way has no room for the capture. -/
inductive Denotes (limit : Nat) (name : String) : Scopes → Scopes → Except Complaint Place → Prop
  | slot {scope : FunctionScope} {outer : Scopes} (index : UInt16) :
      scope.find? name = some index.toNat →
        Denotes limit name (scope :: outer) (scope :: outer) (.ok (.slot index))
  | capture {scope : FunctionScope} {outer after : Scopes} (index : UInt16) (target : Variable) :
      scope.find? name = none → nearest? name outer = some target → Marks after target →
        follow? after index.toNat = some target →
          Denotes limit name (scope :: outer) after (.ok (.capture index))
  | global {scopes : Scopes} :
      nearest? name scopes = none → Denotes limit name scopes scopes (.ok .global)
  | full {scope : FunctionScope} {outer after : Scopes} (target : Variable) :
      scope.find? name = none → nearest? name outer = some target →
        IsFull limit (scope :: outer) target →
          Denotes limit name (scope :: outer) after (.error .tooManyCaptures)

/-- The functions while names are declared and resolved in them. -/
structure Settled (limit : Nat) (scopes : Scopes) : Prop where
  sane : Sane scopes
  distinct : ∀ scope ∈ scopes, scope.Distinct limit

theorem Settled.tail (settled : Settled limit (scope :: scopes)) : Settled limit scopes :=
  ⟨settled.sane.2.2, (List.forall_mem_cons.mp settled.distinct).2⟩

theorem Settled.numbered (settled : Settled limit scopes) (small : limit ≤ 65536) :
    Numbered scopes := fun scope member =>
  Nat.le_trans (settled.distinct scope member).few small

theorem Settled.sought (settled : Settled limit (scope :: scopes)) (name : String) :
    Sought limit name (scope :: scopes) (tryCapture limit name scope scopes).1
      ((tryCapture limit name scope scopes).2.1 :: (tryCapture limit name scope scopes).2.2) :=
  sought_tryCapture settled.sane settled.distinct

/-- Resolving a name leaves the functions in order, with further captures at most. -/
theorem Settled.resolve (settled : Settled limit scopes) (name : String) :
    let after := (tryResolve limit name scopes).2
    Settled limit after ∧ Widened scopes after ∧
      after.map FunctionScope.parameters = scopes.map FunctionScope.parameters := by
  cases scopes with
  | nil => exact ⟨settled, .nil, rfl⟩
  | cons scope outer =>
      rw [tryResolve]
      cases scope.find? name with
      | some slot => exact ⟨settled, .refl _, rfl⟩
      | none =>
          have sought := settled.sought name
          exact ⟨⟨sought.sane, sought.distinct⟩, sought.widened, sought.parameters⟩

theorem Settled.denotes (settled : Settled limit scopes) (name : String)
    (numbered : Numbered (tryResolve limit name scopes).2) :
    Denotes limit name scopes (tryResolve limit name scopes).2 (tryResolve limit name scopes).1 := by
  cases scopes with
  | nil => exact .global rfl
  | cons scope outer =>
      rw [tryResolve] at numbered ⊢
      cases found : scope.find? name with
      | some slot =>
          have inside := FunctionScope.find?_lt found
          have small := settled.sane.1.small
          refine .slot _ ?_
          rw [UInt16.toNat_ofNat_of_lt' (show slot < 65536 by omega)]
          exact found
      | none =>
          have sought := settled.sought name
          rw [found] at numbered
          dsimp only at numbered ⊢
          generalize tryCapture limit name scope outer = result at sought numbered
          obtain ⟨outcome, scope', outer'⟩ := result
          cases outcome with
          | error complaint =>
              obtain ⟨rfl, target, nearest, full⟩ := sought.failed complaint rfl
              exact .full target found nearest (full numbered)
          | ok through =>
              cases through with
              | some index =>
                  obtain ⟨-, target, nearest, marks, leads⟩ := sought.found index rfl
                  exact .capture index target found nearest marks (leads numbered)
              | none =>
                  obtain ⟨nowhere, same⟩ := sought.missed rfl
                  cases same
                  refine .global ?_
                  rw [nearest?, found]
                  exact nowhere

end Scopes

/-! ## Symbol tables -/

/-- The names of a program. The top level has one slot without a name, for its result. -/
structure SymbolTable where
  topLevel : FunctionScope := { slots := #[""], captured := #[false] }
  functions : Scopes := []
  deriving DecidableEq, Repr

/-- What a compiler asks of a symbol table. -/
inductive SymbolTable.Request where
  | openFunction
  | declareParameter (name : String)
  | declareLocal (name : String)
  | resolve (name : String)
  | closeFunction
  deriving DecidableEq, Repr

namespace SymbolTable

open Scopes

variable {table : SymbolTable} {limit count : Nat} {names : List (List String)} {request : Request}
  {requests : List Request}

/-- Where names are declared. -/
def innermost (table : SymbolTable) : FunctionScope := table.functions.headD table.topLevel

def change (table : SymbolTable) (scope : FunctionScope) : SymbolTable :=
  match table.functions with
  | [] => { table with topLevel := scope }
  | _ :: outer => { table with functions := scope :: outer }

/-- The table after a request. A name that cannot be declared leaves it as it is. -/
def serve (limit : Nat) (table : SymbolTable) : Request → SymbolTable
  | .openFunction => { table with functions := {} :: table.functions }
  | .declareParameter name =>
      match table.innermost.declareParameter limit name with
      | .ok (_, scope) => table.change scope
      | .error _ => table
  | .declareLocal name =>
      match table.innermost.declare limit name with
      | .ok (_, scope) => table.change scope
      | .error _ => table
  | .resolve name => { table with functions := (tryResolve limit name table.functions).2 }
  | .closeFunction => { table with functions := table.functions.tail }

def run (limit : Nat) (table : SymbolTable) (requests : List Request) : SymbolTable :=
  requests.foldl (serve limit) table

/-- So many functions stay open throughout. -/
def StaysOpen (count limit : Nat) (table : SymbolTable) : List Request → Prop
  | [] => True
  | request :: later =>
      count ≤ (table.serve limit request).functions.length ∧
        StaysOpen count limit (table.serve limit request) later

/-- The parameters of a function are declared before its other variables. -/
def Orderly (limit : Nat) (table : SymbolTable) : List Request → Prop
  | [] => True
  | request :: later =>
      (∀ name, request = .declareParameter name →
        table.innermost.argCount.toNat = table.innermost.slots.size) ∧
        Orderly limit (table.serve limit request) later

/-- The parameters of each open function after a request, the innermost function first. -/
def parametersAfter (limit : Nat) (table : SymbolTable) :
    Request → List (List String) → List (List String)
  | .openFunction, names => [] :: names
  | .closeFunction, names => names.tail
  | .declareParameter name, own :: outer =>
      match table.innermost.declareParameter limit name with
      | .ok _ => (own ++ [name]) :: outer
      | .error _ => own :: outer
  | _, names => names

/-- The parameters of each open function after some requests. -/
def runParameters (limit : Nat) (table : SymbolTable) (names : List (List String)) :
    List Request → List (List String)
  | [] => names
  | request :: later =>
      runParameters limit (table.serve limit request) (table.parametersAfter limit request names)
        later

/-- The tables that requests lead to. -/
structure Sound (limit : Nat) (table : SymbolTable) : Prop where
  functions : Settled limit table.functions
  topLevel : table.topLevel.Distinct limit

/-- A table without names is sound. -/
theorem sound_empty (limit : Nat) : Sound limit {} :=
  ⟨⟨trivial, nofun⟩, ⟨List.pairwise_singleton _ _, List.nodup_nil, Nat.zero_le _⟩⟩

/-- Only the function in which a name is declared changes. -/
theorem Sound.change {scope : FunctionScope} (sound : table.Sound limit)
    (distinct : table.innermost.Distinct limit → scope.Distinct limit)
    (widens : table.innermost.Proper → scope.Proper ∧ table.innermost.Widens scope ∧
      scope.captures = table.innermost.captures) :
    (table.change scope).Sound limit ∧
      Widened table.functions (table.change scope).functions := by
  obtain ⟨functions, topLevel⟩ := sound
  obtain ⟨top, scopes⟩ := table
  cases scopes with
  | nil => exact ⟨⟨functions, distinct topLevel⟩, .refl _⟩
  | cons own outer =>
      obtain ⟨proper, found, around⟩ := functions.sane
      obtain ⟨own, others⟩ := List.forall_mem_cons.mp functions.distinct
      obtain ⟨proper', widens, captures⟩ := widens proper
      exact ⟨⟨⟨⟨proper', captures ▸ found, around⟩,
        List.forall_mem_cons.mpr ⟨distinct own, others⟩⟩, topLevel⟩,
        .cons widens (Widened.refl outer)⟩

/-- What becomes of the functions that stay open. -/
theorem Sound.serve (sound : table.Sound limit) (request : Request) :
    (table.serve limit request).Sound limit ∧
      ∀ count, count ≤ table.functions.length →
        count ≤ (table.serve limit request).functions.length →
          Widened (outermost count table.functions)
            (outermost count (table.serve limit request).functions) := by
  cases request with
  | openFunction =>
      obtain ⟨⟨sane, distinct⟩, topLevel⟩ := sound
      refine ⟨⟨⟨⟨⟨rfl, Nat.zero_le _, Nat.le_refl _⟩, nofun, sane⟩, ?_⟩, topLevel⟩,
        fun count few _ => ?_⟩
      · exact List.forall_mem_cons.mpr ⟨⟨List.nodup_nil, List.nodup_nil, Nat.zero_le _⟩, distinct⟩
      · rw [SymbolTable.serve, outermost_cons few]
        exact .refl _
  | declareParameter name =>
      rw [SymbolTable.serve]
      cases declared : table.innermost.declareParameter limit name with
      | ok result =>
          obtain ⟨sound', widened⟩ := sound.change (·.declareParameter declared) fun proper => by
            obtain ⟨proper', widens, captures, -⟩ :=
              FunctionScope.declareParameter_widens proper declared
            exact ⟨proper', widens, captures⟩
          exact ⟨sound', fun count _ _ => widened.outermost count⟩
      | error complaint => exact ⟨sound, fun _ _ _ => .refl _⟩
  | declareLocal name =>
      rw [SymbolTable.serve]
      cases declared : table.innermost.declare limit name with
      | ok result =>
          obtain ⟨sound', widened⟩ := sound.change (·.declare declared) fun proper => by
            obtain ⟨proper', widens, -, captures, -⟩ :=
              FunctionScope.declare_widens proper declared
            exact ⟨proper', widens, captures⟩
          exact ⟨sound', fun count _ _ => widened.outermost count⟩
      | error complaint => exact ⟨sound, fun _ _ _ => .refl _⟩
  | resolve name =>
      obtain ⟨settled, widened, -⟩ := sound.functions.resolve name
      exact ⟨⟨settled, sound.topLevel⟩, fun count _ _ => widened.outermost count⟩
  | closeFunction =>
      obtain ⟨functions, topLevel⟩ := sound
      obtain ⟨top, scopes⟩ := table
      cases scopes with
      | nil => exact ⟨⟨functions, topLevel⟩, fun _ _ _ => .refl _⟩
      | cons own outer =>
          refine ⟨⟨functions.tail, topLevel⟩, fun count _ few => ?_⟩
          change Widened (outermost count (own :: outer)) (outermost count outer)
          rw [outermost_cons (show count ≤ outer.length from few)]
          exact .refl _

/-- And it stays so, whatever is requested. -/
theorem Sound.run (sound : table.Sound limit) (requests : List Request) :
    (table.run limit requests).Sound limit := by
  induction requests generalizing table with
  | nil => exact sound
  | cons request later ih => exact ih (sound.serve request).1

/-- Functions that stay open get further slots and captures at most. -/
theorem Sound.widened (sound : table.Sound limit) (few : count ≤ table.functions.length)
    (stays : StaysOpen count limit table requests) :
    Widened (outermost count table.functions)
      (outermost count (table.run limit requests).functions) := by
  induction requests generalizing table with
  | nil => exact .refl _
  | cons request later ih =>
      obtain ⟨few', stays⟩ := stays
      obtain ⟨sound', widened⟩ := sound.serve request
      exact (widened count few few').trans (ih sound' few' stays)

/-- Parameters come first, so no other request changes them. -/
theorem Sound.parameters_serve (sound : table.Sound limit) (request : Request)
    (only : ∀ name, request = .declareParameter name →
      table.innermost.argCount.toNat = table.innermost.slots.size) :
    (table.serve limit request).functions.map FunctionScope.parameters =
      table.parametersAfter limit request (table.functions.map FunctionScope.parameters) := by
  obtain ⟨functions, -⟩ := sound
  obtain ⟨top, scopes⟩ := table
  cases request with
  | openFunction => rfl
  | declareParameter name =>
      rw [SymbolTable.serve]
      cases scopes with
      | nil => cases (innermost ⟨top, []⟩).declareParameter limit name <;> rfl
      | cons own outer =>
          rw [List.map_cons, parametersAfter]
          cases declared : (innermost ⟨top, own :: outer⟩).declareParameter limit name with
          | ok result =>
              exact congrArg (· :: outer.map FunctionScope.parameters)
                (FunctionScope.parameters_of_declareParameter functions.sane.1 declared
                  (only name rfl))
          | error complaint => rfl
  | declareLocal name =>
      rw [SymbolTable.serve]
      cases declared : (innermost ⟨top, scopes⟩).declare limit name with
      | ok result =>
          cases scopes with
          | nil => rfl
          | cons own outer =>
              exact congrArg (· :: outer.map FunctionScope.parameters)
                (FunctionScope.parameters_of_declare functions.sane.1 declared)
      | error complaint => rfl
  | resolve name => exact (functions.resolve name).2.2
  | closeFunction => cases scopes <;> rfl

/-- The parameters of a function come first among its slots. -/
theorem Sound.parameters (sound : table.Sound limit) (orderly : Orderly limit table requests) :
    (table.run limit requests).functions.map FunctionScope.parameters =
      runParameters limit table (table.functions.map FunctionScope.parameters) requests := by
  induction requests generalizing table with
  | nil => rfl
  | cons request later ih =>
      obtain ⟨only, orderly⟩ := orderly
      refine (ih (sound.serve request).1 orderly).trans ?_
      rw [runParameters, sound.parameters_serve request only]

theorem Sound.denotes (sound : table.Sound limit) (small : limit ≤ 65536) (name : String) :
    Denotes limit name table.functions (table.serve limit (.resolve name)).functions
      (tryResolve limit name table.functions).1 :=
  sound.functions.denotes name ((sound.functions.resolve name).1.numbered small)

/-- A name that denotes a capture has its variable in the nearest function around. -/
theorem Sound.capture {name : String} {index : UInt16} {after : Scopes} (sound : table.Sound limit)
    (small : limit ≤ 65536)
    (told : resolve limit name table.functions = .ok (.capture index, after)) :
    (table.serve limit (.resolve name)).functions = after ∧ ∃ target,
      nearest? name table.functions = some target ∧ target.level + 1 < table.functions.length ∧
        follow? after index.toNat = some target := by
  have denotes := sound.denotes small name
  rw [resolve_eq] at told
  change Denotes _ _ _ (tryResolve limit name table.functions).2 _ at denotes
  change (tryResolve limit name table.functions).2 = _ ∧ _
  generalize table.functions = before at denotes told ⊢
  generalize tryResolve limit name before = result at denotes told ⊢
  obtain ⟨answer, after'⟩ := result
  dsimp only at denotes told ⊢
  cases denotes with
  | capture index target missing nearest marks leads =>
      cases told
      refine ⟨rfl, target, ?_, Nat.succ_lt_succ (level_of_nearest? nearest), leads⟩
      rw [nearest?, missing]
      exact nearest
  | slot index found => cases told
  | global nowhere => cases told
  | full target missing declared full => cases told

theorem Sound.captured {name : String} {target : Variable} {place : Nat} (sound : table.Sound limit)
    (small : limit ≤ 65536) (nearest : nearest? name table.functions = some target)
    (further : target.level + 1 < table.functions.length)
    (leads : follow? table.functions place = some target) :
    ∃ index after, resolve limit name table.functions = .ok (.capture index, after) := by
  have denotes := sound.denotes small name
  rw [resolve_eq]
  change Denotes _ _ _ (tryResolve limit name table.functions).2 _ at denotes
  generalize table.functions = before at denotes nearest further leads ⊢
  generalize tryResolve limit name before = result at denotes ⊢
  obtain ⟨answer, after⟩ := result
  dsimp only at denotes ⊢
  cases denotes with
  | capture index target' missing nearest' marks leads' => exact ⟨index, after, rfl⟩
  | slot index found =>
      rw [nearest?, found] at nearest
      cases nearest
      exact absurd further (Nat.lt_irrefl _)
  | global nowhere => cases nowhere.symm.trans nearest
  | full target' missing declared full =>
      rw [nearest?, missing] at nearest
      cases declared.symm.trans nearest
      exact absurd leads (full.not_follow? place)

/-- **Names denote the nearest variables.** So it is in every symbol table with a limit that 16 bits
can count up to. No slot of a function is there twice, and the parameters come first. What captures
lead to stays the same as long as the function is open: the same name leads to the same capture again,
and two captures of one function are the same only if they lead to the same variable. -/
theorem denotes_nearest (limit : Nat) (small : limit ≤ 65536) (requests : List Request) :
    let table := run limit {} requests
    let count := table.functions.length
    (∀ name, ∃ answer,
      resolve limit name table.functions = answer.map (fun place =>
        (place, (table.serve limit (.resolve name)).functions)) ∧
      Denotes limit name table.functions (table.serve limit (.resolve name)).functions answer) ∧
    (∀ scope ∈ table.topLevel :: table.functions, scope.slots.toList.Nodup) ∧
    (Orderly limit {} requests → table.functions.map FunctionScope.parameters =
      runParameters limit {} [] requests) ∧
    (∀ later, StaysOpen count limit table later → ∀ place target,
      follow? table.functions place = some target →
        follow? (outermost count (table.run limit later).functions) place = some target) ∧
    ∀ name later, StaysOpen count limit (table.serve limit (.resolve name)) later →
      let last := (table.serve limit (.resolve name)).run limit later
      last.functions.length = count → ∀ index between,
        resolve limit name table.functions = .ok (.capture index, between) →
          (nearest? name table.functions = nearest? name last.functions →
            ∃ after, resolve limit name last.functions = .ok (.capture index, after)) ∧
          ∀ name' index' after,
            resolve limit name' last.functions = .ok (.capture index', after) →
              (index = index' ↔ nearest? name table.functions = nearest? name' last.functions) := by
  intro table count
  have sound : table.Sound limit := (sound_empty limit).run requests
  refine ⟨fun name => ⟨_, resolve_eq .., sound.denotes small name⟩, ?_, ?_,
    fun later stays place target found => ?_, ?_⟩
  · exact List.forall_mem_cons.mpr
      ⟨sound.topLevel.slots, fun scope member => (sound.functions.distinct scope member).slots⟩
  · exact (sound_empty limit).parameters
  · refine follow?_widened (sound.widened (Nat.le_refl _) stays) ?_
    rw [outermost_length]
    exact found
  · intro name later stays last same index between first
    obtain ⟨rfl, target, nearest, further, leads⟩ := sound.capture small first
    have sound' := (sound.serve (.resolve name)).1
    have soundLast : last.Sound limit := sound'.run later
    -- The first capture still leads to its variable when another name is resolved.
    have length : (table.serve limit (.resolve name)).functions.length = count :=
      (sound.functions.resolve name).2.1.length_eq.symm
    have widened := sound'.widened (Nat.le_of_eq length.symm) stays
    rw [← length, outermost_length, length, ← same, outermost_length] at widened
    have kept := follow?_widened widened leads
    have unique : ∀ name' index' after,
        resolve limit name' last.functions = .ok (.capture index', after) →
          (index = index' ↔ nearest? name table.functions = nearest? name' last.functions) := by
      intro name' index' after second
      obtain ⟨rfl, target', nearest', -, leads'⟩ := soundLast.capture small second
      have kept' := follow?_widened (soundLast.functions.resolve name').2.1 kept
      rw [nearest, nearest']
      constructor
      · intro equal
        rw [equal] at kept'
        exact kept'.symm.trans leads'
      · intro equal
        cases equal
        exact UInt16.toNat_inj.mp (follow?_inj (soundLast.functions.resolve name').1.distinct
          kept' leads')
    refine ⟨fun again => ?_, unique⟩
    have further' : target.level + 1 < last.functions.length := by
      rw [same]
      exact further
    obtain ⟨index', after, second⟩ :=
      soundLast.captured small (again.symm.trans nearest) further' kept
    rw [(unique name index' after second).mpr again]
    exact ⟨after, second⟩

/-- A function captures a variable that the function between them relays. -/
def relaying : List Request :=
  [.openFunction, .declareLocal "x", .openFunction, .openFunction, .resolve "x"]

/-- The function in between relays the variable of the outer one. -/
example : (run 8 {} relaying).functions.map (·.captures) =
    [#[.outerCapture 0], #[.outerSlot 0], #[]] := by
  decide +kernel

theorem denotes_nearest_relaying : ∃ between after,
    resolve 8 "x" (run 8 {} relaying).functions = .ok (.capture 0, between) ∧
      resolve 8 "x" (run 8 {} (relaying ++ [.resolve "x", .openFunction, .declareLocal "x",
        .closeFunction])).functions = .ok (.capture 0, after) := by
  have first : ∃ between, resolve 8 "x" (run 8 {} relaying).functions = .ok (.capture 0, between) :=
    ⟨_, by cbv⟩
  obtain ⟨between, first⟩ := first
  obtain ⟨-, -, -, -, repeated⟩ := denotes_nearest 8 (by decide) relaying
  have stays : StaysOpen (run 8 {} relaying).functions.length 8
      ((run 8 {} relaying).serve 8 (.resolve "x"))
      [.openFunction, .declareLocal "x", .closeFunction] :=
    ⟨by decide +kernel, by decide +kernel, by decide +kernel, trivial⟩
  obtain ⟨after, again⟩ := (repeated "x" _ stays (by decide +kernel) 0 between first).1
    (by decide +kernel)
  exact ⟨between, after, first, again⟩

/-! ## More captures than can be told apart -/

/-- Requests may be served in two parts. -/
theorem run_append (limit : Nat) (table : SymbolTable) (requests more : List Request) :
    table.run limit (requests ++ more) = (table.run limit requests).run limit more :=
  List.foldl_append

/-- A name of its own for each number. -/
def nthName (n : Nat) : String := String.ofList (List.replicate (n + 1) 'v')

/-- The generated names differ. -/
theorem nthName_inj {one two : Nat} (same : nthName one = nthName two) : one = two := by
  have lengths := congrArg (fun name => name.toList.length) same
  simpa [nthName] using lengths

/-- The first so many of these names. -/
def nthNames (number : Nat) : List String := (List.range number).map nthName

/-- There is one name more each time. -/
theorem nthNames_succ (number : Nat) : nthNames (number + 1) = nthNames number ++ [nthName number] := by
  rw [nthNames, List.range_succ, List.map_append]
  rfl

theorem length_nthNames (number : Nat) : (nthNames number).length = number := by
  rw [nthNames, List.length_map, List.length_range]

/-- A function that declares the first so many names and nothing else. -/
def declaring (number : Nat) : FunctionScope :=
  { slots := (nthNames number).toArray, captured := Array.replicate number false }

/-- The slots stand in the order of the numbers. -/
theorem find?_nthName {scope : FunctionScope} {number n : Nat}
    (slots : scope.slots = (nthNames number).toArray) (less : n < number) :
    scope.find? (nthName n) = some n := by
  rw [FunctionScope.find?, slots]
  refine Array.findIdx?_eq_some_iff_getElem.mpr ⟨by simpa [length_nthNames] using less, ?_, ?_⟩
  · simp [nthNames]
  · intro other before
    have apart : nthName other ≠ nthName n := fun same => Nat.ne_of_lt before (nthName_inj same)
    simp [nthNames, apart]

theorem run_declareLocal {top : FunctionScope} {outer : Scopes} {number : Nat}
    (few : number ≤ 65535) (room : number ≤ limit) :
    run limit ⟨top, {} :: outer⟩ ((nthNames number).map .declareLocal) =
      ⟨top, declaring number :: outer⟩ := by
  induction number with
  | zero => rfl
  | succ number ih =>
      rw [nthNames_succ, List.map_append, run_append, ih (by omega) (by omega)]
      change serve limit ⟨top, declaring number :: outer⟩ (.declareLocal (nthName number)) = _
      have missing : (declaring number).find? (nthName number) = none := by
        refine FunctionScope.find?_eq_none.mpr fun member => ?_
        obtain ⟨other, less, same⟩ := List.mem_map.mp (List.mem_toArray.mp member)
        exact Nat.ne_of_lt (List.mem_range.mp less) (nthName_inj same)
      have size : (declaring number).slots.size = number := length_nthNames number
      rw [serve]
      dsimp only [innermost, List.headD_cons]
      rw [FunctionScope.declare, missing, size]
      dsimp only
      rw [if_neg (by omega)]
      dsimp only [change]
      simp [declaring, nthNames_succ, Array.replicate_succ]

/-- A function that captures the first so many slots of the one around it. -/
def capturing (number : Nat) : FunctionScope :=
  { captures := ((List.range number).map fun slot => .outerSlot (UInt16.ofNat slot)).toArray }

theorem size_capturing (number : Nat) : (capturing number).captures.size = number := by
  rw [capturing, List.size_toArray, List.length_map, List.length_range]

theorem capturing_succ (number : Nat) :
    { capturing number with
      captures := (capturing number).captures.push (.outerSlot (UInt16.ofNat number)) } =
      capturing (number + 1) := by
  simp [capturing, List.range_succ]

theorem not_mem_capturing {number : Nat} (few : number < 65536) :
    .outerSlot (UInt16.ofNat number) ∉ (capturing number).captures := by
  intro member
  obtain ⟨slot, less, same⟩ := List.mem_map.mp (List.mem_toArray.mp member)
  have less := List.mem_range.mp less
  have same := congrArg UInt16.toNat (CaptureSource.outerSlot.inj same)
  rw [UInt16.toNat_ofNat_of_lt' (show slot < 65536 by omega),
    UInt16.toNat_ofNat_of_lt' (show number < 65536 by omega)] at same
  exact Nat.ne_of_lt less same

/-- Slots of one function are captured one after the other. -/
theorem run_resolve {top : FunctionScope} {outer : Scopes} {number count : Nat}
    (few : number ≤ 65535) (room : number ≤ limit) (part : count ≤ number) :
    ∃ captured, run limit ⟨top, {} :: declaring number :: outer⟩ ((nthNames count).map .resolve) =
      ⟨top, capturing count :: { declaring number with captured } :: outer⟩ := by
  induction count with
  | zero => exact ⟨_, rfl⟩
  | succ count ih =>
      obtain ⟨captured, served⟩ := ih (by omega)
      have found : FunctionScope.find? { declaring number with captured } (nthName count) =
          some count := find?_nthName rfl (by omega)
      have taken := FunctionScope.capture_of_not_mem (not_mem_capturing (show count < 65536 by omega))
        (show (capturing count).captures.size < limit by rw [size_capturing]; omega)
      rw [size_capturing, capturing_succ] at taken
      rw [nthNames_succ, List.map_append, run_append, served]
      refine ⟨captured.setIfInBounds count true, ?_⟩
      change SymbolTable.mk top (tryResolve limit (nthName count) _).2 = _
      rw [tryResolve, show (capturing count).find? (nthName count) = none from
        FunctionScope.find?_eq_none.mpr (Array.not_mem_empty _)]
      dsimp only
      rw [tryCapture, found]
      dsimp only
      rw [keep, taken]
      rfl

theorem tryResolve_relayed {scope own around : FunctionScope} {outer : Scopes} {name : String}
    {slot : Nat} (missing : scope.find? name = none) (missing' : own.find? name = none)
    (found : around.find? name = some slot)
    (new : .outerSlot (UInt16.ofNat slot) ∉ own.captures)
    (new' : .outerCapture (UInt16.ofNat own.captures.size) ∉ scope.captures)
    (room : own.captures.size < limit) (room' : scope.captures.size < limit) :
    tryResolve limit name (scope :: own :: around :: outer) =
      (.ok (.capture (UInt16.ofNat scope.captures.size)),
        { scope with
          captures := scope.captures.push (.outerCapture (UInt16.ofNat own.captures.size)) } ::
          { own with captures := own.captures.push (.outerSlot (UInt16.ofNat slot)) } ::
            around.markCaptured slot :: outer) := by
  rw [tryResolve, missing]
  dsimp only
  rw [tryCapture, missing']
  dsimp only
  rw [tryCapture, found]
  dsimp only
  rw [keep, FunctionScope.capture_of_not_mem new room]
  dsimp only
  rw [keep, FunctionScope.capture_of_not_mem new' room']
  rfl

theorem nthName_ne {n : Nat} {name : String} (other : ∃ c ∈ name.toList, c ≠ 'v') :
    nthName n ≠ name := by
  rintro rfl
  obtain ⟨c, member, apart⟩ := other
  rw [nthName, String.toList_ofList] at member
  exact apart (List.eq_of_mem_replicate member)

theorem find?_declaring {number : Nat} {name : String} (other : ∃ c ∈ name.toList, c ≠ 'v')
    {scope : FunctionScope} (slots : scope.slots = (nthNames number).toArray) :
    scope.find? name = none := by
  refine FunctionScope.find?_eq_none.mpr fun member => ?_
  rw [slots] at member
  obtain ⟨n, -, same⟩ := List.mem_map.mp (List.mem_toArray.mp member)
  exact nthName_ne other same

/-- Two variables of the outermost function, so many of the function in it, and a function in there
that refers to all of these and to the first of the two. -/
def crowding (number : Nat) : List Request :=
  [.openFunction, .declareLocal "x", .declareLocal "y", .openFunction] ++
    (nthNames number).map .declareLocal ++ [.openFunction] ++ (nthNames number).map .resolve ++
      [.resolve "x"]

/-- What these requests lead to. -/
def crowded (number : Nat) (captured : Array Bool) : Scopes :=
  [{ captures := (capturing number).captures.push (.outerCapture 0) },
    { declaring number with captured, captures := #[.outerSlot 0] },
    { slots := #["x", "y"], captured := #[true, false] }]

/-- The requests fill the captures of the inner function. -/
theorem run_crowding {number : Nat} (few : number ≤ 65535) :
    ∃ captured, (run 65537 {} (crowding number)).functions = crowded number captured := by
  have first : run 65537 {} [.openFunction, .declareLocal "x", .declareLocal "y", .openFunction] =
      ⟨{ slots := #[""], captured := #[false] },
        [{}, { slots := #["x", "y"], captured := #[false, false] }]⟩ := by
    decide +kernel
  have room : number ≤ 65537 := by omega
  obtain ⟨captured, resolved⟩ :=
    @run_resolve 65537 { slots := #[""], captured := #[false] }
      [{ slots := #["x", "y"], captured := #[false, false] }] number number few room (Nat.le_refl _)
  rw [crowding, run_append, run_append, run_append, run_append, first, run_declareLocal few room]
  change ∃ captured, (run 65537 (run 65537 ⟨_, {} :: declaring number :: _⟩ _) _).functions = _
  rw [resolved]
  refine ⟨captured, ?_⟩
  change (tryResolve 65537 "x" _).2 = _
  have missing : FunctionScope.find? (capturing number) "x" = none :=
    FunctionScope.find?_eq_none.mpr (Array.not_mem_empty _)
  have missing' : FunctionScope.find? { declaring number with captured } "x" = none :=
    find?_declaring ⟨'x', by decide, by decide⟩ rfl
  have found : FunctionScope.find? { slots := #["x", "y"], captured := #[false, false] } "x" =
      some 0 := by
    decide +kernel
  rw [tryResolve_relayed missing missing' found]
  case new => exact Array.not_mem_empty _
  case new' => simp [capturing]
  case room => exact Nat.succ_pos _
  case room' => rw [size_capturing]; omega
  rfl

theorem resolve_crowding {number : Nat} (few : number ≤ 65535) (positive : 0 < number) :
    ∃ first second,
      resolve 65537 (nthName 0) (run 65537 {} (crowding number)).functions =
        .ok (.capture 0, first) ∧
      resolve 65537 "y" (run 65537 {} (crowding number)).functions =
        .ok (.capture (UInt16.ofNat (number + 1)), second) ∧
      nearest? (nthName 0) (run 65537 {} (crowding number)).functions = some ⟨1, 0⟩ ∧
      nearest? "y" (run 65537 {} (crowding number)).functions = some ⟨0, 1⟩ := by
  obtain ⟨captured, served⟩ := run_crowding few
  rw [served]
  have missing (name : String) : FunctionScope.find?
      { captures := (capturing number).captures.push (.outerCapture 0) } name = none :=
    FunctionScope.find?_eq_none.mpr (Array.not_mem_empty _)
  have here : FunctionScope.find?
      { declaring number with captured, captures := #[.outerSlot 0] } (nthName 0) = some 0 :=
    find?_nthName rfl positive
  have further : FunctionScope.find?
      { declaring number with captured, captures := #[.outerSlot 0] } "y" = none :=
    find?_declaring ⟨'y', by decide, by decide⟩ rfl
  have around : FunctionScope.find? { slots := #["x", "y"], captured := #[true, false] } "y" =
      some 1 := by
    decide +kernel
  have there : ((capturing number).captures.push (.outerCapture 0)).findIdx?
      (· == .outerSlot (UInt16.ofNat 0)) = some 0 := by
    refine Array.findIdx?_eq_some_iff_getElem.mpr ⟨by simp, ?_, fun _ less => absurd less (Nat.not_lt_zero _)⟩
    simp [capturing, positive]
  have first : ∃ after, resolve 65537 (nthName 0) (crowded number captured) =
      .ok (.capture 0, after) := by
    rw [crowded, resolve_eq, tryResolve, missing]
    dsimp only
    rw [tryCapture, here]
    dsimp only
    rw [keep, FunctionScope.capture, there]
    exact ⟨_, rfl⟩
  have second : ∃ after, resolve 65537 "y" (crowded number captured) =
      .ok (.capture (UInt16.ofNat (number + 1)), after) := by
    rw [crowded, resolve_eq, tryResolve_relayed (missing "y") further around]
    case new => simp
    case new' => simp [capturing]
    case room => simp
    case room' => simp only [Array.size_push, size_capturing]; omega
    rw [Array.size_push, size_capturing]
    exact ⟨_, rfl⟩
  obtain ⟨after, first⟩ := first
  obtain ⟨after', second⟩ := second
  refine ⟨after, after', first, second, ?_, ?_⟩
  · rw [crowded, nearest?, missing, nearest?, here]
    rfl
  · rw [crowded, nearest?, missing, nearest?, further, nearest?, around]
    rfl

/-- A function is to capture two variables, which is one too many for a limit of one. -/
def refused : List Request :=
  [.openFunction, .declareLocal "a", .openFunction, .declareLocal "b", .openFunction, .resolve "a"]

theorem captures_run_out :
    (resolve 1 "b" (run 1 {} refused).functions = .error .tooManyCaptures ∧
      nearest? "b" (run 1 {} refused).functions = some ⟨1, 0⟩) ∧
    (run 8 {} [.openFunction, .declareLocal "a", .declareParameter "b"]).functions.map
      FunctionScope.parameters = [["a"]] ∧
    ∃ first second,
      resolve 65537 (nthName 0) (run 65537 {} (crowding 65535)).functions =
        .ok (.capture 0, first) ∧
      resolve 65537 "y" (run 65537 {} (crowding 65535)).functions = .ok (.capture 0, second) ∧
      nearest? (nthName 0) (run 65537 {} (crowding 65535)).functions = some ⟨1, 0⟩ ∧
      nearest? "y" (run 65537 {} (crowding 65535)).functions = some ⟨0, 1⟩ :=
  ⟨⟨by cbv, by cbv⟩, by decide +kernel, resolve_crowding (Nat.le_refl _) (by decide)⟩

end SymbolTable

end PocketScript
