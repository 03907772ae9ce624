import PocketScript.Compile
import PocketScript.Config
import PocketScript.Heap
import PocketScript.Host

/-!
# Environments

An environment is what scripts run in: a heap, a value stack and a frame stack, the loaded programs,
the globals, the native functions and the timers. Environments share nothing.

Operations come in two kinds. An update always succeeds. An action may end with a fault, and then
too it leaves an environment behind, the one in which the fault arose.
-/

namespace PocketScript

/-- An activation of a function. On the value stack its callee lies below `base`, the values of its
variables lie from `base` on, and its operands behind them. -/
structure Frame where
  unit : Nat
  index : UInt16
  /-- Where the next instruction of the function starts. -/
  pc : Nat
  base : Nat
  closure : Option Handle
  deriving DecidableEq, Repr, Inhabited

/-- A program in an environment, where it stays for ever: values may refer to it. -/
structure LoadedUnit where
  program : Program
  /-- For each string constant the slot of the global of that name, once it has been looked up. -/
  slots : Array (Option Nat)
  deriving Inhabited

/-- A function of the host under the name it was registered with. -/
structure Native where
  name : String
  run : NativeFunction

structure Environment where
  config : Config
  heap : Heap
  stack : Array Value := #[]
  frames : Array Frame := #[]
  units : Array LoadedUnit := #[]
  /-- The bytes that the loaded programs take. -/
  codeUsed : Nat := 0
  /-- The globals with their names; the place of one is its slot. One array stands for an array of
  values and a map from names to slots beside it. Slots are unbounded numbers here and have 32 bits
  there, as there are fewer than 2^32 globals. -/
  globals : Array (String × Value) := #[]
  natives : Array Native := #[]
  timers : TimerList := {}
  ticks : UInt32 := 0
  /-- What has been printed. -/
  output : String := ""
  /-- The lines of the log, unless there is none. -/
  log : Option (Array String) := none

namespace Environment

/-- An operation that always succeeds. -/
abbrev Update (α : Type) := StateM Environment α

/-- An operation that may end with a fault. -/
abbrev Action (α : Type) := ExceptT Fault (StateM Environment) α

/-- What a function tells of the environment. -/
def view {m : Type → Type} {α : Type} [MonadStateOf Environment m]
    (tell : Environment → α) : m α :=
  modifyGet fun environment => (tell environment, environment)

/-- An environment without globals. -/
def new (config : Config) : Environment := { config, heap := Heap.new config.pools }

/-- Writes a line to the log. -/
def logLine (line : String) : Update Unit :=
  modify fun environment => { environment with log := environment.log.map (·.push line) }

/-- Adds a text to what has been printed. The output is a buffer, which takes everything: an output
that fails to be written to, of which `print` would report the error, is left out. -/
def printText (text : String) : Update Unit :=
  modify fun environment => { environment with output := environment.output ++ text }

/-- What has been printed since it was last taken. -/
def takeOutput (environment : Environment) : String × Environment :=
  (environment.output, { environment with output := "" })

/-- The lines logged since they were last taken. -/
def takeLog (environment : Environment) : List String × Environment :=
  ((environment.log.getD #[]).toList,
    { environment with log := environment.log.map fun _ => #[] })

/-! ## The heap -/

def updateHeap (change : Heap → Heap) : Update Unit :=
  modify fun environment => { environment with heap := change environment.heap }

/-- An operation of the heap as an action. -/
def onHeap {α : Type} (operation : Heap → Heap.Outcome α) : Action α := fun environment =>
  let (outcome, heap) := operation environment.heap
  (outcome, { environment with heap })

/-- Counts a reference to a value. -/
def retain (value : Value) : Update Unit := updateHeap (·.retain value)

/-- Gives up a reference to a value. -/
def release (value : Value) : Update Unit := updateHeap (·.release value)

def releaseAll (values : List Value) : Update Unit := updateHeap (·.releaseAll values)

def releaseBlock (block : Handle) : Update Unit := updateHeap (·.releaseBlock block)

/-- The usage of a pool in the log. -/
def describeUsage (usage : PoolUsage) : String :=
  let size := usage.blockSize.repr
  let capacity := usage.capacity.repr
  let used := usage.used.repr
  s!"PoolStats \x7b block_size: {size}, capacity: {capacity}, used: {used} \x7d"

/-- An environment in brief, with the number it goes by: how many units, globals and timers there
are, and the bytes that the programs take. -/
def describe (number : Nat) (environment : Environment) : String :=
  let units := environment.units.size.repr
  let globals := environment.globals.size.repr
  let timers := environment.timers.timers.length.repr
  let used := environment.codeUsed.repr
  let counts := s!"units: {units}, globals: {globals}, timers: {timers}, code_used: {used}"
  s!"Env \x7b id: {number}, {counts} \x7d"

/-- Notes in the log that the heap had no room. -/
def logFullHeap : Update Unit := do
  let usage ← view (·.heap.usage)
  let pools := ", ".intercalate (usage.map describeUsage)
  logLine s!"allocation failed, pools: [{pools}]"

/-- An action that notes its failure in the log. -/
def notingFullHeap {α : Type} (action : Action α) : Action α :=
  tryCatch action fun fault => do
    logFullHeap
    throw fault

/-- A new string, for the host. -/
def allocString (text : String) : Action Value :=
  notingFullHeap (onHeap (·.allocString text))

/-- A new string that the host owns. -/
def allocForeign (text : String) (hostHandle : Nat) : Action Value :=
  notingFullHeap (onHeap (·.allocForeign text hostHandle))

/-! ## Globals and natives -/

/-- The slot of a global: the only place with its name, as no name is bound twice. -/
def globalSlot? (environment : Environment) (name : String) : Option Nat :=
  environment.globals.findIdx? (·.1 == name)

def global? (environment : Environment) (name : String) : Option Value := do
  let slot ← environment.globalSlot? name
  let binding ← environment.globals[slot]?
  pure binding.2

def hasGlobal (environment : Environment) (name : String) : Bool :=
  (environment.globalSlot? name).isSome

/-- Puts a value, whose reference is handed over, in the place of a global's value. -/
def setGlobal (slot : Nat) (value : Value) : Update Unit := do
  let old ← view (·.globals[slot]?)
  modify fun environment =>
    { environment with globals := environment.globals.modify slot fun (name, _) => (name, value) }
  releaseAll (old.map (·.2)).toList

/-- Binds a global to a value, whose reference is handed over. -/
def defineGlobal (name : String) (value : Value) : Update Unit := do
  match ← view (·.globalSlot? name) with
  | some slot => setGlobal slot value
  | none =>
      modify fun environment =>
        { environment with globals := environment.globals.push (name, value) }

def nativeId? (environment : Environment) (name : String) : Option Nat :=
  environment.natives.findIdx? (·.name == name)

def nativeName? (environment : Environment) (id : Nat) : Option String :=
  environment.natives[id]?.map (·.name)

/-- Makes a native function known under a name, also as a global. A name that is known already
keeps its number. -/
def register (name : String) (run : NativeFunction) : Update Nat := do
  let known ← view (·.nativeId? name)
  let next ← view (·.natives.size)
  let id := known.getD next
  modify fun environment =>
    { environment with
      natives := match known with
        | some id => environment.natives.setIfInBounds id ⟨name, run⟩
        | none => environment.natives.push ⟨name, run⟩ }
  logLine s!"registered native '{name}' as {id.repr}"
  defineGlobal name (.native id)
  pure id

/-! ## Programs -/

/-- Compiles a program text; it may assign to the globals that there are. -/
def compile (environment : Environment) (source : Source) : Except Diagnostic Program :=
  (PocketScript.compile source.bytes environment.config.limits environment.hasGlobal).mapError
    (·.report source)

/-- Loads a program as a new unit, when the code space has room for it. -/
def load (program : Program) : Action Nat := do
  if program.functions.isEmpty then throw .invalidOperand
  let footprint := program.footprint
  let used ← view (·.codeUsed)
  let space ← view (·.config.codeSpace)
  if used + footprint > space then
    logLine s!"no code space for {footprint.repr} bytes ({used.repr} of {space.repr} used)"
    throw .outOfMemory
  let unit ← view (·.units.size)
  let slots := Array.replicate program.strings.size none
  modify fun environment =>
    { environment with
      codeUsed := used + footprint
      units := environment.units.push { program, slots } }
  pure unit

end Environment

end PocketScript
