import PocketScript.Diagnostic
import PocketScript.Fault
import PocketScript.Program
import PocketScript.Timer

/-!
# Host programs

What a host does with an environment, and likewise what a native function does when a script calls
it, is a sequence of requests and calls, each depending on the answers to those before. A request is
answered at once and cannot reach the stack; a call runs a function of the scripts to its end before
its result is known.
-/

namespace PocketScript

/-- What a host asks of an environment, apart from calls. -/
inductive Request where
  /-- Counts a reference to a value. -/
  | retain (value : Value)
  /-- Gives up a reference to a value. -/
  | release (value : Value)
  | allocString (text : String)
  /-- The text of a string. -/
  | textOf (value : Value)
  /-- How a value is shown in printed output. -/
  | display (value : Value)
  /-- Prints a text. What takes printed text never fails, as a buffer does not. -/
  | print (text : String)
  | log (line : String)
  | ticks
  | startTimer (wait : UInt32) (callback : Value) (repeats : Bool) (param : Value)
  | stopTimer (id : UInt32)
  | stopTimers
  | hasTimer (id : UInt32)
  /-- Takes the timers that are due. -/
  | takeDue (now : UInt32)
  /-- Gives up what was taken of a due timer. -/
  | settle (due : DueTimer)
  | compile (source : Source)
  /-- Loads a program as a new unit. -/
  | load (program : Program)

/-- What a request is answered with. -/
abbrev Request.Answer : Request → Type
  | retain _ | release _ | print _ | log _ | settle _ => Unit
  | allocString _ => Except Fault Value
  | textOf _ => Option String
  | display _ => String
  | ticks => UInt32
  | startTimer _ _ _ _ => Except Fault UInt32
  | stopTimer _ | hasTimer _ => Bool
  | stopTimers => Nat
  | takeDue _ => List DueTimer
  | compile _ => Except Diagnostic Program
  | load _ => Except Fault Nat

/-- A sequence of requests and calls with a result. -/
inductive Host (α : Type) where
  | done (result : α)
  | ask (request : Request) (next : request.Answer → Host α)
  | call (callee : Value) (args : List Value) (next : Except Fault Value → Host α)

namespace Host

variable {α β : Type}

/-- A host program followed by one that depends on its result. -/
def bind (program : Host α) (next : α → Host β) : Host β :=
  match program with
  | done result => next result
  | ask request continuation => ask request fun answer => (continuation answer).bind next
  | call callee args continuation => call callee args fun answer => (continuation answer).bind next

instance : Monad Host where
  pure := done
  bind := bind

theorem bind_done (program : Host α) : program.bind done = program := by
  induction program with
  | done result => rfl
  | ask request continuation ih => simp only [bind, ih]
  | call callee args continuation ih => simp only [bind, ih]

theorem bind_bind {γ : Type} (program : Host α) (next : α → Host β) (last : β → Host γ) :
    (program.bind next).bind last = program.bind fun result => (next result).bind last := by
  induction program with
  | done result => rfl
  | ask request continuation ih => simp only [bind, ih]
  | call callee args continuation ih => simp only [bind, ih]

instance : LawfulMonad Host :=
  LawfulMonad.mk' Host bind_done (fun _ _ => rfl) bind_bind

/-- The one request. -/
def request (request : Request) : Host request.Answer := ask request done

def retain (value : Value) : Host Unit := request (.retain value)

def release (value : Value) : Host Unit := request (.release value)

def allocString (text : String) : ExceptT Fault Host Value := request (.allocString text)

def textOf (value : Value) : Host (Option String) := request (.textOf value)

def display (value : Value) : Host String := request (.display value)

def print (text : String) : Host Unit := request (.print text)

def log (line : String) : Host Unit := request (.log line)

def ticks : Host UInt32 := request .ticks

def startTimer (wait : UInt32) (callback : Value) (repeats : Bool) (param : Value) :
    ExceptT Fault Host UInt32 :=
  request (.startTimer wait callback repeats param)

def stopTimer (id : UInt32) : Host Bool := request (.stopTimer id)

def stopTimers : Host Nat := request .stopTimers

def hasTimer (id : UInt32) : Host Bool := request (.hasTimer id)

def takeDue (now : UInt32) : Host (List DueTimer) := request (.takeDue now)

def settle (due : DueTimer) : Host Unit := request (.settle due)

def compile (source : Source) : ExceptT Diagnostic Host Program := request (.compile source)

def load (program : Program) : ExceptT Fault Host Nat := request (.load program)

/-- Calls a function; the result is owned by the host. -/
def run (callee : Value) (args : List Value) : ExceptT Fault Host Value := call callee args done

end Host

/-- A function of the host that scripts call: what it does with its arguments. Its result, or its
fault, becomes that of the call. -/
abbrev NativeFunction := List Value → ExceptT Fault Host Value

end PocketScript
