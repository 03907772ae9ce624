import PocketScript.Builtin.Natives
import PocketScript.Session

/-!
# Embedding in other programs

A host in another language passes bytes and gets numbers: zero or a count for success, a negative
status code for a failure, whose text it may then ask for.
-/

namespace PocketScript

namespace Embedding

/-- A status with the text of the failure that it stands for. -/
structure Status where
  code : Int
  error : Option String
  deriving DecidableEq, Repr

/-- The status of arguments that are not well formed. -/
def invalidArgument : Int := -41

def Status.success (code : Int) : Status := ⟨code, none⟩

/-- The largest count that a status can tell. -/
def maxCount : Nat := Nat.pow 2 31 - 1

/-- The status of a count. -/
def Status.ofCount (count : Nat) : Status := .success (min count maxCount : Nat)

def Status.ofFailure (failure : Failure) : Status := ⟨failure.code, some failure.message⟩

/-- Runs something whose value nobody wants. -/
def executed (program : ExceptT Failure Host Value) : Host Status := do
  match ← program.run with
  | .ok value =>
      Host.release value
      return .success 0
  | .error failure => return .ofFailure failure

/-- Runs a program text. -/
def executeText (bytes : List UInt8) : Host Status :=
  match Utf8.decode bytes with
  | .ok text => executed (Host.executeString text)
  | .error damage => return ⟨invalidArgument, some damage.message⟩

/-- Runs an image. -/
def executeImage (bytes : List UInt8) : Host Status := executed (Host.executeImage bytes)

/-- Runs the timers that are due. -/
def poll (now : UInt32) : Host Status := do
  match ← (Host.poll now).run with
  | .ok count => return .ofCount count
  | .error fault => return .ofFailure (.fault fault)

/-- What is wrong with a configuration that is too short. -/
def shortConfig : String := "io error: unexpected end of file"

/-- A new environment with the configuration that some bytes stand for. -/
def newWithConfig (bytes : List UInt8) : Except String Environment :=
  match Config.read? bytes with
  | some config => .ok (Environment.withBuiltins config)
  | none => .error shortConfig

/-- A new environment that writes a log. What it does while it is made is not in the log. -/
def newLogging : Environment := { Environment.withBuiltins {} with log := some #[] }

/-- The path that some bytes stand for. -/
def path (bytes : List UInt8) : Except String String :=
  (Utf8.decode bytes).mapError (·.message)

end Embedding

end PocketScript
