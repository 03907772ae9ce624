import PocketScript.Tool

/-!
# The command line

The first argument names the tool, the others are its own.
-/

namespace PocketScript

/-- The words of the operating system for a failed file operation. -/
def fileReason : IO.Error → String
  | .noFileOrDirectory _ code details => s!"{details} (os error {code})"
  | .permissionDenied _ code details => s!"{details} (os error {code})"
  | .inappropriateType _ code details => s!"{details} (os error {code})"
  | .resourceExhausted _ code details => s!"{details} (os error {code})"
  | .invalidArgument _ code details => s!"{details} (os error {code})"
  | error => toString error

/-- The outcome of a file operation. -/
def attempt {α : Type} (operation : IO α) : IO (Except String α) := do
  match ← operation.toBaseIO with
  | .ok result => return .ok result
  | .error error => return .error (fileReason error)

/-- Writes a text at once. -/
def writeNow (stream : IO.FS.Stream) (text : String) : IO Unit := do
  stream.putStr text
  stream.flush

/-- The system that the program runs on; a tick is a millisecond. -/
def systemShell : Shell IO where
  load path := attempt do return (← IO.FS.readBinFile path).toList
  store path bytes := attempt (IO.FS.writeBinFile path ⟨bytes.toArray⟩)
  print text := do writeNow (← IO.getStdout) text
  complain text := do writeNow (← IO.getStderr) text
  pause := IO.sleep 1

/-- More slices than any run will ever use. -/
def unlimited : Nat := Nat.pow 2 62

def runTool (name : String) (args : List String) : IO UInt32 := do
  match Tool.ofName? name with
  | none => return 2
  | some tool =>
      let status ← (tool.run systemShell unlimited args).run
      return UInt32.ofNat (status.getD 1)

end PocketScript

def main (args : List String) : IO UInt32 :=
  match args with
  | name :: args => PocketScript.runTool name args
  | [] => return 2
