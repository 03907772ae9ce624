import PocketScript.Listing
import PocketScript.Shell

/-!
# Command line tools

One tool runs files in a single environment and then their timers, one compiles scripts to images,
and one lists an image. Each prints a short line with a status code when something fails, complains
in full, and ends with an exit status.
-/

namespace PocketScript

inductive Tool where
  /-- Runs scripts and images. -/
  | runner
  /-- Compiles scripts. -/
  | compiler
  /-- Lists an image. -/
  | lister
  deriving DecidableEq, Repr

namespace Tool

def all : List Tool := [runner, compiler, lister]

/-- The name of the tool on the command line. -/
def name : Tool → String
  | runner => "panda"
  | compiler => "pandac"
  | lister => "pandadump"

def ofName? (name : String) : Option Tool := all.find? (·.name == name)

def usage : Tool → String
  | runner => "usage: panda <script or image>..."
  | compiler => "usage: pandac <script>..."
  | lister => "usage: pandadump <image>"

variable {m : Type → Type} [Monad m]

/-- Prints a status line and complains about the reason. -/
def report (shell : Shell m) (reason status : String) : m Unit := do
  shell.complain (reason ++ "\n")
  shell.print (status ++ "\n")

/-- The status line for a file that does not run to its end. -/
def executionStatus (path : String) (failure : Failure) : String :=
  match failure with
  | .fault _ => s!"execute {path} fail:{failure.code}"
  | _ => s!"error:{failure.code}"

/-- Runs files one after the other, up to the first that fails. -/
def executeFiles (shell : Shell m) (limit : Nat) (environment : Environment) :
    List String → OptionT m (Option Environment)
  | [] => return some environment
  | path :: rest => do
      let (outcome, environment) ← shell.executeFile limit environment path
      match outcome with
      | .ok value =>
          let (_, environment) := Environment.release value environment
          executeFiles shell limit environment rest
      | .error failure =>
          OptionT.lift (report shell failure.message (executionStatus path failure))
          return none

/-- Runs files, then the timers they have started. -/
def runFiles (shell : Shell m) (limit : Nat) (paths : List String) : OptionT m Nat := do
  match ← executeFiles shell limit (Environment.withBuiltins {}) paths with
  | none => return 1
  | some environment =>
      match (← shell.runTimers limit limit environment).1 with
      | .ok () => return 0
      | .error fault =>
          OptionT.lift (report shell fault.message s!"execute timers fail:{fault.code}")
          return 1

/-- Compiles files, and tells whether all could be compiled. -/
def compileFiles (shell : Shell m) : List String → m Bool
  | [] => return true
  | path :: rest => do
      let outcome ← shell.compileFile path
      match outcome with
      | .ok image => shell.print s!"ok:{image}\n"
      | .error failure => report shell failure.message s!"fail:{failure.code}"
      let others ← compileFiles shell rest
      return others && outcome.isOk

/-- The listing of an image file. -/
def listing (shell : Shell m) (path : String) : m (Except Failure String) := do
  match ← shell.load path with
  | .error reason => return .error (.file reason)
  | .ok bytes => return (Listing.ofBytes bytes).mapError Failure.image

/-- Prints the listing of an image file. -/
def listFile (shell : Shell m) (path : String) : m Nat := do
  match ← listing shell path with
  | .ok text =>
      shell.print text
      return 0
  | .error failure =>
      report shell failure.message s!"error:{failure.code}"
      return 1

/-- Runs a tool with its arguments, and gives its exit status. -/
def run (tool : Tool) (shell : Shell m) (limit : Nat) (args : List String) : OptionT m Nat := do
  match tool, args with
  | _, [] =>
      shell.complain (tool.usage ++ "\n")
      return 2
  | runner, paths => runFiles shell limit paths
  | compiler, paths => return if ← OptionT.lift (compileFiles shell paths) then 0 else 1
  | lister, path :: _ => OptionT.lift (listFile shell path)

end Tool

end PocketScript
