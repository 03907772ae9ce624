import PocketScript.Builtin.Natives
import PocketScript.Directory
import PocketScript.Machine
import PocketScript.Session

/-!
# Scripts in files

Compiling a script file to an image beside it, running a file, and running timers until none is
left. The system with its files and its output is passed in, so the same operations work on a real one and
on one in memory. Runs are limited: they go on slice by slice, what the scripts print appears after
each slice, and there is no outcome when the slices do not suffice.
-/

namespace PocketScript

/-- What a system offers: the files by their paths, two texts that grow, and time that passes. -/
structure Shell (m : Type → Type) where
  /-- The content of a file, or the reason why it cannot be read. -/
  load : String → m (Except String (List UInt8))
  /-- Replaces the content of a file, or gives the reason why it cannot be written. -/
  store : String → List UInt8 → m (Except String Unit)
  print : String → m Unit
  complain : String → m Unit
  /-- Lets a tick pass. -/
  pause : m Unit

/-- The image of a script that relies on no globals but the builtin functions. -/
def Source.toImage (source : Source) : Except Failure (List UInt8) := do
  let program ← (compile source.bytes {} isBuiltin).mapError fun error =>
    Failure.compile (error.report source)
  (Image.write program ImageHeader.host).mapError Failure.image

namespace Shell

variable {m : Type → Type} [Monad m]

/-- The steps after which printed output appears. -/
def sliceSize : Nat := 100000

/-- Runs a machine until its host has finished. -/
def run {α : Type} (shell : Shell m) : Nat → Machine α → OptionT m (α × Environment)
  | 0, _ => failure
  | slices + 1, machine => do
      let machine := machine.forward sliceSize
      let (printed, environment) := machine.environment.takeOutput
      shell.print printed
      match machine.result? with
      | some result => return (result, environment)
      | none => shell.run slices { machine with environment }

/-- Compiles a script file to an image beside it, and gives the image's path. -/
def compileFile (shell : Shell m) (path : String) : m (Except Failure String) := do
  match ← shell.load path with
  | .error reason => return .error (.file reason)
  | .ok bytes =>
      match Source.toImage { name := path, bytes } with
      | .error failure => return .error failure
      | .ok image =>
          let target := Path.imageFor path
          match ← shell.store target image with
          | .error reason => return .error (.file reason)
          | .ok () => return .ok target

/-- Runs a script file or an image file. -/
def executeFile (shell : Shell m) (slices : Nat) (environment : Environment) (path : String) :
    OptionT m (Except Failure Value × Environment) := do
  match ← shell.load path with
  | .error reason => return (.error (.file reason), environment)
  | .ok bytes => shell.run slices ⟨environment, .host (Host.executeFile path bytes).run⟩

/-- Runs timers, tick by tick, until none is left or one fails. -/
def runTimers (shell : Shell m) (slices : Nat) : Nat → Environment →
    OptionT m (Except Fault Unit × Environment)
  | 0, _ => failure
  | ticks + 1, environment => do
      if environment.timers.timers.isEmpty then return (.ok (), environment)
      shell.pause
      let (_, environment) := Environment.advance 1 environment
      let (outcome, environment) ← shell.run slices ⟨environment, .host Host.pollNow.run⟩
      match outcome with
      | .ok _ => shell.runTimers slices ticks environment
      | .error fault => return (.error fault, environment)

end Shell

/-- A system in memory. -/
structure Workspace where
  directory : Directory := {}
  printed : String := ""
  complaints : String := ""

/-- A system in memory, where no time passes. -/
def Workspace.shell : Shell (StateM Workspace) where
  load path := fun workspace =>
    ((workspace.directory.load path).mapError PathFault.message, workspace)
  store path bytes := fun workspace =>
    match workspace.directory.store path bytes with
    | .ok directory => (.ok (), { workspace with directory })
    | .error fault => (.error fault.message, workspace)
  print text := modify fun workspace => { workspace with printed := workspace.printed ++ text }
  complain text :=
    modify fun workspace => { workspace with complaints := workspace.complaints ++ text }
  pause := pure ()

end PocketScript
