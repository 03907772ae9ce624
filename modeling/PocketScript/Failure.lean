import PocketScript.Diagnostic
import PocketScript.Fault
import PocketScript.Image

/-!
# Failures

What a host may get instead of a result: the text does not compile, the image is not valid, the
execution ends with a fault, or a file cannot be used.
-/

namespace PocketScript

inductive Failure where
  | compile (diagnostic : Diagnostic)
  | image (reason : ImageFault)
  | fault (reason : Fault)
  /-- A file cannot be read or written, for the reason that the file system gives. -/
  | file (reason : String)

namespace Failure

/-- The status code reported to the host. -/
def code : Failure → Int
  | compile diagnostic => diagnostic.code
  | image reason => reason.code
  | fault reason => reason.code
  | file _ => -40

def message : Failure → String
  | compile diagnostic => diagnostic.render
  | image reason => reason.message
  | fault reason => reason.message
  | file reason => reason

end Failure

end PocketScript
