/-!
# Logs

A log with the lines of several environments tells in front of each line whose it is and when it was
written.
-/

namespace PocketScript

/-- A log in memory, of the environment with a number. -/
structure LogBuffer where
  id : Nat
  text : String := ""
  deriving DecidableEq, Repr

namespace LogBuffer

/-- The seconds in a number of microseconds, with six decimals. -/
def seconds (microseconds : Nat) : String :=
  let fraction := (microseconds % Nat.pow 10 6).repr
  let zeros := "".pushn '0' (6 - fraction.length)
  s!"{(microseconds / Nat.pow 10 6).repr}.{zeros}{fraction}"

/-- What stands in front of a line. -/
def stamp (id microseconds : Nat) : String := s!"ENV({id.repr}) at {seconds microseconds} "

/-- Adds a line, written so many microseconds after the beginning of the epoch. -/
def write (buffer : LogBuffer) (microseconds : Nat) (line : String) : LogBuffer :=
  { buffer with text := buffer.text ++ stamp buffer.id microseconds ++ line ++ "\n" }

/-- Takes what has been written. -/
def drain (buffer : LogBuffer) : String × LogBuffer := (buffer.text, { buffer with text := "" })

end LogBuffer

end PocketScript
