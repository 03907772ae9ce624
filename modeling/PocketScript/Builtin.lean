/-!
# Builtin functions

The functions every environment for scripts starts with: output, the clock and the timers.
-/

namespace PocketScript

inductive Builtin where
  | print
  | systicks
  | setTimeout
  | setInterval
  | clearTimeout
  | clearInterval
  deriving DecidableEq, Repr

namespace Builtin

/-- All builtin functions, in the order in which they are registered. -/
def all : List Builtin :=
  [print, systicks, setTimeout, setInterval, clearTimeout, clearInterval]

/-- The global name of a builtin function. -/
def name : Builtin → String
  | print => "print"
  | systicks => "systicks"
  | setTimeout => "setTimeout"
  | setInterval => "setInterval"
  | clearTimeout => "clearTimeout"
  | clearInterval => "clearInterval"

/-- The builtin function of a name. -/
def ofName? (name : String) : Option Builtin := all.find? (·.name == name)

end Builtin

/-- The name is that of a builtin function. -/
def isBuiltin (name : String) : Bool := (Builtin.ofName? name).isSome

end PocketScript
