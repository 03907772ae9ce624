/-!
# Directories in memory

Files and directories for hosts without a file system. Paths lead from the working directory, or
from the root when they begin with a slash, and are followed name by name. What cannot be read or
written is refused for the reasons, and in the words, of a common operating system.

Above the working directory there are directories too, but nothing is known of what they hold.
-/

namespace PocketScript

namespace Directory

/-- Where the names of a place are counted from. -/
inductive Anchor where
  /-- The directory so many levels above the working directory. -/
  | working (above : Nat)
  | root
  deriving DecidableEq, Repr

/-- The place of a file or directory, there or not: the names that lead down to it. -/
structure Place where
  anchor : Anchor
  names : List String
  deriving DecidableEq, Repr

namespace Place

/-- The working directory. -/
def here : Place := ⟨.working 0, []⟩

/-- The directory that holds a place; the root holds itself. -/
def parent (place : Place) : Place :=
  if place.names.isEmpty then
    match place.anchor with
    | .working above => ⟨.working (above + 1), []⟩
    | .root => place
  else { place with names := place.names.dropLast }

/-- The place a name leads to from a directory. -/
def enter (place : Place) (name : String) : Place :=
  if name = "" ∨ name = "." then place
  else if name = ".." then place.parent
  else { place with names := place.names ++ [name] }

end Place

end Directory

/-- Why a path cannot be used. -/
inductive PathFault where
  | notFound
  | notADirectory
  | isADirectory
  | nameTooLong
  /-- A zero byte is no part of any name. -/
  | zeroByte
  deriving DecidableEq, Repr

def PathFault.message : PathFault → String
  | notFound => "No such file or directory (os error 2)"
  | notADirectory => "Not a directory (os error 20)"
  | isADirectory => "Is a directory (os error 21)"
  | nameTooLong => "File name too long (os error 36)"
  | zeroByte => "file name contained an unexpected NUL byte"

/-- Files with their contents, and the directories that were made. -/
structure Directory where
  files : List (Directory.Place × List UInt8) := []
  made : List Directory.Place := []
  deriving Repr

namespace Directory

/-- The bytes of the longest name. -/
def maxName : Nat := 255

/-- The bytes of the longest path. -/
def maxPath : Nat := 4095

def file? (directory : Directory) (place : Place) : Option (List UInt8) :=
  (directory.files.find? (·.1 == place)).map (·.2)

/-- There is a directory at a place. -/
def isDirectory (directory : Directory) (place : Place) : Bool :=
  place.names.isEmpty || directory.made.contains place

/-- Names are looked up in directories only. -/
def checkDirectory (directory : Directory) (place : Place) : Except PathFault Unit :=
  if directory.isDirectory place then .ok ()
  else if (directory.file? place).isSome then .error .notADirectory
  else .error .notFound

/-- The place that a name leads to from another place. -/
def enter (directory : Directory) (place : Place) (name : String) : Except PathFault Place := do
  directory.checkDirectory place
  if name.utf8ByteSize > maxName then .error .nameTooLong else .ok (place.enter name)

/-- The place that names lead to, one after the other. -/
def follow (directory : Directory) (place : Place) : List String → Except PathFault Place
  | [] => .ok place
  | name :: rest => do directory.follow (← directory.enter place name) rest

/-- Where a path begins, and its names; those between two slashes in a row are empty. -/
def split (path : String) : Place × List String :=
  match path.splitOn "/" with
  | "" :: names => (⟨.root, []⟩, names)
  | names => (Place.here, names)

/-- Refuses what is no path at all. -/
def checkPath (path : String) : Except PathFault Unit :=
  if path.toList.contains '\x00' then .error .zeroByte
  else if path.utf8ByteSize > maxPath then .error .nameTooLong
  else if path.isEmpty then .error .notFound
  else .ok ()

/-- The place that a path leads to. -/
def resolve (directory : Directory) (path : String) : Except PathFault Place := do
  checkPath path
  let (start, names) := split path
  directory.follow start names

/-- The content of a file. -/
def load (directory : Directory) (path : String) : Except PathFault (List UInt8) := do
  let place ← directory.resolve path
  match directory.file? place with
  | some bytes => .ok bytes
  | none => .error (if directory.isDirectory place then .isADirectory else .notFound)

/-- Puts a content in the place of a file's, or makes the file. -/
def put (directory : Directory) (place : Place) (bytes : List UInt8) : Directory :=
  { directory with files := (place, bytes) :: directory.files.filter (·.1 != place) }

/-- Writes a file in a directory that is there already. A path that ends with a slash or with points
is one of a directory. -/
def store (directory : Directory) (path : String) (bytes : List UInt8) :
    Except PathFault Directory := do
  checkPath path
  let (start, names) := split path
  match (names.filter (!·.isEmpty)).reverse with
  | [] => .error .isADirectory
  | name :: before =>
      let holder ← directory.follow start before.reverse
      directory.checkDirectory holder
      if name = "." ∨ name = ".." ∨ names.getLast? = some "" then .error .isADirectory
      else
        let place ← directory.enter holder name
        if directory.isDirectory place then .error .isADirectory
        else .ok (directory.put place bytes)

/-- Makes the directories that names lead through, as far as that is possible. -/
def makeDirectories (directory : Directory) (place : Place) : List String → Directory
  | [] => directory
  | name :: rest =>
      match directory.enter place name with
      | .error _ => directory
      | .ok next =>
          if directory.isDirectory next || (directory.file? next).isSome then
            directory.makeDirectories next rest
          else { directory with made := next :: directory.made }.makeDirectories next rest

/-- The path of the directory that holds what a path leads to. -/
def holderPath (path : String) : String :=
  let trimmed (names : List String) := names.dropWhile fun name => name = "" ∨ name = "."
  String.intercalate "/" (trimmed (trimmed (path.splitOn "/").reverse).tail).reverse

/-- Writes a file and makes the directories on the way to it. When it cannot be written, only the
directories are made. -/
def create (directory : Directory) (path : String) (bytes : List UInt8) : Directory :=
  let holder := holderPath path
  let prepared :=
    match checkPath holder with
    | .error _ => directory
    | .ok () =>
        let (start, names) := split holder
        directory.makeDirectories start names
  match prepared.store path bytes with
  | .ok written => written
  | .error _ => prepared

/-- There is a file or a directory at a path. -/
def holds (directory : Directory) (path : String) : Bool :=
  match directory.resolve path with
  | .ok place => (directory.file? place).isSome || directory.isDirectory place
  | .error _ => false

end Directory

end PocketScript
