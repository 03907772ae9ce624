/-!
# Paths of images

An image lies next to the program text it was compiled from, under the same name with another
suffix. A path is a list of parts between slashes; empty parts and single points at its end do not
name anything.
-/

namespace PocketScript.Path

/-- The suffix of image files. -/
def imageSuffix : String := "pdc"

/-- The parts of a path in front of its file name, the last one first, and the file name; none for a
path that ends at a root or goes up. -/
def split? (path : String) : Option (List String × String) :=
  match (path.splitOn "/").reverse.dropWhile fun part => part.isEmpty || part == "." with
  | [] => none
  | ".." :: _ => none
  | name :: before => some (before, name)

/-- A file name without its suffix, and the suffix. The suffix follows the last point, unless
nothing stands in front of that. -/
def splitSuffix (name : String) : String × Option String :=
  match (name.splitOn ".").reverse with
  | suffix :: part :: before =>
      let stem := String.intercalate "." (part :: before).reverse
      if stem.isEmpty then (name, none) else (stem, some suffix)
  | _ => (name, none)

/-- The suffix of the file that a path names. -/
def suffix? (path : String) : Option String := do
  let (_, name) ← split? path
  (splitSuffix name).2

/-- The path with as many characters less at its end as its suffix has. -/
def cutSuffix (path : String) : String :=
  match suffix? path with
  | none => path
  | some suffix => String.ofList (path.toList.take (path.length - suffix.length))

/-- The path with the suffix of images behind the name, whose own suffix is taken off. A path that
ends at a root or goes up stays as it is. -/
def putSuffix (path : String) : String :=
  match split? path with
  | none => path
  | some (before, name) =>
      let file := (splitSuffix name).1 ++ "." ++ imageSuffix
      String.intercalate "/" (file :: before).reverse

/-- The path of the image that belongs to a path. The suffix is cut off first, and of a name such as
`..x` two points remain, a way up that gets no suffix. -/
def imageFor (path : String) : String := putSuffix (cutSuffix path)

/-- The path has the suffix of images. -/
def isImage (path : String) : Bool := suffix? path == some imageSuffix

end PocketScript.Path
