import PocketScript.Decimal.Text
import PocketScript.Image
import PocketScript.Text.Quoted

/-!
# Listings of images

A listing shows an image to a reader: its layout, its constants and the instructions of its
functions. Code that does not list completely is replaced by the reason.
-/

namespace PocketScript.Listing

/-- A number with blanks in front, up to a width. -/
def padded (width number : Nat) : String :=
  let digits := toString number
  String.ofList (List.replicate (width - digits.length) ' ') ++ digits

/-- The lines of a table: a title with the number of entries, then each entry behind its index. -/
def table (title : String) (entries : List String) : List String :=
  s!"{title}: {toString entries.length}" ::
    entries.zipIdx.map fun (entry, index) => s!"  {padded 4 index}: {entry}"

/-- The lines of a function. -/
def function (index : Nat) (definition : FunctionDef) : List String :=
  let counts :=
    s!"args {toString definition.argCount.toNat}, vars {toString definition.varCount.toNat}" ++
      s!", stack {toString definition.stackHigh.toNat}"
  let title :=
    s!"  function {toString index}: {counts}" ++ if definition.isClosure then ", closure" else ""
  let body :=
    match definition.code.disassemble with
    | .ok instructions =>
        instructions.map fun (pc, instruction) => s!"    {padded 5 pc}  {instruction.text}"
    | .error fault => [s!"    <{fault.message}>"]
  title :: body

/-- The lines of an image that was read from `size` bytes. -/
def lines (image : Image) (size : Nat) : List String :=
  let order := match image.header.byteOrder with
    | .little => "little endian"
    | .big => "big endian"
  let wordSize := toString image.header.wordSize.toNat
  let program := image.program
  s!"image: {toString size} bytes, {wordSize}-byte words, {order}" ::
    table "numbers" (program.numbers.toList.map Number.listed) ++
    table "strings" (program.strings.toList.map Quoted.encode) ++
    s!"functions: {toString program.functions.size}" ::
    program.functions.toList.zipIdx.flatMap fun (definition, index) => function index definition

/-- The listing of an image, each line ended by a newline. -/
def ofBytes (bytes : List UInt8) : Except ImageFault String := do
  let image ← Image.read bytes
  pure (String.join ((lines image bytes.length).map (· ++ "\n")))

end PocketScript.Listing
