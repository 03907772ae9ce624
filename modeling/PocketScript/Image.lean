import PocketScript.Program
import PocketScript.Text.Utf8

/-!
# Images

An image is a program as bytes: a header with the width of a word and the byte order, the sizes of
the three tables, then the numbers, the strings and the functions. All whole numbers follow the
declared byte order; only the code of the functions does not depend on it. An image is read only
when its words are eight bytes wide, and it is read completely or not at all.
-/

namespace PocketScript

inductive ByteOrder where
  | little
  | big
  deriving DecidableEq, Repr

/-- The byte that declares a byte order. -/
def ByteOrder.marker : ByteOrder → UInt8
  | little => 0
  | big => 1

structure ImageHeader where
  /-- The width of a word in bytes. -/
  wordSize : UInt8
  byteOrder : ByteOrder
  deriving DecidableEq, Repr

/-- The width of a word in the images that can be read. -/
def hostWordSize : UInt8 := 8

/-- The header that images get unless another one is asked for. -/
def ImageHeader.host : ImageHeader := ⟨hostWordSize, .little⟩

/-- Why a program cannot be written or an image cannot be read. -/
inductive ImageFault where
  | truncated (size : Nat)
  | wordSize (found : UInt8)
  | byteOrder (found : UInt8)
  | countOverflow (count : Nat)
  | trailingBytes (count : Nat)
  | invalidString (index : Nat)
  | valueTooLarge (value : Nat)
  deriving DecidableEq, Repr

namespace ImageFault

/-- The status code reported to the host. -/
def code : ImageFault → Int
  | truncated _ => -10
  | wordSize _ => -11
  | byteOrder _ => -12
  | countOverflow _ => -13
  | trailingBytes _ => -14
  | invalidString _ => -15
  | valueTooLarge _ => -16

def message : ImageFault → String
  | truncated size => s!"image truncated at offset {toString size}"
  | wordSize found => s!"unsupported address size {toString found.toNat}"
  | byteOrder found => s!"unknown byte order marker {toString found.toNat}"
  | countOverflow count => s!"table count {toString count} exceeds the image size"
  | trailingBytes count => s!"{toString count} unexpected bytes after the function table"
  | invalidString index =>
      s!"string constant {toString index} is not valid UTF-8 or contains a NUL"
  | valueTooLarge value => s!"value {toString value} does not fit in an image word"

end ImageFault

namespace ByteOrder

/-- The low `width` bytes of a whole number, the lowest first. -/
def littleBytes : Nat → Nat → List UInt8
  | 0, _ => []
  | width + 1, value => UInt8.ofNat (value % 256) :: littleBytes width (value / 256)

/-- The whole number that bytes stand for, the lowest first. -/
def littleValue : List UInt8 → Nat
  | [] => 0
  | byte :: rest => byte.toNat + 256 * littleValue rest

/-- A whole number as `width` bytes in this order. -/
def write (order : ByteOrder) (width value : Nat) : List UInt8 :=
  match order with
  | little => littleBytes width value
  | big => (littleBytes width value).reverse

/-- The whole number that bytes in this order stand for. -/
def read (order : ByteOrder) (bytes : List UInt8) : Nat :=
  match order with
  | little => littleValue bytes
  | big => littleValue bytes.reverse

end ByteOrder

namespace Image

/-- The flag of functions that are closures. -/
def closureFlag : UInt16 := 1

/-- A word of an image. -/
def word (header : ImageHeader) (value : Nat) : Except ImageFault (List UInt8) :=
  if header.wordSize = 8 then .ok (header.byteOrder.write 8 value)
  else if header.wordSize = 4 then
    if value < Nat.pow 2 32 then .ok (header.byteOrder.write 4 value)
    else .error (.valueTooLarge value)
  else .error (.wordSize header.wordSize)

/-- A string constant, which must not contain a NUL. -/
def writeString (header : ImageHeader) (text : String) (index : Nat) :
    Except ImageFault (List UInt8) := do
  let bytes := Utf8.encode text
  if bytes.contains 0 then .error (.invalidString index)
  else pure ((← word header bytes.length) ++ bytes)

def writeFunction (header : ImageHeader) (function : FunctionDef) :
    Except ImageFault (List UInt8) := do
  let short (value : UInt16) := header.byteOrder.write 2 value.toNat
  let flags : UInt16 := if function.isClosure then closureFlag else 0
  let size ← word header function.code.size
  pure (short function.varCount ++ short function.argCount ++ short function.stackHigh ++
    short flags ++ size ++ function.code.toList)

/-- The image of a program. -/
def write (program : Program) (header : ImageHeader) : Except ImageFault (List UInt8) := do
  let numberCount ← word header program.numbers.size
  let stringCount ← word header program.strings.size
  let functionCount ← word header program.functions.size
  let numbers := program.numbers.toList.flatMap fun number =>
    header.byteOrder.write 8 number.bits.toNat
  let strings ← program.strings.toList.zipIdx.mapM fun (text, index) =>
    writeString header text index
  let functions ← program.functions.toList.mapM (writeFunction header)
  pure (header.wordSize :: header.byteOrder.marker :: 0 :: 0 ::
    (numberCount ++ stringCount ++ functionCount ++ numbers ++ strings.flatten ++
      functions.flatten))

end Image

/-- An image that was read: its header and what it holds. -/
structure Image where
  header : ImageHeader
  program : Program
  deriving Repr

namespace Image

def number? (image : Image) (index : Nat) : Option Number := image.program.numbers[index]?

def string? (image : Image) (index : Nat) : Option String := image.program.strings[index]?

def function? (image : Image) (index : Nat) : Option FunctionDef := image.program.functions[index]?

/-- Reading takes bytes from the front and returns the rest. -/
abbrev Reader (α : Type) := List UInt8 → Except ImageFault (α × List UInt8)

/-- The next `count` bytes of an image of `total` bytes. -/
def readBytes (total count : Nat) : Reader (List UInt8) := fun bytes =>
  let front := bytes.take count
  if front.length = count then .ok (front, bytes.drop count) else .error (.truncated total)

def readNat (total : Nat) (order : ByteOrder) (width : Nat) : Reader Nat := fun bytes => do
  let (front, rest) ← readBytes total width bytes
  pure (order.read front, rest)

def readShort (total : Nat) (order : ByteOrder) : Reader UInt16 := fun bytes => do
  let (value, rest) ← readNat total order 2 bytes
  pure (UInt16.ofNat value, rest)

def readWord (total : Nat) (order : ByteOrder) : Reader Nat :=
  readNat total order hostWordSize.toNat

/-- Reads `count` further entries of a table; an entry is told its index. -/
def readMany {α : Type} (entry : Nat → Reader α) (read : Array α) :
    Nat → Reader (Array α)
  | 0, bytes => .ok (read, bytes)
  | count + 1, bytes =>
      match entry read.size bytes with
      | .error fault => .error fault
      | .ok (item, rest) => readMany entry (read.push item) count rest

/-- Reads a table, unless the rest of the image is too short for so many of its smallest entries. -/
def readTable {α : Type} (count entrySize : Nat) (entry : Nat → Reader α) : Reader (Array α) :=
  fun bytes =>
    if count * entrySize ≤ bytes.length then readMany entry #[] count bytes
    else .error (.countOverflow count)

def readNumber (total : Nat) (order : ByteOrder) (_ : Nat) : Reader Number := fun bytes => do
  let (bits, rest) ← readNat total order 8 bytes
  pure (⟨UInt64.ofNat bits⟩, rest)

def readString (total : Nat) (order : ByteOrder) (index : Nat) : Reader String := fun bytes => do
  let (size, bytes) ← readWord total order bytes
  let (body, rest) ← readBytes total size bytes
  match Utf8.decode? body with
  | none => .error (.invalidString index)
  | some text => if body.contains 0 then .error (.invalidString index) else pure (text, rest)

def readFunction (total : Nat) (order : ByteOrder) (_ : Nat) : Reader FunctionDef :=
  fun bytes => do
    let (varCount, bytes) ← readShort total order bytes
    let (argCount, bytes) ← readShort total order bytes
    let (stackHigh, bytes) ← readShort total order bytes
    let (flags, bytes) ← readShort total order bytes
    let (size, bytes) ← readWord total order bytes
    let (code, rest) ← readBytes total size bytes
    let isClosure := flags &&& closureFlag ≠ 0
    pure ({ varCount, argCount, stackHigh, isClosure, code := code.toArray }, rest)

/-- Reads the tables behind the header. -/
def readTables (total : Nat) (order : ByteOrder) : Reader Program := fun bytes => do
  let (numberCount, bytes) ← readWord total order bytes
  let (stringCount, bytes) ← readWord total order bytes
  let (functionCount, bytes) ← readWord total order bytes
  let (numbers, bytes) ← readTable numberCount 8 (readNumber total order) bytes
  let (strings, bytes) ← readTable stringCount 8 (readString total order) bytes
  let (functions, rest) ← readTable functionCount 16 (readFunction total order) bytes
  pure ({ numbers, strings, functions }, rest)

/-- Reads an image. -/
def read (bytes : List UInt8) : Except ImageFault Image :=
  let total := bytes.length
  match bytes with
  | wordSize :: marker :: _ :: _ :: rest =>
      if wordSize ≠ hostWordSize then .error (.wordSize wordSize)
      else
        let withOrder (byteOrder : ByteOrder) : Except ImageFault Image := do
          let (program, rest) ← readTables total byteOrder rest
          if rest.isEmpty then pure { header := ⟨wordSize, byteOrder⟩, program }
          else .error (.trailingBytes rest.length)
        if marker = 0 then withOrder .little
        else if marker = 1 then withOrder .big
        else .error (.byteOrder marker)
  | _ => .error (.truncated total)

end Image

end PocketScript
