/-!
# Classes of bytes

Program text is classified byte by byte, and only ASCII bytes belong to a class: a byte of a longer
UTF-8 sequence is no letter, digit or blank.
-/

namespace PocketScript.Ascii

abbrev newline : UInt8 := 0x0A
abbrev carriageReturn : UInt8 := 0x0D
abbrev doubleQuote : UInt8 := 0x22
abbrev singleQuote : UInt8 := 0x27
abbrev star : UInt8 := 0x2A
abbrev plus : UInt8 := 0x2B
abbrev minus : UInt8 := 0x2D
abbrev point : UInt8 := 0x2E
abbrev slash : UInt8 := 0x2F
abbrev zero : UInt8 := 0x30
abbrev backslash : UInt8 := 0x5C

/-- Tab, newline, form feed, carriage return or space. -/
def isBlank (byte : UInt8) : Bool :=
  byte = 0x20 || byte = 0x09 || byte = newline || byte = 0x0C || byte = carriageReturn

def isDigit (byte : UInt8) : Bool := 0x30 ≤ byte && byte ≤ 0x39

def isLetter (byte : UInt8) : Bool :=
  (0x41 ≤ byte && byte ≤ 0x5A) || (0x61 ≤ byte && byte ≤ 0x7A)

def isHexDigit (byte : UInt8) : Bool :=
  isDigit byte || (0x41 ≤ byte && byte ≤ 0x46) || (0x61 ≤ byte && byte ≤ 0x66)

/-- The value of a hexadecimal digit. -/
def hexValue (byte : UInt8) : Nat :=
  if isDigit byte then byte.toNat - 0x30
  else if byte ≤ 0x46 then byte.toNat - 0x41 + 10
  else byte.toNat - 0x61 + 10

/-- The value of a run of hexadecimal digits. -/
def hexNumber (digits : List UInt8) : Nat :=
  digits.foldl (fun value digit => value * 16 + hexValue digit) 0

/-- A name starts with a letter, an underscore or a dollar sign. -/
def startsName (byte : UInt8) : Bool := isLetter byte || byte = 0x5F || byte = 0x24

/-- A name goes on with the bytes it may start with and with digits. -/
def continuesName (byte : UInt8) : Bool := startsName byte || isDigit byte

/-- The text of ASCII bytes, one character each. -/
def text (bytes : List UInt8) : String := String.ofList (bytes.map Char.ofUInt8)

end PocketScript.Ascii
