import PocketScript.CompileError
import PocketScript.Decimal.Text

/-!
# Values of literals

A number token stands for a number, a string token for a text. Hexadecimal literals have to fit 64
bits; in a string a backslash starts one of the documented escapes, and no NUL may arise.
-/

namespace PocketScript.Literal

/-- The value of a number token; none for a hexadecimal literal of more than 64 bits, which is one
with over sixteen digits behind its leading zeros. -/
def number? (text : List UInt8) : Option Number :=
  let hexadecimal (digits : List UInt8) : Option Number :=
    let significant := digits.dropWhile (· = Ascii.zero)
    if significant.length ≤ 16 then some (Number.ofNat (Ascii.hexNumber significant)) else none
  match text with
  | 0x30 :: 0x78 :: digits => hexadecimal digits
  | 0x30 :: 0x58 :: digits => hexadecimal digits
  | _ => some (Decimal.read (text.map Char.ofUInt8))

/-- The byte of a one-letter escape. -/
def escaped? (letter : UInt8) : Option UInt8 :=
  match Char.ofUInt8 letter with
  | 'n' => some Ascii.newline
  | 't' => some 0x09
  | 'r' => some Ascii.carriageReturn
  | '\\' => some Ascii.backslash
  | '\'' => some Ascii.singleQuote
  | '"' => some Ascii.doubleQuote
  | _ => none

/-- The value of two hexadecimal digits. A plus sign in the place of the first one is accepted and
adds nothing. -/
def hexEscape? (high low : UInt8) : Option Nat :=
  if Ascii.isHexDigit low then
    if Ascii.isHexDigit high then some (Ascii.hexNumber [high, low])
    else if high = Ascii.plus then some (Ascii.hexValue low)
    else none
  else none

/-- What is wrong with the body of a string, and how many bytes into it. -/
abbrev Flaw := Complaint × Nat

/-- The bytes a string's body stands for; `written` holds those so far, last first, and `index` how
much of the body they took. -/
def unescape (written : List UInt8) (index : Nat) : List UInt8 → Except Flaw (List UInt8)
  | [] => .ok written.reverse
  | 0x00 :: _ => .error (.nulInString, index)
  | 0x5C :: [] => .error (.invalidEscape, index)
  | 0x5C :: 0x30 :: _ => .error (.nulInString, index)
  | 0x5C :: 0x78 :: high :: low :: rest =>
      match hexEscape? high low with
      | none => .error (.invalidEscape, index)
      | some value =>
          if 0x80 ≤ value then .error (.invalidEscape, index)
          else if value = 0 then .error (.nulInString, index)
          else unescape (UInt8.ofNat value :: written) (index + 4) rest
  | 0x5C :: letter :: rest =>
      match escaped? letter with
      | none => .error (.invalidEscape, index)
      | some byte => unescape (byte :: written) (index + 2) rest
  | byte :: rest => unescape (byte :: written) (index + 1) rest

/-- The body of a string token, between its quotes. -/
def body (text : List UInt8) : List UInt8 := text.tail.dropLast

/-- The text a string token stands for. -/
def string (token : Token) : Except CompileError String :=
  match unescape [] 0 (body token.text) with
  | .error (complaint, index) =>
      .error { complaint, span := .single (token.span.start.along (index + 1)) }
  | .ok bytes =>
      match Utf8.decode? bytes with
      | some text => .ok text
      | none => .error { complaint := .invalidUtf8InString, span := token.span }

end PocketScript.Literal
