import PocketScript.Text.Ascii

/-!
# Program text and places in it

A place is a line number, counted from one, with a byte offset from the start of the text. Lines end
at newline bytes; the newline and one carriage return before it are no part of the line.
-/

namespace PocketScript

/-- A place in a program text: its line and its byte offset. Texts are shorter than 2^32 bytes, so
that both fit the 32 bits they are kept in elsewhere. -/
structure Position where
  line : Nat
  offset : Nat
  deriving DecidableEq, Repr, Inhabited

/-- The place `count` bytes further on the same line. -/
def Position.along (position : Position) (count : Nat) : Position :=
  { position with offset := position.offset + count }

/-- The place after passing some bytes. -/
def Position.past (position : Position) (bytes : List UInt8) : Position :=
  ⟨position.line + bytes.count Ascii.newline, position.offset + bytes.length⟩

/-- The bytes from one place up to another, in a text that is shorter than 2^32 bytes. -/
structure Span where
  start : Position
  stop : Position
  deriving DecidableEq, Repr, Inhabited

/-- The span of the one byte at a place. -/
def Span.single (position : Position) : Span := ⟨position, position.along 1⟩

/-- A program text with the name it has in messages. Nothing here bounds its length; places in it
agree with ones of 32 bits as long as it is shorter than 2^32 bytes. -/
structure Source where
  name : String
  bytes : List UInt8
  deriving Repr

namespace Source

/-- Offsets behind each newline, for bytes that start at `offset`; the first of them last. -/
def startsBehindNewlines (starts : List Nat) (offset : Nat) : List UInt8 → List Nat
  | [] => starts
  | byte :: rest =>
      let next := offset + 1
      startsBehindNewlines (if byte = Ascii.newline then next :: starts else starts) next rest

/-- The offset at which each line starts, the first line first. -/
def lineStarts (source : Source) : List Nat :=
  0 :: (startsBehindNewlines [] 0 source.bytes).reverse

/-- Where a line starts; a line past the last one counts as the last one. -/
def lineStart (source : Source) (line : Nat) : Nat :=
  if line = 0 then 0
  else
    let starts := source.lineStarts
    starts.getD (min line starts.length - 1) 0

/-- Where a line ends, in front of its newline or of the carriage return before that. -/
def lineEnd (source : Source) (line : Nat) : Nat :=
  let newlineAt :=
    if line = 0 then source.bytes.length
    else
      match source.lineStarts[line]? with
      | some next => next - 1
      | none => source.bytes.length
  if source.lineStart line < newlineAt ∧
      source.bytes[newlineAt - 1]? = some Ascii.carriageReturn then newlineAt - 1
  else newlineAt

/-- The bytes of a line. -/
def lineBytes (source : Source) (line : Nat) : List UInt8 :=
  let start := source.lineStart line
  (source.bytes.drop start).take (source.lineEnd line - start)

end Source

end PocketScript
