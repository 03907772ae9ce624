import PocketScript.Token.Lexer

/-!
# Reading tokens on demand

A cursor reads a program text token by token, and may look at one token ahead. It keeps the token it
has looked at, so that no byte is read twice. What it finds is what the stream of tokens holds.
-/

namespace PocketScript

/-- Where the reading of a text stands. -/
structure Cursor where
  position : Position
  /-- The bytes that have not been read. -/
  rest : List UInt8
  /-- The token in front of them, when it was looked at and is still to be taken. -/
  peeked : Option Token := none
  deriving Repr

/-- The token at the end of a text: it is empty. -/
def Token.ending (position : Position) : Token := ⟨.endOfInput, [], ⟨position, position⟩⟩

namespace Cursor

/-- The beginning of a text. -/
def ofBytes (bytes : List UInt8) : Cursor := ⟨⟨1, 0⟩, bytes, none⟩

/-- Reads the next token from the bytes. An error leaves the cursor behind the bytes that were read
before it was found. -/
def scan (cursor : Cursor) : Except CompileError Token × Cursor :=
  match Lexer.skipBlanks cursor.position cursor.rest with
  | .error error => (.error error, ⟨cursor.position.past cursor.rest, [], none⟩)
  | .ok (start, []) => (.ok (.ending start), ⟨start, [], none⟩)
  | .ok (start, first :: tail) =>
      match Lexer.lexeme first tail with
      | .error ⟨complaint, distance, passed⟩ =>
          (.error { complaint, span := .single (start.along distance) },
            ⟨start.along passed, (first :: tail).drop passed, none⟩)
      | .ok ⟨kind, more⟩ =>
          let stop := start.along (more + 1)
          (.ok ⟨kind, first :: tail.take more, ⟨start, stop⟩⟩, ⟨stop, tail.drop more, none⟩)

/-- Looks at the next token. -/
def peek (cursor : Cursor) : Except CompileError Token × Cursor :=
  match cursor.peeked with
  | some token => (.ok token, cursor)
  | none =>
      match cursor.scan with
      | (.ok token, behind) => (.ok token, { behind with peeked := some token })
      | (.error error, behind) => (.error error, behind)

/-- Takes the next token. -/
def next (cursor : Cursor) : Except CompileError Token × Cursor :=
  match cursor.peeked with
  | some token => (.ok token, { cursor with peeked := none })
  | none => cursor.scan

/-- What a reader asks of a cursor. -/
inductive Request where
  | peek
  | next
  deriving DecidableEq, Repr

def serve (cursor : Cursor) : Request → Except CompileError Token × Cursor
  | .peek => cursor.peek
  | .next => cursor.next

/-- The answers to requests that are made one after the other, up to the first error. -/
def answers (cursor : Cursor) : List Request → List (Except CompileError Token)
  | [] => []
  | request :: requests =>
      match cursor.serve request with
      | (.ok token, behind) => .ok token :: behind.answers requests
      | (.error error, _) => [.error error]

end Cursor

end PocketScript
