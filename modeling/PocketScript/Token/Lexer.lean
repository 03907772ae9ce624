import PocketScript.CompileError

/-!
# From bytes to tokens

Between tokens stand blanks and comments. A token is the longest piece its first byte allows, and
what it is depends on the bytes from there on only, not on its place. The whole text becomes a
stream, and a reader of the stream meets a lexical error only when it gets there. Most errors do not
keep the text behind them from being read, so the stream goes on for whoever passes over them.
-/

namespace PocketScript

/-- Tokens in order, up to the end of the text. -/
inductive TokenStream where
  | token (head : Token) (rest : TokenStream)
  | ended (position : Position)
  /-- A lexical error, and the tokens behind the bytes that were read before it was found. -/
  | flawed (error : CompileError) (beyond : TokenStream)
  deriving Repr

namespace TokenStream

/-- An error with nothing behind it. -/
def broken (error : CompileError) : TokenStream := flawed error (ended error.span.start)

/-- The stream with some tokens and errors put in front, the last of the list first in the
stream. -/
def precededBy (rest : TokenStream) (reversed : List (Except CompileError Token)) : TokenStream :=
  reversed.foldl
    (fun stream piece =>
      match piece with
      | .ok head => .token head stream
      | .error error => .flawed error stream)
    rest

/-- How many tokens the stream holds up to its first error. -/
def length : TokenStream → Nat
  | token _ rest => rest.length + 1
  | ended _ => 0
  | flawed _ _ => 0

/-- The next token, which at the end of the text is an empty one. -/
def peek : TokenStream → Except CompileError Token
  | token head _ => .ok head
  | ended position => .ok ⟨.endOfInput, [], ⟨position, position⟩⟩
  | flawed error _ => .error error

/-- The stream behind its next token; behind its end, and before an error, it stays as it is. -/
def advance : TokenStream → TokenStream
  | token _ rest => rest
  | stream => stream

/-- The kind of the next token, unless a lexical error comes first. -/
def nextKind? : TokenStream → Option TokenKind
  | token head _ => some head.kind
  | ended _ => some .endOfInput
  | flawed _ _ => none

end TokenStream

namespace Lexer

/-- How many bytes at the start of a text are in a class. -/
def countWhile (isMember : UInt8 → Bool) (bytes : List UInt8) : Nat :=
  (bytes.takeWhile isMember).length

/-- What is wrong at the start of a token. -/
structure Flaw where
  complaint : Complaint
  /-- How many bytes behind that start the complaint is about. -/
  distance : Nat
  /-- How many bytes were read before the flaw was found. -/
  passed : Nat
  deriving Repr, DecidableEq

/-- The kind of a token and how many bytes it has beyond its first one. -/
structure Lexeme where
  kind : TokenKind
  more : Nat
  deriving Repr, DecidableEq

def Lexeme.width (lexeme : Lexeme) : Nat := lexeme.more + 1

/-- The bytes of an exponent: none where no `e` stands. -/
def exponentWidth (bytes : List UInt8) : Except Complaint Nat :=
  match bytes with
  | [] => .ok 0
  | mark :: rest =>
      if mark = 0x65 ∨ mark = 0x45 then
        let sign := match rest with
          | byte :: _ => if byte = Ascii.plus ∨ byte = Ascii.minus then 1 else 0
          | [] => 0
        let digits := countWhile Ascii.isDigit (rest.drop sign)
        if digits = 0 then .error .malformedExponent else .ok (1 + sign + digits)
      else .ok 0

/-- The bytes of a fraction: a point with digits behind it, or none. -/
def fractionWidth (bytes : List UInt8) : Nat :=
  match bytes with
  | 0x2E :: rest =>
      let digits := countWhile Ascii.isDigit rest
      if digits = 0 then 0 else 1 + digits
  | _ => 0

/-- The bytes of a number beyond its first digit. -/
def numberTail (first : UInt8) (tail : List UInt8) : Except Flaw Nat :=
  let hexadecimal := first = Ascii.zero ∧ (tail.head? = some 0x78 ∨ tail.head? = some 0x58)
  if hexadecimal then
    let digits := countWhile Ascii.isHexDigit tail.tail
    if digits = 0 then .error ⟨.hexWithoutDigits, 0, 2⟩ else .ok (1 + digits)
  else
    let whole := countWhile Ascii.isDigit tail
    let fraction := fractionWidth (tail.drop whole)
    match exponentWidth (tail.drop (whole + fraction)) with
    | .error complaint =>
        let passed := 1 + whole + fraction
        .error ⟨complaint, passed, passed⟩
    | .ok exponent => .ok (whole + fraction + exponent)

/-- A number, which must not run into a name. -/
def number (first : UInt8) (tail : List UInt8) : Except Flaw Lexeme := do
  let more ← numberTail first tail
  match tail.drop more with
  | next :: _ =>
      if Ascii.continuesName next then .error ⟨.strayCharacterInNumber, 1 + more, 1 + more⟩
      else .ok ⟨.number, more⟩
  | [] => .ok ⟨.number, more⟩

/-- The bytes of a string behind its opening quote, the closing one included; `passed` of them came
before. A backslash takes the next byte with it, and no string runs over a newline. -/
def stringTail (quote : UInt8) (passed : Nat) : List UInt8 → Option Nat
  | [] => none
  | 0x5C :: [] => none
  | 0x5C :: escaped :: rest =>
      if escaped = Ascii.newline then none else stringTail quote (passed + 2) rest
  | byte :: rest =>
      if byte = Ascii.newline then none
      else if byte = quote then some (passed + 1)
      else stringTail quote (passed + 1) rest

/-- A punctuation mark. -/
def punctuation (first : UInt8) (tail : List UInt8) : Except Flaw Lexeme :=
  match TokenKind.ofPunctuation? (Char.ofUInt8 first) (tail.head?.map Char.ofUInt8) with
  | some (kind, width) => .ok ⟨kind, width - 1⟩
  | none => .error ⟨if 0x80 ≤ first then .nonAscii else .unexpectedCharacter, 0, 0⟩

/-- The token that a byte and the bytes behind it start with. -/
def lexeme (first : UInt8) (tail : List UInt8) : Except Flaw Lexeme :=
  if Ascii.startsName first then
    let more := countWhile Ascii.continuesName tail
    .ok ⟨.ofWord (Ascii.text (first :: tail.take more)), more⟩
  else if Ascii.isDigit first then number first tail
  else if first = Ascii.doubleQuote ∨ first = Ascii.singleQuote then
    match stringTail first 0 tail with
    | some more => .ok ⟨.string, more⟩
    | none => .error ⟨.unterminatedString, 0, 1 + countWhile (· != Ascii.newline) tail⟩
  else punctuation first tail

/-- Splits a block comment's body, with its closing mark, from what follows; `passed` holds the
bytes so far, last first. -/
def splitBlockComment (passed : List UInt8) : List UInt8 → Option (List UInt8 × List UInt8)
  | [] => none
  | 0x2A :: 0x2F :: rest => some (Ascii.slash :: Ascii.star :: passed, rest)
  | byte :: rest => splitBlockComment (byte :: passed) rest

theorem splitBlockComment_length {passed bytes body rest : List UInt8}
    (split : splitBlockComment passed bytes = some (body, rest)) : rest.length < bytes.length := by
  fun_induction splitBlockComment passed bytes with
  | case1 => simp at split
  | case2 passed tail =>
      simp only [Option.some.injEq, Prod.mk.injEq] at split
      simp only [← split.2, List.length_cons]
      omega
  | case3 _ _ _ _ ih => exact Nat.lt_succ_of_lt (ih split)

/-- Passes over blanks and comments. A block comment without an end is an error at its start. -/
def skipBlanks (position : Position) (bytes : List UInt8) :
    Except CompileError (Position × List UInt8) :=
  match bytes with
  | [] => .ok (position, [])
  | 0x2F :: 0x2F :: tail =>
      let line := tail.takeWhile (· != Ascii.newline)
      skipBlanks (position.along (2 + line.length)) (tail.dropWhile (· != Ascii.newline))
  | 0x2F :: 0x2A :: tail =>
      match _split : splitBlockComment [] tail with
      | none => .error { complaint := .unterminatedComment, span := .single position }
      | some (body, rest) => skipBlanks ((position.along 2).past body) rest
  | byte :: tail =>
      if Ascii.isBlank byte then skipBlanks (position.past [byte]) tail
      else .ok (position, byte :: tail)
termination_by bytes.length
decreasing_by
  · have := (List.dropWhile_suffix (l := tail) (· != Ascii.newline)).length_le
    simp only [List.length_cons]
    omega
  · have := splitBlockComment_length _split
    simp only [List.length_cons]
    omega
  · simp

theorem skipBlanks_length {position start : Position} {bytes rest : List UInt8}
    (skipped : skipBlanks position bytes = .ok (start, rest)) : rest.length ≤ bytes.length := by
  fun_induction skipBlanks position bytes with
  | case1 => simp_all
  | case2 _ tail _ ih =>
      have := (List.dropWhile_suffix (l := tail) (· != Ascii.newline)).length_le
      have := ih skipped
      simp only [List.length_cons]
      omega
  | case3 => simp at skipped
  | case4 _ tail _ _ split ih =>
      have := splitBlockComment_length split
      have := ih skipped
      simp only [List.length_cons]
      omega
  | case5 _ _ _ _ _ _ ih => exact Nat.le_succ_of_le (ih skipped)
  | case6 =>
      simp only [Except.ok.injEq, Prod.mk.injEq] at skipped
      simp [← skipped.2]

/-- Reads tokens to the end; `found` holds those so far, last first. Reading goes on behind an error
unless nothing was passed before it was found. -/
def tokensFrom (found : List (Except CompileError Token)) (position : Position)
    (bytes : List UInt8) : TokenStream :=
  match _skipped : skipBlanks position bytes with
  | .error error => (TokenStream.broken error).precededBy found
  | .ok (start, []) => (TokenStream.ended start).precededBy found
  | .ok (start, first :: tail) =>
      match lexeme first tail with
      | .error ⟨complaint, distance, passed⟩ =>
          let error : CompileError := { complaint, span := .single (start.along distance) }
          match passed with
          | 0 => (TokenStream.broken error).precededBy found
          | more + 1 => tokensFrom (.error error :: found) (start.along passed) (tail.drop more)
      | .ok ⟨kind, more⟩ =>
          let stop := start.along (more + 1)
          let token : Token := ⟨kind, first :: tail.take more, ⟨start, stop⟩⟩
          tokensFrom (.ok token :: found) stop (tail.drop more)
termination_by bytes.length
decreasing_by
  all_goals
    have := skipBlanks_length _skipped
    simp only [List.length_cons] at this
    simp only [List.length_drop]
    omega

end Lexer

/-- The tokens of a program text. -/
def TokenStream.ofBytes (bytes : List UInt8) : TokenStream := Lexer.tokensFrom [] ⟨1, 0⟩ bytes

end PocketScript
