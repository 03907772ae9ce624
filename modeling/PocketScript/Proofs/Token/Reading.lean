import PocketScript.Token.Cursor

/-!
# Reading token by token

The lexer reads a whole text into a stream, or one token at a time through a cursor that may look
one token ahead. Both see the same: a cursor shows a stream (`Cursor.Shows`), serving a request keeps
that so, and hence the answers to requests in any order are those that the stream's tokens give
(`Cursor.answers_ofBytes`).
-/

namespace PocketScript

namespace TokenStream

/-- The tokens up to the end of the text, or up to its first error. -/
def tokens : TokenStream → List Token
  | token head rest => head :: rest.tokens
  | ended _ => []
  | flawed _ _ => []

/-- What stands behind these tokens: the end of the text or an error. -/
def outcome : TokenStream → Except CompileError Token
  | token _ rest => rest.outcome
  | ended position => .ok (.ending position)
  | flawed error _ => .error error

end TokenStream

namespace Lexer

/-! ## The stream without the tokens found before -/

theorem tokensFrom_precededBy (found : List (Except CompileError Token)) (position : Position)
    (bytes : List UInt8) :
    tokensFrom found position bytes = (tokensFrom [] position bytes).precededBy found := by
  induction size : bytes.length using Nat.strongRecOn generalizing found position bytes with
  | ind size ih =>
      subst size
      rw [tokensFrom, tokensFrom]
      split
      · rfl
      · rfl
      · rename_i start first tail skipped
        have shorter := skipBlanks_length skipped
        rw [List.length_cons] at shorter
        have smaller (more : Nat) : (tail.drop more).length < bytes.length := by
          rw [List.length_drop]
          omega
        dsimp only
        cases lexeme first tail with
        | error flaw =>
            obtain ⟨complaint, distance, passed⟩ := flaw
            cases passed with
            | zero => rfl
            | succ more =>
                dsimp only
                rw [ih _ (smaller _) (_ :: found) _ _ rfl, ih _ (smaller _) [_] _ _ rfl]
                rfl
        | ok read =>
            dsimp only
            rw [ih _ (smaller _) (_ :: found) _ _ rfl, ih _ (smaller _) [_] _ _ rfl]
            rfl

section Equations

variable {position start : Position} {bytes tail : List UInt8} {first : UInt8}

theorem tokensFrom_ended (skipped : skipBlanks position bytes = .ok (start, [])) :
    tokensFrom [] position bytes = .ended start := by
  rw [tokensFrom, skipped]
  rfl

theorem tokensFrom_unskipped {error : CompileError}
    (broken : skipBlanks position bytes = .error error) :
    tokensFrom [] position bytes = .broken error := by
  rw [tokensFrom, broken]
  rfl

theorem tokensFrom_token {found : Lexeme}
    (skipped : skipBlanks position bytes = .ok (start, first :: tail))
    (read : lexeme first tail = .ok found) :
    tokensFrom [] position bytes =
      .token ⟨found.kind, first :: tail.take found.more, ⟨start, start.along (found.more + 1)⟩⟩
        (tokensFrom [] (start.along (found.more + 1)) (tail.drop found.more)) := by
  rw [tokensFrom, skipped]
  simp only [read]
  rw [tokensFrom_precededBy]
  rfl

theorem tokensFrom_flawed {flaw : Flaw}
    (skipped : skipBlanks position bytes = .ok (start, first :: tail))
    (broken : lexeme first tail = .error flaw) :
    ∃ beyond, tokensFrom [] position bytes =
      .flawed { complaint := flaw.complaint, span := .single (start.along flaw.distance) }
        beyond ∧
      (beyond = .ended (start.along flaw.distance) ∨ ∃ more, flaw.passed = more + 1 ∧
        beyond = tokensFrom [] (start.along (more + 1)) (tail.drop more)) := by
  obtain ⟨complaint, distance, passed⟩ := flaw
  rw [tokensFrom, skipped]
  simp only [broken]
  cases passed with
  | zero => exact ⟨_, rfl, .inl rfl⟩
  | succ more =>
      dsimp only
      rw [tokensFrom_precededBy]
      exact ⟨_, rfl, .inr ⟨more, rfl, rfl⟩⟩

end Equations

end Lexer

/-! ## Cursors -/

namespace Cursor

/-- The answers that tokens give to requests: a token until it is taken, then the one behind it, and
in the end what stands behind them all; an error is answered once. -/
def given (tokens : List Token) (outcome : Except CompileError Token) :
    List Request → List (Except CompileError Token)
  | [] => []
  | request :: requests =>
      match tokens, outcome with
      | token :: rest, _ =>
          .ok token :: given (if request = .next then rest else tokens) outcome requests
      | [], .ok ending => .ok ending :: given [] outcome requests
      | [], .error error => [.error error]

/-- Who takes one token after the other gets each once, and then what stands behind them. -/
theorem given_next (tokens : List Token) (outcome : Except CompileError Token) :
    given tokens outcome (List.replicate (tokens.length + 1) .next) =
      tokens.map .ok ++ [outcome] := by
  induction tokens with
  | nil => cases outcome <;> rfl
  | cons token rest ih => exact congrArg _ ih

/-- A cursor stands where a stream of tokens begins. -/
def Shows (cursor : Cursor) (stream : TokenStream) : Prop :=
  match cursor.peeked with
  | none => Lexer.tokensFrom [] cursor.position cursor.rest = stream
  | some token =>
      stream.peek = .ok token ∧ Lexer.tokensFrom [] cursor.position cursor.rest = stream.advance

theorem shows_ofBytes (bytes : List UInt8) : (ofBytes bytes).Shows (.ofBytes bytes) := rfl

variable {cursor : Cursor} {stream : TokenStream}

/-- Reading a token from the bytes. -/
theorem Shows.scan (nothing : cursor.peeked = none) (shows : cursor.Shows stream) :
    cursor.scan.1 = stream.peek ∧
      ∀ token, stream.peek = .ok token →
        cursor.scan.2.peeked = none ∧ cursor.scan.2.Shows stream.advance := by
  obtain ⟨position, bytes, peeked⟩ := cursor
  subst nothing
  change Lexer.tokensFrom [] position bytes = stream at shows
  subst shows
  rw [Cursor.scan]
  cases skipped : Lexer.skipBlanks position bytes with
  | error error =>
      rw [Lexer.tokensFrom_unskipped skipped]
      exact ⟨rfl, fun token impossible => by cases impossible⟩
  | ok between =>
      obtain ⟨start, rest⟩ := between
      cases rest with
      | nil =>
          rw [Lexer.tokensFrom_ended skipped]
          refine ⟨rfl, fun token _ => ⟨rfl, ?_⟩⟩
          exact Lexer.tokensFrom_ended (by rw [Lexer.skipBlanks])
      | cons first tail =>
          dsimp only
          cases read : Lexer.lexeme first tail with
          | error flaw =>
              obtain ⟨beyond, same, -⟩ := Lexer.tokensFrom_flawed skipped read
              rw [same]
              exact ⟨rfl, fun token impossible => by cases impossible⟩
          | ok found =>
              rw [Lexer.tokensFrom_token skipped read]
              exact ⟨rfl, fun token _ => ⟨rfl, rfl⟩⟩

theorem Shows.peek (shows : cursor.Shows stream) :
    cursor.peek.1 = stream.peek ∧
      ∀ token, stream.peek = .ok token → cursor.peek.2.Shows stream := by
  cases peeked : cursor.peeked with
  | some token =>
      have front : stream.peek = .ok token := by
        rw [Shows, peeked] at shows
        exact shows.1
      rw [Cursor.peek, peeked]
      exact ⟨front.symm, fun _ _ => shows⟩
  | none =>
      obtain ⟨same, behind⟩ := shows.scan peeked
      rw [Cursor.peek, peeked]
      dsimp only
      revert same behind
      obtain ⟨answer, after⟩ := cursor.scan
      rintro rfl behind
      cases front : stream.peek with
      | error error => exact ⟨rfl, fun token impossible => by cases impossible⟩
      | ok token =>
          obtain ⟨nothing, shows⟩ := behind token front
          rw [Shows, nothing] at shows
          exact ⟨rfl, fun _ _ => ⟨front, shows⟩⟩

theorem Shows.next (shows : cursor.Shows stream) :
    cursor.next.1 = stream.peek ∧
      ∀ token, stream.peek = .ok token → cursor.next.2.Shows stream.advance := by
  cases peeked : cursor.peeked with
  | some token =>
      rw [Shows, peeked] at shows
      rw [Cursor.next, peeked]
      exact ⟨shows.1.symm, fun _ _ => shows.2⟩
  | none =>
      obtain ⟨same, behind⟩ := shows.scan peeked
      rw [Cursor.next, peeked]
      exact ⟨same, fun token front => (behind token front).2⟩

/-- Serving a request: the token in front is the answer, and taking it leaves the stream behind
it. -/
theorem Shows.serve (shows : cursor.Shows stream) (request : Request) :
    (cursor.serve request).1 = stream.peek ∧
      ∀ token, stream.peek = .ok token →
        (cursor.serve request).2.Shows (if request = .next then stream.advance else stream) :=
  match request with
  | .peek => shows.peek
  | .next => shows.next

/-- Whatever is asked, in whatever order, the tokens of the stream answer it. -/
theorem Shows.answers (shows : cursor.Shows stream) (requests : List Request) :
    cursor.answers requests = given stream.tokens stream.outcome requests := by
  induction requests generalizing cursor stream with
  | nil => rfl
  | cons request requests ih =>
      obtain ⟨same, behind⟩ := shows.serve request
      rw [Cursor.answers]
      revert same behind
      obtain ⟨answer, after⟩ := cursor.serve request
      rintro rfl behind
      cases stream with
      | token head rest =>
          have next := ih (behind head rfl)
          cases request with
          | peek | next => exact congrArg _ next
      | ended position =>
          have next := ih (behind _ rfl)
          cases request with
          | peek | next => exact congrArg _ next
      | flawed error beyond => rfl

theorem answers_ofBytes (bytes : List UInt8) (requests : List Request) :
    (ofBytes bytes).answers requests =
      given (TokenStream.ofBytes bytes).tokens (TokenStream.ofBytes bytes).outcome requests :=
  (shows_ofBytes bytes).answers requests

end Cursor

end PocketScript
