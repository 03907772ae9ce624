import PocketScript.Proofs.Token.Tiling

/-!
# The pieces of a text

A text falls into tokens and lexical errors, and the lexer goes on behind most of the errors. Each of
these pieces stands where its span says: a token's bytes at the place of the token, and at the place
of an error the bytes that are the reason for it (`TokenStream.stands_of_mem_pieces`).
-/

namespace PocketScript

open Ascii

/-- The tokens and the lexical errors of a text, in the order in which they stand there. -/
def TokenStream.pieces : TokenStream → List (Except CompileError Token)
  | token head rest => .ok head :: rest.pieces
  | ended _ => []
  | flawed error beyond => .error error :: beyond.pieces

/-- The bytes from a place on are the reason for a lexical complaint about this place. -/
inductive Complaint.Shown : Complaint → List UInt8 → Prop
  | nonAscii {byte rest} : 0x80 ≤ byte → Shown .nonAscii (byte :: rest)
  | unexpectedCharacter {byte rest} : byte < 0x80 → startsName byte = false →
      isDigit byte = false → byte ≠ doubleQuote ∧ byte ≠ singleQuote →
      TokenKind.ofPunctuation? (Char.ofUInt8 byte) (rest.head?.map Char.ofUInt8) = none →
      Shown .unexpectedCharacter (byte :: rest)
  | unterminatedComment {rest} : ¬ [star, slash] <:+: rest →
      Shown .unterminatedComment (slash :: star :: rest)
  | hexWithoutDigits {mark rest} : mark = 0x78 ∨ mark = 0x58 →
      (∀ byte ∈ rest.head?, isHexDigit byte = false) →
      Shown .hexWithoutDigits (zero :: mark :: rest)
  | malformedExponent {mark rest} : mark = 0x65 ∨ mark = 0x45 →
      (∀ byte ∈ (rest.drop (Lexer.signWidth rest)).head?, isDigit byte = false) →
      Shown .malformedExponent (mark :: rest)
  | strayCharacterInNumber {byte rest} : continuesName byte = true →
      Shown .strayCharacterInNumber (byte :: rest)
  | unterminatedString {quote rest} : quote = doubleQuote ∨ quote = singleQuote →
      Lexer.stringTail quote 0 rest = none → Shown .unterminatedString (quote :: rest)

theorem Complaint.Shown.kind {complaint : Complaint} {rest : List UInt8}
    (shown : complaint.Shown rest) : complaint.kind = .lexical := by
  cases shown <;> rfl

/-- A piece stands where its span says. -/
def Stands (bytes : List UInt8) : Except CompileError Token → Prop
  | .ok token => ∃ front, token.Placed bytes front
  | .error error => ∃ front rest, bytes = front ++ rest ∧ error.complaint.Shown rest ∧
      error = ⟨error.complaint, .single (Position.past ⟨1, 0⟩ front), none⟩

namespace Lexer

/-! ## What is wrong with a lexeme -/

theorem head?_of_countWhile {isMember : UInt8 → Bool} {bytes : List UInt8}
    (none : countWhile isMember bytes = 0) : ∀ byte ∈ bytes.head?, isMember byte = false := by
  cases bytes with
  | nil => nofun
  | cons first rest =>
      rintro byte ⟨⟩
      cases member : isMember first with
      | false => rfl
      | true =>
          rw [countWhile, List.takeWhile_cons_of_pos member] at none
          cases none

/-- A flaw of a lexeme shows at its bytes, and none of those that were read holds a newline. -/
structure Explains (first : UInt8) (tail : List UInt8) (flaw : Flaw) : Prop where
  shown : flaw.complaint.Shown ((first :: tail).drop flaw.distance)
  passed : newline ∉ (first :: tail).take flaw.passed
  short : flaw.passed ≤ 1 + tail.length
  near : flaw.distance ≤ flaw.passed

theorem explains_exponent {bytes : List UInt8} {complaint : Complaint}
    (broken : exponentWidth bytes = .error complaint) : complaint.Shown bytes := by
  cases bytes with
  | nil => cases broken
  | cons mark rest =>
      by_cases exponent : mark = 0x65 ∨ mark = 0x45
      · rw [exponentWidth_mark exponent] at broken
        split at broken
        · rename_i none
          cases broken
          exact .malformedExponent exponent (head?_of_countWhile none)
        · cases broken
      · rw [exponentWidth_other exponent] at broken
        cases broken

theorem newline_not_mem_digits {first : UInt8} {tail : List UInt8} {width : Nat}
    (digit : isDigit first = true) (visible : ∀ byte ∈ tail.take width, IsVisible byte) :
    newline ∉ (first :: tail).take (1 + width) := by
  rw [Nat.add_comm, List.take_succ_cons]
  intro member
  rcases List.mem_cons.mp member with same | member
  · exact (isVisible_of_isDigit digit).ne_newline same.symm
  · exact (visible _ member).ne_newline rfl

theorem explains_numberTail {first : UInt8} {tail : List UInt8} {flaw : Flaw}
    (digit : isDigit first = true) (broken : numberTail first tail = .error flaw) :
    Explains first tail flaw := by
  by_cases hexadecimal : IsHexadecimal first tail
  · cases tail with
    | nil => rcases hexadecimal.2 with impossible | impossible <;> cases impossible
    | cons mark digits =>
        rw [numberTail_hexadecimal hexadecimal] at broken
        split at broken
        · rename_i none
          cases broken
          obtain ⟨rfl, marked⟩ := hexadecimal
          have mark : mark = 0x78 ∨ mark = 0x58 := by simpa using marked
          have short : 2 ≤ 1 + (digits.length + 1) := by omega
          refine ⟨.hexWithoutDigits mark (head?_of_countWhile none), ?_, short, Nat.zero_le _⟩
          rw [List.take_succ_cons, List.take_succ_cons, List.take_zero]
          rcases mark with rfl | rfl <;> decide
        · cases broken
  · have branch : ¬ (first = zero ∧ (tail.head? = some 0x78 ∨ tail.head? = some 0x58)) := hexadecimal
    have clean := newline_not_mem_digits digit (visible_mantissa tail)
    rw [numberTail] at broken
    dsimp only at broken
    rw [if_neg branch, ← mantissaWidth] at broken
    split at broken
    · rename_i complaint width
      cases broken
      rw [Nat.add_assoc, ← mantissaWidth]
      refine ⟨?_, clean, Nat.add_le_add_left (mantissaWidth_le tail) 1, Nat.le_refl _⟩
      rw [Nat.add_comm, List.drop_succ_cons]
      exact explains_exponent width
    · cases broken

theorem explains_number {first : UInt8} {tail : List UInt8} {flaw : Flaw}
    (digit : isDigit first = true) (broken : number first tail = .error flaw) :
    Explains first tail flaw := by
  unfold number at broken
  cases width : numberTail first tail with
  | error other =>
      rw [width] at broken
      cases broken
      exact explains_numberTail digit width
  | ok more =>
      have clean := newline_not_mem_digits digit (visible_numberTail width)
      simp only [width, bind, Except.bind] at broken
      split at broken
      · rename_i next rest behind
        split at broken
        · rename_i continues
          cases broken
          refine ⟨?_, clean, Nat.add_le_add_left (numberTail_take width).1 1, Nat.le_refl _⟩
          rw [Nat.add_comm, List.drop_succ_cons, behind]
          exact .strayCharacterInNumber continues
        · cases broken
      · cases broken

theorem explains_lexeme {first : UInt8} {tail : List UInt8} {flaw : Flaw}
    (broken : lexeme first tail = .error flaw) : Explains first tail flaw := by
  unfold lexeme at broken
  split at broken
  · cases broken
  · rename_i noName
    split at broken
    · rename_i digit
      exact explains_number digit broken
    · rename_i noDigit
      split at broken
      · rename_i quote
        split at broken
        · cases broken
        · rename_i unended
          cases broken
          refine ⟨.unterminatedString quote unended, ?_, Nat.add_le_add_left (countWhile_le _ _) 1,
            Nat.zero_le _⟩
          rw [Nat.add_comm, List.take_succ_cons, countWhile,
            ← List.prefix_iff_eq_take.mp (List.takeWhile_prefix _)]
          intro member
          rcases List.mem_cons.mp member with same | member
          · rcases quote with rfl | rfl <;> cases same
          · exact absurd (List.all_eq_true.mp List.all_takeWhile _ member) (by decide)
      · rename_i noQuote
        unfold punctuation at broken
        split at broken
        · cases broken
        · rename_i none
          cases broken
          refine ⟨?_, List.not_mem_nil, Nat.zero_le _, Nat.le_refl _⟩
          dsimp only
          split
          · rename_i high
            exact .nonAscii high
          · rename_i low
            exact .unexpectedCharacter (UInt8.not_le.mp low) (Bool.not_eq_true _ ▸ noName)
              (Bool.not_eq_true _ ▸ noDigit) (not_or.mp noQuote) none

/-! ## Where the text is not read on -/

/-- A block comment that does not end holds no closing mark. -/
theorem splitBlockComment_eq_none {passed bytes : List UInt8}
    (unended : splitBlockComment passed bytes = none) : ¬ [star, slash] <:+: bytes := by
  fun_induction splitBlockComment passed bytes with
  | case1 =>
      intro inside
      cases inside.length_le
  | case2 => cases unended
  | case3 passed byte rest open_ ih =>
      intro inside
      rcases List.infix_cons_iff.mp inside with front | behind
      · obtain ⟨behind, same⟩ := front
        cases same
        exact open_ _ rfl rfl
      · exact ih unended behind

/-- Blanks are passed over up to a block comment that does not end. -/
theorem skipBlanks_eq_error {position : Position} {bytes : List UInt8} {error : CompileError}
    (broken : skipBlanks position bytes = .error error) :
    ∃ gap rest, bytes = gap ++ rest ∧ Complaint.unterminatedComment.Shown rest ∧
      error = ⟨.unterminatedComment, .single (position.past gap), none⟩ := by
  fun_induction skipBlanks position bytes with
  | case1 | case6 => cases broken
  | case2 position tail line ih =>
      obtain ⟨gap, rest, behind, shown, rfl⟩ := ih broken
      refine ⟨slash :: slash :: line ++ gap, rest, ?_, shown, ?_⟩
      · rw [List.append_assoc, ← behind, List.cons_append, List.cons_append,
          List.takeWhile_append_dropWhile]
      · rw [Position.past_append, ← past_lineComment]
  | case3 position tail unended =>
      cases broken
      exact ⟨[], _, rfl, .unterminatedComment (splitBlockComment_eq_none unended), rfl⟩
  | case4 position tail body behind split ih =>
      obtain ⟨gap, rest, rfl, shown, rfl⟩ := ih broken
      obtain ⟨comment, rfl, rfl, -⟩ := splitBlockComment_eq_some split
      refine ⟨slash :: star :: comment ++ [star, slash] ++ gap, rest, by simp, shown, ?_⟩
      rw [past_blockComment, ← Position.past_append]
  | case5 position byte tail _ _ _ ih =>
      obtain ⟨gap, rest, rfl, shown, rfl⟩ := ih broken
      refine ⟨byte :: gap, rest, rfl, shown, ?_⟩
      rw [← Position.past_append]
      rfl

end Lexer

/-! ## Places -/

theorem Position.past_along (before : List UInt8) {rest : List UInt8} {width : Nat}
    (inLine : newline ∉ rest.take width) (short : width ≤ rest.length) :
    (past ⟨1, 0⟩ before).along width = past ⟨1, 0⟩ (before ++ rest.take width) := by
  rw [past_append, past_inLine _ inLine, List.length_take, Nat.min_eq_left short]

namespace Lexer

theorem Explains.stands {first : UInt8} {tail : List UInt8} {flaw : Flaw}
    (explains : Explains first tail flaw) (before : List UInt8) :
    Stands (before ++ first :: tail)
      (.error ⟨flaw.complaint, .single ((Position.past ⟨1, 0⟩ before).along flaw.distance),
        none⟩) := by
  have inLine : newline ∉ (first :: tail).take flaw.distance := fun member =>
    explains.passed (List.take_subset_take_left _ explains.near member)
  have short : flaw.distance ≤ (first :: tail).length := by
    have := explains.near
    have := explains.short
    rw [List.length_cons]
    omega
  refine ⟨before ++ (first :: tail).take flaw.distance, (first :: tail).drop flaw.distance, ?_,
    explains.shown, ?_⟩
  · rw [List.append_assoc, List.take_append_drop]
  · rw [Position.past_along before inLine short]

theorem stands_lexeme {first : UInt8} {tail : List UInt8} {found : Lexeme}
    (starts : StartsToken (first :: tail)) (read : lexeme first tail = .ok found)
    (before : List UInt8) :
    Stands (before ++ first :: tail)
      (.ok ⟨found.kind, first :: tail.take found.more, ⟨Position.past ⟨1, 0⟩ before,
        (Position.past ⟨1, 0⟩ before).along (found.more + 1)⟩⟩) := by
  obtain ⟨short, -, inLine⟩ := lexeme_take read
  refine ⟨before, List.cons_ne_nil _ _, standsAlone starts read _, ?_, ?_⟩
  · rw [List.prefix_append_right_inj, ← List.take_succ_cons]
    exact List.take_prefix _ _
  · rw [← List.take_succ_cons] at inLine
    rw [Position.past_along before inLine (Nat.succ_le_succ short)]
    rfl

/-- Every token and every lexical error of a text stands where its span says. -/
theorem stands_of_mem_tokensFrom (before bytes : List UInt8) :
    ∀ piece ∈ (tokensFrom [] (Position.past ⟨1, 0⟩ before) bytes).pieces,
      Stands (before ++ bytes) piece := by
  induction size : bytes.length using Nat.strongRecOn generalizing before bytes with
  | ind size ih =>
      subst size
      cases skipped : skipBlanks (Position.past ⟨1, 0⟩ before) bytes with
      | error error =>
          obtain ⟨gap, rest, rfl, shown, rfl⟩ := skipBlanks_eq_error skipped
          rw [tokensFrom_unskipped skipped]
          intro piece member
          obtain rfl := List.mem_singleton.mp member
          refine ⟨before ++ gap, rest, (List.append_assoc ..).symm, shown, ?_⟩
          rw [Position.past_append]
      | ok between =>
          obtain ⟨start, rest⟩ := between
          obtain ⟨gap, rfl, rfl, -, starts⟩ := skipBlanks_eq_ok skipped
          rw [← Position.past_append] at skipped
          cases rest with
          | nil =>
              rw [tokensFrom_ended skipped]
              exact fun piece member => absurd member List.not_mem_nil
          | cons first tail =>
              rw [← List.append_assoc]
              -- what is behind the next bytes is a shorter text
              have goes_on (width : Nat) (inLine : newline ∉ (first :: tail).take (width + 1))
                  (short : width ≤ tail.length) :
                  ∀ piece ∈ (tokensFrom [] ((Position.past ⟨1, 0⟩ (before ++ gap)).along (width + 1))
                    (tail.drop width)).pieces, Stands (before ++ gap ++ first :: tail) piece := by
                have smaller : (tail.drop width).length < (gap ++ first :: tail).length := by
                  simp only [List.length_drop, List.length_append, List.length_cons]
                  omega
                have rest := ih _ smaller (before ++ gap ++ (first :: tail).take (width + 1)) _ rfl
                rw [← Position.past_along _ inLine (Nat.succ_le_succ short), List.append_assoc,
                  List.take_succ_cons, List.cons_append, List.take_append_drop] at rest
                exact rest
              cases read : lexeme first tail with
              | error flaw =>
                  have explains := explains_lexeme read
                  obtain ⟨beyond, same, behind⟩ := tokensFrom_flawed skipped read
                  rw [same]
                  intro piece member
                  rcases List.mem_cons.mp member with rfl | member
                  · exact explains.stands _
                  · rcases behind with rfl | ⟨more, passed, rfl⟩
                    · exact absurd member List.not_mem_nil
                    · have short := explains.short
                      exact goes_on more (passed ▸ explains.passed) (by omega) piece member
              | ok found =>
                  obtain ⟨short, -, inLine⟩ := lexeme_take read
                  rw [tokensFrom_token skipped read]
                  intro piece member
                  rcases List.mem_cons.mp member with rfl | member
                  · exact stands_lexeme starts read _
                  · exact goes_on _ inLine short piece member

end Lexer

theorem TokenStream.stands_of_mem_pieces {bytes : List UInt8} {piece : Except CompileError Token}
    (member : piece ∈ (ofBytes bytes).pieces) : Stands bytes piece :=
  Lexer.stands_of_mem_tokensFrom [] bytes piece member

/-- All errors that a text has by itself are lexical. -/
theorem TokenStream.lexical_of_mem_pieces {bytes : List UInt8} {error : CompileError}
    (member : .error error ∈ (ofBytes bytes).pieces) : error.complaint.kind = .lexical := by
  obtain ⟨_, _, _, shown, _⟩ := stands_of_mem_pieces member
  exact shown.kind

end PocketScript
