import PocketScript.Proofs.Token.Lexemes
import PocketScript.Proofs.Token.Reading

/-!
# Tokens tile the text

A text that is read without an error consists of its tokens and, between them, of blanks and complete
comments: no byte is lost and none is read twice (`TokenStream.tiles_or_stops`). The induction carries
the place of the lexer as the place behind all the bytes that it has passed.
-/

namespace PocketScript

open Ascii

/-! ## Blanks and comments -/

/-- Blanks and complete comments. A line comment lasts up to its newline, or up to the end of the
text if that comes first. -/
inductive Blanks (atEnd : Prop) : List UInt8 → Prop
  | nil : Blanks atEnd []
  | blank {byte : UInt8} {rest : List UInt8} (isBlank : isBlank byte = true) :
      Blanks atEnd rest → Blanks atEnd (byte :: rest)
  | line {comment rest : List UInt8} (inLine : newline ∉ comment) :
      Blanks atEnd (newline :: rest) → Blanks atEnd (slash :: slash :: comment ++ newline :: rest)
  | lastLine {comment : List UInt8} (ends : atEnd) (inLine : newline ∉ comment) :
      Blanks atEnd (slash :: slash :: comment)
  | block {comment rest : List UInt8} (closesLast : ¬ [star, slash] <:+: comment ++ [star]) :
      Blanks atEnd rest → Blanks atEnd (slash :: star :: comment ++ star :: slash :: rest)

namespace Position

variable (position : Position) (one two : List UInt8)

@[simp]
theorem past_nil : position.past [] = position := rfl

/-- Bytes may be passed in two parts. -/
theorem past_append : position.past (one ++ two) = (position.past one).past two := by
  simp only [past, List.count_append, List.length_append, Nat.add_assoc]

/-- Passing bytes of one line. -/
theorem past_inLine {bytes : List UInt8} (inLine : newline ∉ bytes) :
    position.past bytes = position.along bytes.length := by
  rw [past, along, List.count_eq_zero.mpr inLine, Nat.add_zero]

/-- How far one gets does not depend on the order of the bytes. -/
theorem past_perm {one two : List UInt8} (same : one.Perm two) :
    position.past one = position.past two := by
  rw [past, past, same.count_eq, same.length_eq]

end Position

namespace Lexer

/-- A block comment ends at its first closing mark. -/
theorem splitBlockComment_eq_some {passed bytes body rest : List UInt8}
    (split : splitBlockComment passed bytes = some (body, rest)) :
    ∃ comment, bytes = comment ++ star :: slash :: rest ∧
      body = slash :: star :: comment.reverse ++ passed ∧
      ¬ [star, slash] <:+: comment ++ [star] := by
  fun_induction splitBlockComment passed bytes with
  | case1 => cases split
  | case2 passed rest =>
      cases split
      refine ⟨[], rfl, rfl, fun inside => ?_⟩
      have := inside.length_le
      simp at this
  | case3 passed byte rest open_ ih =>
      obtain ⟨comment, rfl, rfl, closes⟩ := ih split
      refine ⟨byte :: comment, rfl, by simp, fun inside => ?_⟩
      rcases List.infix_cons_iff.mp inside with front | behind
      · obtain ⟨behind, same⟩ := front
        cases comment with
        | nil => cases same
        | cons second comment =>
            cases same
            exact open_ _ rfl rfl
      · exact closes behind

/-- What a token may start with: no blank, and no comment's opening. -/
def StartsToken : List UInt8 → Prop
  | [] => True
  | first :: tail =>
      isBlank first = false ∧ (first = slash → tail.head? ≠ some slash ∧ tail.head? ≠ some star)

/-- Where a token starts there are no blanks. -/
theorem skipBlanks_of_startsToken {bytes : List UInt8} (starts : StartsToken bytes)
    (position : Position) : skipBlanks position bytes = .ok (position, bytes) := by
  cases bytes with
  | nil => rw [skipBlanks]
  | cons first tail =>
      obtain ⟨noBlank, noComment⟩ := starts
      rw [skipBlanks.eq_4 _ _ _ ?line ?block, noBlank, if_neg Bool.false_ne_true]
      case line =>
        rintro rest rfl rfl
        exact (noComment rfl).1 rfl
      case block =>
        rintro rest rfl rfl
        exact (noComment rfl).2 rfl

theorem newline_not_mem_line (tail : List UInt8) :
    newline ∉ slash :: slash :: tail.takeWhile (· != newline) := by
  have inside : newline ∉ tail.takeWhile (· != newline) := fun member =>
    absurd (List.all_eq_true.mp List.all_takeWhile _ member) (by decide)
  have notSlash : newline ≠ slash := by decide
  simp [notSlash, inside]

/-- What stands behind a line comment is its newline. -/
theorem head_dropWhile {tail rest : List UInt8} {byte : UInt8}
    (behind : tail.dropWhile (· != newline) = byte :: rest) : byte = newline := by
  have some : tail.dropWhile (· != newline) ≠ [] := by
    rw [behind]
    exact List.cons_ne_nil byte rest
  have stops := List.head_dropWhile_not (· != newline) some
  simpa [behind] using stops

theorem nil_of_startsToken_dropWhile {tail rest : List UInt8}
    (behind : tail.dropWhile (· != newline) = [] ++ rest) (starts : StartsToken rest) :
    rest = [] := by
  cases rest with
  | nil => rfl
  | cons first rest =>
      obtain rfl := head_dropWhile behind
      exact absurd starts.1 (by decide)

theorem past_lineComment (position : Position) (tail : List UInt8) :
    position.along (2 + (tail.takeWhile (· != newline)).length) =
      position.past (slash :: slash :: tail.takeWhile (· != newline)) := by
  rw [Position.past_inLine _ (newline_not_mem_line tail), List.length_cons, List.length_cons,
    Nat.add_comm 2]

/-- A comment in brackets is passed with its newlines. -/
theorem past_blockComment (position : Position) (comment : List UInt8) :
    (position.along 2).past (slash :: star :: comment.reverse ++ []) =
      position.past (slash :: star :: comment ++ [star, slash]) := by
  have turned : slash :: star :: comment.reverse ++ [] = (comment ++ [star, slash]).reverse := by
    simp
  have inLine : newline ∉ [slash, star] := by decide
  have opened : position.along 2 = position.past [slash, star] :=
    (Position.past_inLine position inLine).symm
  rw [turned, Position.past_perm _ (List.reverse_perm _), opened, ← Position.past_append]
  rfl

/-- Only blanks and comments are passed over. -/
theorem skipBlanks_eq_ok {position start : Position} {bytes rest : List UInt8}
    (skipped : skipBlanks position bytes = .ok (start, rest)) :
    ∃ gap, bytes = gap ++ rest ∧ start = position.past gap ∧ Blanks (rest = []) gap ∧
      StartsToken rest := by
  fun_induction skipBlanks position bytes with
  | case1 position =>
      cases skipped
      exact ⟨[], rfl, rfl, .nil, trivial⟩
  | case2 position tail line ih =>
      obtain ⟨gap, rest_eq, rfl, blanks, starts⟩ := ih skipped
      have whole : slash :: slash :: tail = (slash :: slash :: line ++ gap) ++ rest := by
        rw [List.append_assoc, ← rest_eq, List.cons_append, List.cons_append,
          List.takeWhile_append_dropWhile]
      have inLine : newline ∉ slash :: slash :: line := newline_not_mem_line tail
      refine ⟨slash :: slash :: line ++ gap, whole, ?_, ?_, starts⟩
      · rw [Position.past_append, ← past_lineComment]
      · have inLine : newline ∉ line := fun inside => inLine (by simp [inside])
        cases gap with
        | nil =>
            have ended : rest = [] := nil_of_startsToken_dropWhile rest_eq starts
            rw [List.append_nil]
            exact .lastLine ended inLine
        | cons byte gap =>
            obtain rfl : byte = newline := head_dropWhile rest_eq
            exact .line inLine blanks
  | case3 => cases skipped
  | case4 position tail body rest' split ih =>
      obtain ⟨gap, rfl, rfl, blanks, starts⟩ := ih skipped
      obtain ⟨comment, rfl, rfl, closes⟩ := splitBlockComment_eq_some split
      refine ⟨slash :: star :: comment ++ star :: slash :: gap, by simp, ?_, .block closes blanks,
        starts⟩
      rw [past_blockComment, ← Position.past_append]
      simp
  | case5 position byte tail noLine noBlock isBlank ih =>
      obtain ⟨gap, rfl, rfl, blanks, starts⟩ := ih skipped
      refine ⟨byte :: gap, rfl, ?_, .blank isBlank blanks, starts⟩
      rw [← Position.past_append]
      rfl
  | case6 position byte tail noLine noBlock noBlank =>
      cases skipped
      refine ⟨[], rfl, rfl, .nil, by simpa using noBlank, fun isSlash => ?_⟩
      cases tail with
      | nil => constructor <;> rintro ⟨⟩
      | cons next rest =>
          constructor
          · rintro ⟨⟩
            exact noLine rest isSlash rfl
          · rintro ⟨⟩
            exact noBlock rest isSlash rfl

theorem skipBlanks_error {position : Position} {bytes : List UInt8} {error : CompileError}
    (broken : skipBlanks position bytes = .error error) :
    error.complaint = .unterminatedComment := by
  fun_induction skipBlanks position bytes with
  | case1 | case6 => cases broken
  | case2 _ _ _ ih | case4 _ _ _ _ _ ih | case5 _ _ _ _ _ _ ih => exact ih broken
  | case3 =>
      cases broken
      rfl

end Lexer

/-! ## Tokens between blanks -/

/-- The text of the token holds this token and no other. -/
def Token.StandsAlone (token : Token) : Prop :=
  TokenStream.ofBytes token.text =
    .token ⟨token.kind, token.text, ⟨⟨1, 0⟩, ⟨1, token.text.length⟩⟩⟩
      (.ended ⟨1, token.text.length⟩)

/-- A text from a place on is laid out as blanks and tokens in turn. -/
inductive Laid : Position → List UInt8 → List Token → Prop
  | last {position : Position} {gap : List UInt8} (blanks : Blanks True gap) : Laid position gap []
  | token {position : Position} {gap rest : List UInt8} {token : Token} {tokens : List Token}
      (blanks : Blanks False gap) (some : token.text ≠ []) (alone : token.StandsAlone)
      (span : token.span = ⟨position.past gap, position.past (gap ++ token.text)⟩) :
      Laid (position.past (gap ++ token.text)) rest tokens →
      Laid position (gap ++ token.text ++ rest) (token :: tokens)

namespace Lexer

/-- A token that is found stands alone. -/
theorem standsAlone {first : UInt8} {tail : List UInt8} {found : Lexeme}
    (starts : StartsToken (first :: tail)) (read : lexeme first tail = .ok found)
    (span : Span) : Token.StandsAlone ⟨found.kind, first :: tail.take found.more, span⟩ := by
  obtain ⟨short, alone, -⟩ := lexeme_take read
  have cut : StartsToken (first :: tail.take found.more) := by
    refine ⟨starts.1, fun isSlash => ?_⟩
    rw [List.head?_take]
    split
    · constructor <;> rintro ⟨⟩
    · exact starts.2 isSlash
  have width : (first :: tail.take found.more).length = found.more + 1 := by
    rw [List.length_cons, List.length_take, Nat.min_eq_left short]
  have nothing (position : Position) : tokensFrom [] position [] = .ended position :=
    tokensFrom_ended (by rw [skipBlanks])
  have behind : (tail.take found.more).drop found.more = [] := by
    rw [List.drop_take, Nat.sub_self, List.take_zero]
  rw [Token.StandsAlone, TokenStream.ofBytes,
    tokensFrom_token (skipBlanks_of_startsToken cut _) alone, behind, nothing, width,
    List.take_take, Nat.min_self, Position.along, Nat.zero_add]

/-- What is read next from a text: the end behind blanks, an error, or a token behind blanks. -/
inductive Reads (position : Position) : List UInt8 → TokenStream → Prop
  | ended {gap : List UInt8} (blanks : Blanks True gap) :
      Reads position gap (.ended (position.past gap))
  | flawed {bytes : List UInt8} {error : CompileError} {beyond : TokenStream}
      (lexical : error.complaint.kind = .lexical) : Reads position bytes (.flawed error beyond)
  | token {gap rest : List UInt8} {token : Token} (blanks : Blanks False gap)
      (some : token.text ≠ []) (alone : token.StandsAlone)
      (span : token.span = ⟨position.past gap, position.past (gap ++ token.text)⟩) :
      Reads position (gap ++ token.text ++ rest)
        (.token token (tokensFrom [] (position.past (gap ++ token.text)) rest))

/-- From any position on the tokens tile the text. -/
theorem reads_tokensFrom (position : Position) (bytes : List UInt8) :
    Reads position bytes (tokensFrom [] position bytes) := by
  cases skipped : skipBlanks position bytes with
  | error error =>
      rw [tokensFrom_unskipped skipped]
      refine .flawed ?_
      rw [skipBlanks_error skipped]
      rfl
  | ok between =>
      obtain ⟨start, rest⟩ := between
      obtain ⟨gap, rfl, rfl, blanks, starts⟩ := skipBlanks_eq_ok skipped
      cases rest with
      | nil =>
          rw [tokensFrom_ended skipped, List.append_nil]
          rw [eq_true rfl] at blanks
          exact .ended blanks
      | cons first tail =>
          rw [eq_false (List.cons_ne_nil first tail)] at blanks
          cases read : lexeme first tail with
          | error flaw =>
              obtain ⟨beyond, same, -⟩ := tokensFrom_flawed skipped read
              rw [same]
              exact .flawed (lexeme_error read)
          | ok found =>
              obtain ⟨short, -, inLine⟩ := lexeme_take read
              have width : (first :: tail.take found.more).length = found.more + 1 := by
                rw [List.length_cons, List.length_take, Nat.min_eq_left short]
              have stop : (position.past gap).along (found.more + 1) =
                  position.past (gap ++ first :: tail.take found.more) := by
                rw [Position.past_append, Position.past_inLine _ inLine, width]
              have whole : gap ++ first :: tail =
                  gap ++ first :: tail.take found.more ++ tail.drop found.more := by
                rw [List.append_assoc, List.cons_append, List.take_append_drop]
              rw [tokensFrom_token skipped read, stop, whole]
              exact .token blanks (List.cons_ne_nil _ _) (standsAlone starts read _) rfl

/-- A text that is read without an error is laid out as its tokens and the blanks around them. An
error is a lexical one. -/
theorem laid_tokensFrom (position : Position) (bytes : List UInt8) :
    (∀ last, (tokensFrom [] position bytes).outcome = .ok last →
      last = .ending (position.past bytes) ∧
        Laid position bytes (tokensFrom [] position bytes).tokens) ∧
    ∀ error, (tokensFrom [] position bytes).outcome = .error error →
      error.complaint.kind = .lexical := by
  induction size : bytes.length using Nat.strongRecOn generalizing position bytes with
  | ind size ih =>
      subst size
      have reads := reads_tokensFrom position bytes
      generalize tokensFrom [] position bytes = stream at reads ⊢
      cases reads with
      | ended blanks =>
          rw [TokenStream.outcome, TokenStream.tokens]
          refine ⟨fun last same => ?_, fun error impossible => by cases impossible⟩
          cases same
          exact ⟨rfl, .last blanks⟩
      | flawed lexical =>
          rw [TokenStream.outcome]
          refine ⟨fun last impossible => (by cases impossible), fun error same => ?_⟩
          cases same
          exact lexical
      | @token gap rest token blanks some alone span =>
          have smaller : rest.length < (gap ++ token.text ++ rest).length := by
            have := List.length_pos_iff.mpr some
            simp only [List.length_append]
            omega
          obtain ⟨laid, lexical⟩ := ih _ smaller (position.past (gap ++ token.text)) rest rfl
          rw [TokenStream.outcome, TokenStream.tokens]
          refine ⟨fun last same => ?_, lexical⟩
          obtain ⟨ending, laid⟩ := laid last same
          rw [Position.past_append]
          exact ⟨ending, .token blanks some alone span laid⟩

end Lexer

/-! ## Tilings -/

/-- From a place on there is nothing but blanks in front of these tokens, between them and behind
them. -/
def BlanksAround (bytes : List UInt8) (place : Nat) : List Token → Prop
  | [] => Blanks True (bytes.drop place)
  | token :: rest =>
      Blanks False ((bytes.take token.span.start.offset).drop place) ∧
        BlanksAround bytes token.span.stop.offset rest

/-- Tokens that make up a text, with the blanks around them. -/
structure Tiles (bytes : List UInt8) (tokens : List Token) : Prop where
  /-- The bytes of a token are those of its span. -/
  text : ∀ token ∈ tokens,
    token.text = (bytes.take token.span.stop.offset).drop token.span.start.offset
  /-- Spans hold a byte at least, and lie in the text. -/
  filled : ∀ token ∈ tokens, token.span.start.offset < token.span.stop.offset ∧
    token.span.stop.offset ≤ bytes.length
  /-- A token starts where those before it have ended, or behind that. -/
  apart : tokens.Pairwise fun one other => one.span.stop.offset ≤ other.span.start.offset
  between : BlanksAround bytes 0 tokens
  line : ∀ token ∈ tokens,
    token.span.start.line = 1 + (bytes.take token.span.start.offset).count newline
  alone : ∀ token ∈ tokens, token.StandsAlone

/-- A token stands behind some bytes of a text, and its places are those behind these bytes. -/
structure Token.Placed (bytes front : List UInt8) (token : Token) : Prop where
  some : token.text ≠ []
  alone : token.StandsAlone
  inside : front ++ token.text <+: bytes
  span : token.span = ⟨Position.past ⟨1, 0⟩ front, Position.past ⟨1, 0⟩ (front ++ token.text)⟩

namespace Token.Placed

variable {bytes front : List UInt8} {token : Token} (placed : token.Placed bytes front)

include placed

theorem start_offset : token.span.start.offset = front.length := by
  rw [placed.span]
  exact Nat.zero_add _

theorem stop_offset : token.span.stop.offset = front.length + token.text.length := by
  rw [placed.span, ← List.length_append]
  exact Nat.zero_add _

theorem take_start : bytes.take token.span.start.offset = front := by
  obtain ⟨behind, rfl⟩ := placed.inside
  rw [placed.start_offset, List.append_assoc, List.take_left]

theorem take_stop : bytes.take token.span.stop.offset = front ++ token.text := by
  obtain ⟨behind, rfl⟩ := placed.inside
  rw [placed.stop_offset, ← List.length_append, List.take_left]

theorem line : token.span.start.line = 1 + (bytes.take token.span.start.offset).count newline := by
  rw [placed.take_start, placed.span]
  rfl

theorem text : token.text = (bytes.take token.span.stop.offset).drop token.span.start.offset := by
  rw [placed.take_stop, placed.start_offset, List.drop_left]

theorem filled : token.span.start.offset < token.span.stop.offset ∧
    token.span.stop.offset ≤ bytes.length := by
  have some := List.length_pos_iff.mpr placed.some
  have inside := placed.inside.length_le
  rw [List.length_append] at inside
  rw [placed.start_offset, placed.stop_offset]
  omega

end Token.Placed

/-- A token behind a gap, in a text that some bytes come before. -/
theorem Token.placed_behind {token : Token} {before gap : List UInt8} (some : token.text ≠ [])
    (alone : token.StandsAlone)
    (span : token.span = ⟨Position.past (.past ⟨1, 0⟩ before) gap,
      Position.past (.past ⟨1, 0⟩ before) (gap ++ token.text)⟩) (rest : List UInt8) :
    token.Placed (before ++ (gap ++ token.text ++ rest)) (before ++ gap) := by
  refine ⟨some, alone, by simp, ?_⟩
  rw [span, List.append_assoc, Position.past_append _ before, Position.past_append _ before]

namespace Laid

variable {position : Position} {before bytes : List UInt8} {tokens : List Token}

/-- Each token has its place in the text, behind what was before. -/
theorem placed (laid : Laid position bytes tokens) (here : position = .past ⟨1, 0⟩ before) :
    ∀ token ∈ tokens, ∃ front, before <+: front ∧ token.Placed (before ++ bytes) front := by
  induction laid generalizing before with
  | last => simp
  | @token position gap rest first tokens blanks some alone span _ ih =>
      subst here
      intro token member
      rcases List.mem_cons.mp member with rfl | member
      · exact ⟨before ++ gap, List.prefix_append _ _, Token.placed_behind some alone span rest⟩
      · have behind := (Position.past_append ⟨1, 0⟩ before (gap ++ first.text)).symm
        obtain ⟨front, longer, placed⟩ := ih behind token member
        rw [List.append_assoc] at placed
        exact ⟨front, (List.prefix_append _ _).trans longer, placed⟩

/-- Tokens do not overlap. -/
theorem apart (laid : Laid position bytes tokens) (here : position = .past ⟨1, 0⟩ before) :
    tokens.Pairwise fun one other => one.span.stop.offset ≤ other.span.start.offset := by
  induction laid generalizing before with
  | last => exact .nil
  | @token position gap rest first tokens blanks some alone span laid ih =>
      subst here
      have behind := (Position.past_append ⟨1, 0⟩ before (gap ++ first.text)).symm
      have head := Token.placed_behind some alone span rest
      refine .cons (fun other member => ?_) (ih behind)
      obtain ⟨front, longer, placed⟩ := laid.placed behind other member
      have length := longer.length_le
      simp only [List.length_append] at length
      rw [head.stop_offset, placed.start_offset, List.length_append]
      omega

/-- Between them there are blanks and comments only. -/
theorem between (laid : Laid position bytes tokens) (here : position = .past ⟨1, 0⟩ before) :
    BlanksAround (before ++ bytes) before.length tokens := by
  induction laid generalizing before with
  | last blanks =>
      rw [BlanksAround, List.drop_left]
      exact blanks
  | @token position gap rest first tokens blanks some alone span laid ih =>
      subst here
      have head := Token.placed_behind some alone span rest
      have behind := ih (Position.past_append ⟨1, 0⟩ before (gap ++ first.text)).symm
      rw [List.append_assoc before] at behind
      rw [BlanksAround, head.take_start, head.stop_offset, List.drop_left, ← List.length_append,
        List.append_assoc before]
      exact ⟨blanks, behind⟩

/-- The tokens of a layout tile the text. -/
theorem tiles (laid : Laid ⟨1, 0⟩ bytes tokens) : Tiles bytes tokens := by
  have start : (⟨1, 0⟩ : Position) = .past ⟨1, 0⟩ [] := rfl
  have placed (token : Token) (member : token ∈ tokens) : ∃ front, token.Placed bytes front := by
    obtain ⟨front, -, placed⟩ := laid.placed start token member
    exact ⟨front, placed⟩
  constructor
  case text => exact fun token member => (placed token member).choose_spec.text
  case filled => exact fun token member => (placed token member).choose_spec.filled
  case apart => exact laid.apart start
  case between => exact laid.between start
  case line => exact fun token member => (placed token member).choose_spec.line
  case alone => exact fun token member => (placed token member).choose_spec.alone

end Laid

/-- Every text either falls into tokens, with nothing but blanks and complete comments around them,
and then a reader finds them in whatever order it looks ahead and takes them; or reading one token
after the other stops at a lexical error. -/
theorem TokenStream.tiles_or_stops (bytes : List UInt8) :
    (Cursor.ofBytes bytes).answers (List.replicate ((ofBytes bytes).tokens.length + 1) .next) =
      (ofBytes bytes).tokens.map .ok ++ [(ofBytes bytes).outcome] ∧
    match (ofBytes bytes).outcome with
    | .ok last =>
        last = .ending (Position.past ⟨1, 0⟩ bytes) ∧ Tiles bytes (ofBytes bytes).tokens ∧
          ∀ requests, (Cursor.ofBytes bytes).answers requests =
            Cursor.given (ofBytes bytes).tokens (.ok last) requests
    | .error error => error.complaint.kind = .lexical := by
  obtain ⟨laid, lexical⟩ := Lexer.laid_tokensFrom ⟨1, 0⟩ bytes
  rw [← ofBytes] at laid lexical
  refine ⟨by rw [Cursor.answers_ofBytes, Cursor.given_next], ?_⟩
  split
  · rename_i last reached
    obtain ⟨ending, laid⟩ := laid last reached
    refine ⟨ending, laid.tiles, fun requests => ?_⟩
    rw [Cursor.answers_ofBytes, reached]
  · rename_i error stopped
    exact lexical error stopped

end PocketScript
