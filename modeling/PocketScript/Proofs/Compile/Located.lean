import PocketScript.Proofs.Compile.Alike
import PocketScript.Proofs.Text.Lines
import PocketScript.Proofs.Token.Lexemes

/-!
# Where compile errors are

An error is about a token of the text, about the end of the text, or about bytes that are no token or
stand inside of one (`Complaint.About`). Every note of its report names the line this place is on and
the column of the place on this line (`compile_error_located`). That an error is about a token at all
is the comparison of the compilation with itself: whatever place a complaint is raised for, it is the
place of a token that is like itself, that is, of one of the text.
-/

namespace PocketScript

open Ascii

/-! ## What an error is about -/

/-- What a complaint is about stands behind these bytes of the text. -/
inductive Complaint.About (bytes : List UInt8) : List UInt8 → Complaint → Prop
  /-- A token of the text. -/
  | token {front token complaint} : token.Placed bytes front →
      .ok token ∈ (TokenStream.ofBytes bytes).pieces → complaint.Concerns token →
      About bytes front complaint
  /-- The end of the text. -/
  | ending {complaint position} : complaint.Concerns (.ending position) →
      About bytes bytes complaint
  /-- Bytes that are no token. -/
  | flaw {front rest error} : .error error ∈ (TokenStream.ofBytes bytes).pieces →
      error.span.start = Position.past ⟨1, 0⟩ front → bytes = front ++ rest →
      error.complaint.Shown rest → About bytes front error.complaint
  /-- A character inside a string literal: a NUL, or a backslash that starts no escape. -/
  | inString {before token inside value rest complaint} : token.Placed bytes before →
      .ok token ∈ (TokenStream.ofBytes bytes).pieces → token.kind = .string →
      Literal.body token.text = inside ++ rest → Literal.Spells inside value → Literal.Stuck rest →
      complaint = .nulInString ∨ complaint = .invalidEscape →
      About bytes (before ++ token.text.take (inside.length + 1)) complaint

theorem Complaint.About.front {bytes front : List UInt8} {complaint : Complaint}
    (about : complaint.About bytes front) : front <+: bytes := by
  cases about with
  | token placed => exact (List.prefix_append _ _).trans placed.inside
  | ending => exact List.prefix_refl _
  | flaw _ _ whole => exact ⟨_, whole.symm⟩
  | inString placed =>
      exact ((List.prefix_append_right_inj _).mpr (List.take_prefix _ _)).trans placed.inside

/-! ## Tracing errors back -/

namespace Likeness

/-- The tokens and the lexical errors of a text, each like itself alone. -/
def placed (bytes : List UInt8) : Likeness where
  token one other := other = one ∧
    (.ok one ∈ (TokenStream.ofBytes bytes).pieces ∨ one = .ending (Position.past ⟨1, 0⟩ bytes))
  flaw one other := other = one ∧ .error one ∈ (TokenStream.ofBytes bytes).pieces
  kind alike := by rw [alike.1]
  text alike := by rw [alike.1]

end Likeness

theorem TokenStream.isLike_placed (bytes : List UInt8) :
    (ofBytes bytes).IsLike (Likeness.placed bytes) (ofBytes bytes) := by
  refine isLike_of_pieces (List.forall₂_same.mpr fun piece member => ?_) fun last last' one other => ?_
  · cases piece with
    | ok token => exact .token ⟨rfl, .inl member⟩
    | error error => exact .flaw ⟨rfl, member⟩
  · have ending := ((Lexer.laid_tokensFrom ⟨1, 0⟩ bytes).1 last one).1
    exact ⟨Except.ok.inj (other.symm.trans one), .inr ending⟩

/-- An error is raised for the text it is reported for. -/
theorem error_of_compile {bytes : List UInt8} {limits : CompileLimits}
    {isKnownGlobal : String → Bool} {error : CompileError}
    (failed : compile bytes limits isKnownGlobal = .error error) :
    ∃ error', (Likeness.placed bytes).Error error error' := by
  let context : CompileContext := { limits, isKnownGlobal }
  let pair : Comparison :=
    { like := .placed bytes, one := context, other := context, within := .refl limits
      known := fun _ known => known, lenient := False, strict := .inr rfl }
  have ends : pair.Ends (compile bytes limits isKnownGlobal) (compile bytes limits isKnownGlobal) :=
    pair.ends_compile (TokenStream.isLike_placed bytes)
  rw [failed] at ends
  cases ends with
  | failed alike => exact ⟨_, alike⟩
  | adrift may => exact may.elim

/-- A token holds no newline. -/
theorem Token.StandsAlone.inLine {token : Token} (alone : token.StandsAlone) :
    newline ∉ token.text := by
  have member : .ok ⟨token.kind, token.text, ⟨⟨1, 0⟩, ⟨1, token.text.length⟩⟩⟩ ∈
      (TokenStream.ofBytes token.text).pieces := by
    rw [alone]
    exact List.mem_cons_self
  obtain ⟨front, placed⟩ := TokenStream.stands_of_mem_pieces member
  have start : 0 = front.length := placed.start_offset
  obtain rfl := List.length_eq_zero_iff.mp start.symm
  have stop : 1 = 1 + token.text.count newline :=
    congrArg (fun span => span.stop.line) placed.span
  exact List.count_eq_zero.mp (by omega)

/-- A span starts behind some bytes of the text, at what a complaint is about. -/
structure CompileError.Points (bytes front : List UInt8) (error : CompileError) : Prop where
  about : error.complaint.About bytes front
  place : error.span.start = Position.past ⟨1, 0⟩ front

namespace Likeness

variable {bytes : List UInt8}

theorem placed_token {one other : Token} (alike : (placed bytes).token one other) :
    ∃ front, one.span.start = Position.past ⟨1, 0⟩ front ∧
      ∀ complaint : Complaint, complaint.Concerns one → complaint.About bytes front := by
  rcases alike.2 with member | rfl
  · obtain ⟨front, placed⟩ := TokenStream.stands_of_mem_pieces member
    refine ⟨front, ?_, fun complaint concerns => .token placed member concerns⟩
    rw [placed.span]
  · exact ⟨bytes, rfl, fun complaint concerns => .ending concerns⟩

theorem placed_of_kind {one other : Token} (alike : (placed bytes).token one other)
    (kind : one.kind ≠ .endOfInput) :
    .ok one ∈ (TokenStream.ofBytes bytes).pieces ∧ ∃ front, one.Placed bytes front := by
  rcases alike.2 with member | rfl
  · exact ⟨member, TokenStream.stands_of_mem_pieces member⟩
  · exact absurd rfl kind

end Likeness

/-! ## Errors in string literals -/

namespace Literal

/-- What can be wrong with a character of a string. -/
theorem unescape_complaint {written body : List UInt8} {index : Nat} {complaint : Complaint}
    {place : Nat} (broken : unescape written index body = .error (complaint, place)) :
    complaint = .nulInString ∨ complaint = .invalidEscape := by
  fun_induction unescape written index body with
  | case1 => cases broken
  | case2 | case4 | case7 =>
      cases broken
      exact .inl rfl
  | case3 | case5 | case6 | case9 =>
      cases broken
      exact .inr rfl
  | case8 _ _ _ _ _ _ _ _ _ ih | case10 _ _ _ _ _ _ _ _ ih | case11 _ _ _ _ _ _ _ _ _ ih =>
      exact ih broken

/-- An error in a string literal is about a character of it, or about the literal. -/
theorem string_error {token : Token} {error : CompileError} (broken : string token = .error error) :
    (∃ inside value rest complaint, body token.text = inside ++ rest ∧ Spells inside value ∧
        Stuck rest ∧ (complaint = .nulInString ∨ complaint = .invalidEscape) ∧
        error = ⟨complaint, .single (token.span.start.along (inside.length + 1)), none⟩) ∨
      error = ⟨.invalidUtf8InString, token.span, none⟩ := by
  have outcome := unescape_outcome [] 0 (body token.text)
  rw [string] at broken
  cases read : unescape [] 0 (body token.text) with
  | ok bytes =>
      rw [read] at broken
      dsimp only at broken
      split at broken
      · cases broken
      · cases broken
        exact .inr rfl
  | error flaw =>
      obtain ⟨complaint, place⟩ := flaw
      have wrong := unescape_complaint read
      rw [read] at outcome broken
      generalize body token.text = body at outcome ⊢
      cases outcome with
      | @stuck inside value rest _ spells stuck =>
          cases broken
          rw [Nat.zero_add]
          exact .inl ⟨inside, value, rest, _, rfl, spells, stuck, wrong, rfl⟩

end Literal

/-- A string literal that cannot be read is pointed at, or a character of it. -/
theorem Token.Placed.points {bytes before : List UInt8} {token : Token} {error : CompileError}
    (placed : token.Placed bytes before) (member : .ok token ∈ (TokenStream.ofBytes bytes).pieces)
    (kind : token.kind = .string) (broken : Literal.string token = .error error) :
    error.definedAt = none ∧ ∃ front, error.Points bytes front := by
  rcases Literal.string_error broken with
    ⟨inside, value, rest, complaint, body, spells, stuck, wrong, rfl⟩ | rfl
  · refine ⟨rfl, _, .inString placed member kind body spells stuck wrong, ?_⟩
    have inLine : newline ∉ token.text.take (inside.length + 1) := fun member =>
      placed.alone.inLine (List.mem_of_mem_take member)
    have short : inside.length + 1 ≤ token.text.length := by
      have lengths := congrArg List.length body
      rw [Literal.body, List.length_dropLast, List.length_tail, List.length_append] at lengths
      have some : 0 < rest.length := by cases stuck <;> exact Nat.succ_pos _
      omega
    rw [← Position.past_along before inLine short, placed.span]
    rfl
  · refine ⟨rfl, before, .token placed member kind, ?_⟩
    rw [placed.span]

/-- Every error points at what it is about; the keyword that it may quote is a token too. -/
theorem Likeness.Error.points {bytes : List UInt8} {error error' : CompileError}
    (alike : (Likeness.placed bytes).Error error error') :
    (∃ front, error.Points bytes front) ∧
      ∀ span ∈ error.definedAt, ∃ front keyword, keyword.Placed bytes front ∧
        .ok keyword ∈ (TokenStream.ofBytes bytes).pieces ∧ keyword.kind = .kwDef ∧
        span = keyword.span := by
  cases alike with
  | flaw flaw =>
      obtain ⟨front, rest, whole, shown, same⟩ := TokenStream.stands_of_mem_pieces flaw.2
      have place : error.span.start = Position.past ⟨1, 0⟩ front := by
        rw [same]
        rfl
      have none : error.definedAt = none := by rw [same]
      rw [none]
      exact ⟨⟨front, .flaw flaw.2 place whole shown, place⟩, nofun⟩
  | token complaint same concerns =>
      obtain ⟨front, place, about⟩ := placed_token same
      exact ⟨⟨front, about _ concerns, place⟩, nofun⟩
  | @functionName token _ keyword _ same defines other kind =>
      obtain ⟨front, place, about⟩ := placed_token same
      obtain ⟨member, before, placed⟩ := placed_of_kind defines (by rw [kind]; decide)
      refine ⟨⟨front, about _ ⟨rfl, other⟩, place⟩, ?_⟩
      rintro span ⟨⟩
      exact ⟨before, keyword, placed, member, kind, rfl⟩
  | inString same kind broken =>
      obtain ⟨member, before, placed⟩ := placed_of_kind same (by rw [kind]; decide)
      obtain ⟨none, points⟩ := placed.points member kind broken
      rw [none]
      exact ⟨points, nofun⟩

/-! ## Notes -/

/-- A note shows the place behind some bytes of a text: it names a line of the text and a column on
it, or right behind it, that are those of the place, and quotes this line. -/
def Note.Shows (note : Note) (bytes front : List UInt8) : Prop :=
  ∃ before line behind, bytes = before ++ line ++ behind ∧ IsLine note.line before line behind ∧
    note.context = Utf8.decodeLossy (withoutReturn line) ∧
    0 < note.startColumn ∧ note.startColumn < note.endColumn ∧
    before.length + (note.startColumn - 1) = front.length ∧
    note.startColumn - 1 ≤ line.length ∧ front.length ≤ bytes.length

/-- The note for a span that starts behind some bytes of a text shows this place. -/
theorem Note.shows_ofSpan {source : Source} {front : List UInt8} {span : Span}
    (inside : front <+: source.bytes) (place : span.start = Position.past ⟨1, 0⟩ front)
    (severity : Severity) (message : String) :
    (ofSpan severity source span message).Shows source.bytes front := by
  have short := inside.length_le
  obtain ⟨rest, split⟩ := inside
  obtain ⟨before, passed, line, behind, rfl, onLine, whole, isLine⟩ := exists_isLine front rest
  rw [split] at whole
  have number : span.start.line = (before ++ passed).count newline + 1 := by
    rw [place]
    exact Nat.add_comm ..
  have offset : span.start.offset = before.length + passed.length := by
    rw [place, ← List.length_append]
    exact Nat.zero_add _
  rw [← number] at isLine
  have column : (ofSpan severity source span message).startColumn = passed.length + 1 := by
    change span.start.offset - source.lineStart span.start.line + 1 = _
    rw [offset, isLine.lineStart whole, Nat.add_sub_cancel_left]
  refine ⟨before, line, behind, whole, isLine, ?_, ?_, ?_, ?_, ?_, short⟩
  · rw [← isLine.lineBytes whole]
    rfl
  · exact Nat.succ_pos _
  · exact Nat.lt_of_lt_of_le (Nat.lt_succ_self _) (Nat.le_max_right _ _)
  · rw [column, Nat.add_sub_cancel, List.length_append]
  · rw [column, Nat.add_sub_cancel]
    exact onLine.length_le

/-- Compile errors locate themselves. In every text, each line number leads to a line in the table of
line starts. The error that a compilation fails with is about something in the text, and its report
shows where this is; a remark shows the `def` that a function's name is missing behind. What is quoted
is the line, up to its newline or the end of the text, without one carriage return at its end. -/
theorem compile_error_located :
    (∀ (source : Source) (number : Nat), 0 < number → ∃ before line behind,
      source.Finds number before line behind ∧
        IsLine (min number source.lineStarts.length) before line behind) ∧
    ∀ (source : Source) (limits : CompileLimits) (isKnownGlobal : String → Bool)
      (error : CompileError), compile source.bytes limits isKnownGlobal = .error error →
      (∃ front, error.complaint.About source.bytes front ∧
        (error.report source).error.Shows source.bytes front) ∧
      ∀ remark ∈ (error.report source).remarks, ∃ front keyword,
        keyword.Placed source.bytes front ∧
          .ok keyword ∈ (TokenStream.ofBytes source.bytes).pieces ∧ keyword.kind = .kwDef ∧
          remark.Shows source.bytes front := by
  refine ⟨fun source number positive => source.finds positive,
    fun source limits known error failed => ?_⟩
  obtain ⟨error', alike⟩ := error_of_compile failed
  obtain ⟨⟨front, points⟩, quoted⟩ := alike.points
  refine ⟨⟨front, points.about, Note.shows_ofSpan points.about.front points.place _ _⟩, ?_⟩
  intro remark member
  obtain ⟨span, definedAt, rfl⟩ := List.mem_map.mp member
  obtain ⟨front, keyword, placed, isToken, kind, rfl⟩ := quoted span (Option.mem_toList.mp definedAt)
  refine ⟨front, keyword, placed, isToken, kind, Note.shows_ofSpan ?_ ?_ _ _⟩
  · exact (List.prefix_append _ _).trans placed.inside
  · rw [placed.span]

/-- A function without a name, and behind it the end of the text on a line of its own. -/
def namelessSource : Source := ⟨"nameless", "def\r\n".toUTF8.toList⟩

def namelessError : CompileError :=
  ⟨.expectedFunctionName .endOfInput, ⟨⟨2, 5⟩, ⟨2, 5⟩⟩, some ⟨⟨1, 0⟩, ⟨1, 3⟩⟩⟩

theorem compile_error_located_nameless :
    (∃ before line behind, namelessSource.Finds 2 before line behind ∧
      IsLine (min 2 namelessSource.lineStarts.length) before line behind) ∧
    compile namelessSource.bytes {} (fun _ => false) = .error namelessError ∧
    (∃ front, namelessError.complaint.About namelessSource.bytes front ∧
      (namelessError.report namelessSource).error.Shows namelessSource.bytes front) ∧
    ∀ remark ∈ (namelessError.report namelessSource).remarks, ∃ front keyword,
      keyword.Placed namelessSource.bytes front ∧
        .ok keyword ∈ (TokenStream.ofBytes namelessSource.bytes).pieces ∧ keyword.kind = .kwDef ∧
        remark.Shows namelessSource.bytes front := by
  have failed : compile namelessSource.bytes {} (fun _ => false) = .error namelessError := by
    rw [compile, TokenStream.ofBytes, @Lexer.tokensFrom_eq_within 6 _ _ _ (by cbv)]
    cbv
  exact ⟨compile_error_located.1 namelessSource 2 (by decide), failed,
    compile_error_located.2 namelessSource {} _ _ failed⟩

end PocketScript
