import PocketScript.Proofs.Text.Decoding
import PocketScript.Proofs.Token.Tiling
import PocketScript.Token.Literal

/-!
# What string literals stand for

The body of a literal spells bytes when every NUL is kept out of it and every backslash starts an
escape (`Literal.Spells`). Such a body is read as these bytes, and any other is an error at its first
NUL or backslash that is not so (`Literal.string_reads`). A text without NUL can be written between
quotes, and is read back (`Literal.written_reads`).
-/

namespace PocketScript.Literal

open Ascii

/-! ## Escapes -/

/-- The letters behind a backslash, with the bytes they stand for. -/
def letters : List (UInt8 × UInt8) :=
  [(0x6E, newline), (0x74, 0x09), (0x72, carriageReturn), (backslash, backslash),
    (singleQuote, singleQuote), (doubleQuote, doubleQuote)]

theorem escaped?_eq_some_iff {letter byte : UInt8} :
    escaped? letter = some byte ↔ (letter, byte) ∈ letters := by
  constructor
  · intro found
    have back : UInt8.ofNat (Char.ofUInt8 letter).toNat = letter := UInt8.ofNat_toNat
    unfold escaped? at found
    split at found <;> cases found
    all_goals
      rw [‹Char.ofUInt8 letter = _›] at back
      rw [← back]
      decide
  · intro listed
    simp only [letters, List.mem_cons, Prod.mk.injEq, List.not_mem_nil, or_false] at listed
    rcases listed with ⟨rfl, rfl⟩ | ⟨rfl, rfl⟩ | ⟨rfl, rfl⟩ | ⟨rfl, rfl⟩ | ⟨rfl, rfl⟩ | ⟨rfl, rfl⟩ <;>
      rfl

/-- The escapes, and the byte each stands for. Two hexadecimal digits give its number, which is that
of an ASCII character and not zero; a plus sign may stand in the place of the first of them. -/
inductive Escape : List UInt8 → UInt8 → Prop
  | letter {letter byte : UInt8} (listed : (letter, byte) ∈ letters) :
      Escape [backslash, letter] byte
  | hex {high low : UInt8} (digits : isHexDigit high = true ∧ isHexDigit low = true)
      (range : 0 < hexNumber [high, low] ∧ hexNumber [high, low] < 0x80) :
      Escape [backslash, 0x78, high, low] (UInt8.ofNat (hexNumber [high, low]))
  | signed {low : UInt8} (digit : isHexDigit low = true) (nonzero : 0 < hexValue low) :
      Escape [backslash, 0x78, plus, low] (UInt8.ofNat (hexValue low))

/-- A body and the bytes it stands for. -/
inductive Spells : List UInt8 → List UInt8 → Prop
  | nil : Spells [] []
  | raw {byte : UInt8} {body bytes : List UInt8} (nonzero : byte ≠ 0)
      (notBackslash : byte ≠ backslash) :
      Spells body bytes → Spells (byte :: body) (byte :: bytes)
  | escape {sequence : List UInt8} {byte : UInt8} {body bytes : List UInt8}
      (escape : Escape sequence byte) :
      Spells body bytes → Spells (sequence ++ body) (byte :: bytes)

/-- Where the reading of a body stops: at a NUL, or at a backslash that starts no escape. -/
inductive Stuck : List UInt8 → Prop
  | nul {rest : List UInt8} : Stuck (0 :: rest)
  | noEscape {rest : List UInt8}
      (none : ∀ sequence byte, Escape sequence byte → ¬ sequence <+: backslash :: rest) :
      Stuck (backslash :: rest)

theorem hexEscape?_eq_some_iff {high low : UInt8} {value : Nat} :
    hexEscape? high low = some value ↔
      isHexDigit low = true ∧ (isHexDigit high = true ∧ value = hexNumber [high, low] ∨
        high = plus ∧ value = hexValue low) := by
  have noDigit : isHexDigit plus = false := by decide
  unfold hexEscape?
  cases isHexDigit low with
  | false => simp
  | true =>
      by_cases digit : isHexDigit high = true
      · have noPlus : high ≠ plus := by
          rintro rfl
          simp [noDigit] at digit
        simp [digit, noPlus, eq_comm]
      · simp [digit, eq_comm]

/-- A hexadecimal digit is less than sixteen. -/
theorem hexValue_lt {digit : UInt8} (isDigit : isHexDigit digit = true) : hexValue digit < 16 := by
  simp only [isHexDigit, Ascii.isDigit, Bool.or_eq_true, Bool.and_eq_true, decide_eq_true_eq,
    UInt8.le_iff_toNat_le, UInt8.toNat_ofNat] at isDigit
  unfold hexValue
  simp only [Ascii.isDigit, Bool.and_eq_true, decide_eq_true_eq, UInt8.le_iff_toNat_le,
    UInt8.toNat_ofNat]
  split
  · omega
  · split <;> omega

/-- An escape at the front of a text: its letter, and the digits behind an `x`. -/
theorem Escape.of_prefix {sequence rest : List UInt8} {byte : UInt8}
    (escape : Escape sequence byte) (front : sequence <+: backslash :: rest) :
    ∃ letter tail, rest = letter :: tail ∧ ((letter, byte) ∈ letters ∨
      letter = 0x78 ∧ ∃ high low behind value, tail = high :: low :: behind ∧
        hexEscape? high low = some value ∧ 0 < value ∧ value < 0x80) := by
  obtain ⟨behind, same⟩ := front
  cases escape with
  | letter listed =>
      cases same
      exact ⟨_, _, rfl, .inl listed⟩
  | hex digits range =>
      cases same
      exact ⟨_, _, rfl, .inr ⟨rfl, _, _, _, _, rfl,
        hexEscape?_eq_some_iff.mpr ⟨digits.2, .inl ⟨digits.1, rfl⟩⟩, range⟩⟩
  | signed digit nonzero =>
      cases same
      refine ⟨_, _, rfl, .inr ⟨rfl, _, _, _, _, rfl,
        hexEscape?_eq_some_iff.mpr ⟨digit, .inr ⟨rfl, rfl⟩⟩, nonzero, ?_⟩⟩
      exact Nat.lt_trans (hexValue_lt digit) (by decide)

/-- The escape that a backslash, an `x` and two bytes are. -/
theorem escape_of_hexEscape? {high low : UInt8} {value : Nat}
    (found : hexEscape? high low = some value) (positive : 0 < value) (small : value < 0x80) :
    Escape [backslash, 0x78, high, low] (UInt8.ofNat value) := by
  obtain ⟨lowDigit, ⟨highDigit, rfl⟩ | ⟨rfl, rfl⟩⟩ := hexEscape?_eq_some_iff.mp found
  · exact .hex ⟨highDigit, lowDigit⟩ ⟨positive, small⟩
  · exact .signed lowDigit positive

/-- A backslash starts no escape where neither its letter is listed nor digits of the right value
stand behind an `x`. -/
theorem stuck_of_letter {letter : UInt8} {tail : List UInt8}
    (unlisted : ∀ byte, (letter, byte) ∉ letters)
    (noDigits : letter = 0x78 → ∀ high low behind value, tail = high :: low :: behind →
      hexEscape? high low = some value → 0 < value → 0x80 ≤ value) :
    Stuck (backslash :: letter :: tail) := by
  refine .noEscape fun sequence byte escape front => ?_
  obtain ⟨_, _, same, listed | ⟨isX, high, low, behind, value, rest, found, positive, small⟩⟩ :=
    escape.of_prefix front
  · cases same
    exact unlisted byte listed
  · cases same
    exact absurd (noDigits isX high low behind value rest found positive) (Nat.not_le_of_lt small)

theorem unlisted {letter : UInt8} (other : letter ∉ letters.map Prod.fst) (byte : UInt8) :
    (letter, byte) ∉ letters :=
  fun listed => other (List.mem_map_of_mem listed)

/-! ## Reading a body -/

/-- Reading a body comes to its end, or stops where it is stuck. -/
inductive Outcome (written : List UInt8) (index : Nat) :
    List UInt8 → Except Flaw (List UInt8) → Prop
  | whole {body bytes : List UInt8} (spells : Spells body bytes) :
      Outcome written index body (.ok (written.reverse ++ bytes))
  | stuck {front bytes rest : List UInt8} {complaint : Complaint} (spells : Spells front bytes)
      (stuck : Stuck rest) (lexical : complaint.kind = .lexical) :
      Outcome written index (front ++ rest) (.error (complaint, index + front.length))

/-- What stands in front of a body goes before all that the body spells. -/
theorem Outcome.behind {written sequence body : List UInt8} {index : Nat} {byte : UInt8}
    {result : Except Flaw (List UInt8)}
    (spells : ∀ body bytes, Spells body bytes → Spells (sequence ++ body) (byte :: bytes))
    (outcome : Outcome (byte :: written) (index + sequence.length) body result) :
    Outcome written index (sequence ++ body) result := by
  cases outcome with
  | whole rest =>
      rw [List.reverse_cons, List.append_assoc]
      exact .whole (spells _ _ rest)
  | @stuck front bytes rest complaint before stuck lexical =>
      rw [← List.append_assoc, Nat.add_assoc, ← List.length_append]
      exact .stuck (spells _ _ before) stuck lexical

theorem Outcome.here {written rest : List UInt8} {index : Nat} {complaint : Complaint}
    (stuck : Stuck rest) (lexical : complaint.kind = .lexical) :
    Outcome written index rest (.error (complaint, index)) := by
  have atOnce : Outcome written index ([] ++ rest) (.error (complaint, index + 0)) :=
    .stuck .nil stuck lexical
  exact atOnce

/-- A literal reads as its bytes, or is stuck at some place. -/
theorem unescape_outcome (written : List UInt8) (index : Nat) (body : List UInt8) :
    Outcome written index body (unescape written index body) := by
  fun_induction unescape written index body with
  | case1 written index =>
      have whole : Outcome written index [] (.ok (written.reverse ++ [])) := .whole .nil
      rwa [List.append_nil] at whole
  | case2 => exact .here .nul rfl
  | case3 written index =>
      refine .here (.noEscape fun sequence byte escape front => ?_) rfl
      obtain ⟨letter, tail, impossible, -⟩ := escape.of_prefix front
      cases impossible
  | case4 written index tail =>
      refine .here (stuck_of_letter (unlisted (by decide)) fun isX => ?_) rfl
      exact absurd isX (by decide)
  | case5 written index high low rest none =>
      refine .here (stuck_of_letter (unlisted (by decide)) ?_) rfl
      rintro - _ _ _ value ⟨⟩ found
      rw [none] at found
      cases found
  | case6 written index high low rest value found large =>
      refine .here (stuck_of_letter (unlisted (by decide)) ?_) rfl
      rintro - _ _ _ other ⟨⟩ found' -
      rw [found] at found'
      cases found'
      exact large
  | case7 written index high low rest found =>
      refine .here (stuck_of_letter (unlisted (by decide)) ?_) rfl
      rintro - _ _ _ other ⟨⟩ found' positive
      rw [found] at found'
      cases found'
      exact absurd positive (Nat.lt_irrefl 0)
  | case8 written index high low rest value found small nonzero ih =>
      have escape := escape_of_hexEscape? found (Nat.pos_of_ne_zero nonzero) (Nat.lt_of_not_le small)
      exact Outcome.behind (fun _ _ => .escape escape) ih
  | case9 written index letter rest noNul noHex none =>
      refine .here (stuck_of_letter (fun byte listed => ?_) ?_) rfl
      · rw [escaped?_eq_some_iff.mpr listed] at none
        cases none
      · rintro isX high low behind value rfl
        exact absurd rfl (noHex high low behind isX)
  | case10 written index letter rest noNul noHex byte found ih =>
      have escape := Escape.letter (escaped?_eq_some_iff.mp found)
      exact Outcome.behind (fun _ _ => .escape escape) ih
  | case11 written index byte rest nonzero last nul hex letter ih =>
      have notBackslash : byte ≠ backslash := by
        rintro rfl
        cases rest with
        | nil => exact last rfl rfl
        | cons next rest => exact letter next rest rfl rfl
      have raw : ∀ body bytes, Spells body bytes → Spells ([byte] ++ body) (byte :: bytes) :=
        fun _ _ => .raw nonzero notBackslash
      exact Outcome.behind raw ih

/-! ## A body spells one sequence of bytes -/

/-- An escaped letter becomes its byte. -/
theorem unescape_letter {written rest : List UInt8} {index : Nat} {letter byte : UInt8}
    (listed : (letter, byte) ∈ letters) :
    unescape written index (backslash :: letter :: rest) =
      unescape (byte :: written) (index + 2) rest := by
  have noNul : letter ≠ 0x30 := by
    rintro rfl
    exact unlisted (by decide) byte listed
  have noHex : letter ≠ 0x78 := by
    rintro rfl
    exact unlisted (by decide) byte listed
  rw [unescape.eq_6 _ _ _ _ noNul fun _ _ _ isX => absurd isX noHex,
    escaped?_eq_some_iff.mpr listed]

/-- And so does an escaped number of two digits. -/
theorem unescape_hex {written rest : List UInt8} {index value : Nat} {high low : UInt8}
    (found : hexEscape? high low = some value) (positive : 0 < value) (small : value < 0x80) :
    unescape written index (backslash :: 0x78 :: high :: low :: rest) =
      unescape (UInt8.ofNat value :: written) (index + 4) rest := by
  rw [unescape, found]
  simp only
  rw [if_neg (Nat.not_le_of_lt small), if_neg (Nat.ne_of_gt positive)]

/-- So every escape becomes its byte. -/
theorem Escape.unescape {sequence written rest : List UInt8} {index : Nat} {byte : UInt8}
    (escape : Escape sequence byte) :
    unescape written index (sequence ++ rest) =
      Literal.unescape (byte :: written) (index + sequence.length) rest := by
  cases escape with
  | letter listed => exact unescape_letter listed
  | hex digits range =>
      exact unescape_hex (hexEscape?_eq_some_iff.mpr ⟨digits.2, .inl ⟨digits.1, rfl⟩⟩) range.1 range.2
  | signed digit nonzero =>
      exact unescape_hex (hexEscape?_eq_some_iff.mpr ⟨digit, .inr ⟨rfl, rfl⟩⟩) nonzero
        (Nat.lt_trans (hexValue_lt digit) (by decide))

/-- And a body that spells bytes is read as them. -/
theorem Spells.unescape {body bytes : List UInt8} (spells : Spells body bytes)
    (written : List UInt8) (index : Nat) :
    unescape written index body = .ok (written.reverse ++ bytes) := by
  induction spells generalizing written index with
  | nil => rw [Literal.unescape, List.append_nil]
  | raw nonzero notBackslash _ ih =>
      rw [unescape.eq_7 _ _ _ _ nonzero (fun same => absurd same notBackslash)
        (fun _ same => absurd same notBackslash) (fun _ _ _ same => absurd same notBackslash)
        fun _ _ same => absurd same notBackslash, ih]
      simp
  | escape escape _ ih =>
      rw [escape.unescape, ih]
      simp

/-- Every string token is read exactly when its body spells UTF-8 bytes, and then stands for their
text. Otherwise there is a lexical error: at the first NUL of the body that is met, or at the first
backslash that starts no escape; and if there is neither, about the whole token. -/
theorem string_reads (token : Token) :
    (∀ text, string token = .ok text ↔ Spells (body token.text) (Utf8.encode text)) ∧
      ∀ error, string token = .error error → error.complaint.kind = .lexical ∧
        ((∃ front bytes rest, body token.text = front ++ rest ∧ Spells front bytes ∧ Stuck rest ∧
            error.span = .single (token.span.start.along (front.length + 1))) ∨
          ∃ bytes, Spells (body token.text) bytes ∧ Utf8.decode? bytes = none ∧
            error.span = token.span) := by
  have outcome := unescape_outcome [] 0 (body token.text)
  refine ⟨fun text => ⟨fun found => ?_, fun spells => ?_⟩, fun error broken => ?_⟩
  · rw [string] at found
    generalize unescape [] 0 (body token.text) = result at outcome found
    generalize body token.text = body at outcome ⊢
    cases outcome with
    | whole spells =>
        simp only [List.reverse_nil, List.nil_append] at found
        split at found
        · rename_i decoded
          cases found
          rwa [Utf8.decode?_eq_some_iff.mp decoded] at spells
        · cases found
    | stuck => cases found
  · rw [string, spells.unescape]
    simp only [List.reverse_nil, List.nil_append]
    rw [Utf8.decode?_eq_some_iff.mpr rfl]
  · rw [string] at broken
    generalize unescape [] 0 (body token.text) = result at outcome broken
    generalize body token.text = body at outcome ⊢
    cases outcome with
    | @whole _ bytes spells =>
        simp only [List.reverse_nil, List.nil_append] at broken
        split at broken
        · cases broken
        · rename_i undecoded
          cases broken
          exact ⟨rfl, .inr ⟨bytes, spells, undecoded, rfl⟩⟩
    | @stuck front bytes rest complaint spells stuck lexical =>
        cases broken
        rw [Nat.zero_add]
        exact ⟨lexical, .inl ⟨front, bytes, rest, rfl, spells, stuck, rfl⟩⟩

/-- A plus sign in the place of a hexadecimal digit. -/
example (span : Span) :
    string ⟨.string, [singleQuote, backslash, 0x78, plus, 0x35, singleQuote], span⟩ =
      .ok "\x05" := by
  cbv

theorem letters_nonzero : ∀ entry ∈ letters, entry.2 ≠ 0 := by
  simp only [letters, List.forall_mem_cons, List.not_mem_nil, false_implies, implies_true, and_true]
  decide

theorem Escape.byte_ne_zero {sequence : List UInt8} {byte : UInt8} (escape : Escape sequence byte) :
    byte ≠ 0 := by
  cases escape with
  | letter listed => exact letters_nonzero _ listed
  | hex digits range => exact (Utf8.ofNat_ne_zero range.1 (by omega)).symm
  | signed digit nonzero =>
      exact (Utf8.ofNat_ne_zero nonzero (Nat.lt_trans (hexValue_lt digit) (by decide))).symm

/-- An escape takes at least one byte. -/
theorem Escape.length_pos {sequence : List UInt8} {byte : UInt8} (escape : Escape sequence byte) :
    0 < sequence.length := by
  cases escape <;> exact Nat.succ_pos _

/-- No byte that a body stands for is zero, and there are no more than in the body. -/
theorem Spells.clean {body bytes : List UInt8} (spells : Spells body bytes) :
    0 ∉ bytes ∧ bytes.length ≤ body.length := by
  induction spells with
  | nil => exact ⟨List.not_mem_nil, Nat.le_refl _⟩
  | raw nonzero _ _ ih =>
      exact ⟨List.not_mem_cons_of_ne_of_not_mem (Ne.symm nonzero) ih.1, Nat.succ_le_succ ih.2⟩
  | escape escape _ ih =>
      have some := escape.length_pos
      refine ⟨List.not_mem_cons_of_ne_of_not_mem escape.byte_ne_zero.symm ih.1, ?_⟩
      rw [List.length_cons, List.length_append]
      omega

/-! ## Writing a text as a literal -/

/-- The quotes that a literal may stand between. -/
inductive Quote where
  | single
  | double
  deriving DecidableEq, Repr

def Quote.char : Quote → Char
  | single => '\''
  | double => '"'

def Quote.byte : Quote → UInt8
  | single => singleQuote
  | double => doubleQuote

/-- A character between quotes: a backslash, the quote and a newline are escaped. -/
def writtenChar (quote : Quote) (c : Char) : List Char :=
  if c = '\\' ∨ c = quote.char then ['\\', c]
  else if c = '\n' then ['\\', 'n']
  else [c]

/-- A text as a literal. -/
def written (quote : Quote) (text : String) : String :=
  String.ofList (quote.char :: text.toList.flatMap (writtenChar quote) ++ [quote.char])

/-- The bytes between the quotes. -/
def writtenBody (quote : Quote) (chars : List Char) : List UInt8 :=
  (chars.flatMap (writtenChar quote)).flatMap String.utf8EncodeChar

/-- Either quote is one byte. -/
theorem Quote.encode_char (quote : Quote) : String.utf8EncodeChar quote.char = [quote.byte] := by
  cases quote <;> rfl

/-- A text is written between quotes. -/
theorem encode_written (quote : Quote) (text : String) :
    Utf8.encode (written quote text) =
      quote.byte :: writtenBody quote text.toList ++ [quote.byte] := by
  rw [Utf8.encode, written, String.toList_ofList, List.flatMap_append, List.flatMap_cons,
    List.flatMap_singleton, quote.encode_char]
  rfl

/-- An ASCII byte among those of a character is that character. -/
theorem eq_ofUInt8_of_mem {c : Char} {byte : UInt8} (member : byte ∈ String.utf8EncodeChar c)
    (ascii : byte.toNat < 0x80) : c = Char.ofUInt8 byte :=
  Char.ext (UInt32.toNat_inj.mp ((Utf8.spelled_encode c).ascii_mem member ascii).1)

/-- Bytes that neither end a literal nor start an escape stand for themselves. -/
structure IsRaw (quote : Quote) (byte : UInt8) : Prop where
  notNewline : byte ≠ newline
  notQuote : byte ≠ quote.byte
  notBackslash : byte ≠ backslash
  nonzero : byte ≠ 0

theorem Quote.ofUInt8_byte (quote : Quote) : Char.ofUInt8 quote.byte = quote.char := by
  cases quote <;> rfl

/-- The bytes of other characters stand for themselves. -/
theorem isRaw_of_mem {quote : Quote} {c : Char} {byte : UInt8}
    (member : byte ∈ String.utf8EncodeChar c) (notBackslash : c ≠ '\\') (notQuote : c ≠ quote.char)
    (notNewline : c ≠ '\n') (nonzero : c ≠ Char.ofNat 0) : IsRaw quote byte := by
  constructor
  · rintro rfl
    exact notNewline (eq_ofUInt8_of_mem member (by decide))
  · rintro rfl
    rw [← quote.ofUInt8_byte] at notQuote
    exact notQuote (eq_ofUInt8_of_mem member (by cases quote <;> decide))
  · rintro rfl
    exact notBackslash (eq_ofUInt8_of_mem member (by decide))
  · rintro rfl
    exact nonzero (eq_ofUInt8_of_mem member (by decide))

section Raw

variable {quote : Quote} {raw rest bytes : List UInt8}

/-- So they may stand in a string. -/
theorem isQuoted_append (isRaw : ∀ byte ∈ raw, IsRaw quote byte)
    (quoted : Lexer.IsQuoted quote.byte rest) : Lexer.IsQuoted quote.byte (raw ++ rest) := by
  induction raw with
  | nil => exact quoted
  | cons byte raw ih =>
      have here := isRaw byte List.mem_cons_self
      exact .raw here.notNewline here.notQuote here.notBackslash
        (ih fun other member => isRaw other (List.mem_cons_of_mem _ member))

/-- And they spell themselves there. -/
theorem spells_append (isRaw : ∀ byte ∈ raw, IsRaw quote byte) (spells : Spells rest bytes) :
    Spells (raw ++ rest) (raw ++ bytes) := by
  induction raw with
  | nil => exact spells
  | cons byte raw ih =>
      have here := isRaw byte List.mem_cons_self
      exact .raw here.nonzero here.notBackslash
        (ih fun other member => isRaw other (List.mem_cons_of_mem _ member))

end Raw

/-- A written character is kept together by the lexer, and read as that character. -/
theorem writtenChar_reads {quote : Quote} {c : Char} (nonzero : c ≠ Char.ofNat 0)
    {rest bytes : List UInt8} (quoted : Lexer.IsQuoted quote.byte rest)
    (spells : Spells rest bytes) :
    Lexer.IsQuoted quote.byte ((writtenChar quote c).flatMap String.utf8EncodeChar ++ rest) ∧
      Spells ((writtenChar quote c).flatMap String.utf8EncodeChar ++ rest)
        (String.utf8EncodeChar c ++ bytes) := by
  have escape {letter byte : UInt8} (listed : (letter, byte) ∈ letters) (inLine : letter ≠ newline) :
      Lexer.IsQuoted quote.byte (backslash :: letter :: rest) ∧
        Spells (backslash :: letter :: rest) (byte :: bytes) :=
    ⟨.escape inLine quoted, .escape (.letter listed) spells⟩
  unfold writtenChar
  split
  · rename_i escaped
    rcases escaped with rfl | rfl
    · exact escape (by decide) (by decide)
    · cases quote with
      | single | double => exact escape (by decide) (by decide)
  · rename_i notEscaped
    obtain ⟨notBackslash, notQuote⟩ := not_or.mp notEscaped
    split
    · rename_i isNewline
      subst isNewline
      exact escape (by decide) (by decide)
    · rename_i notNewline
      rw [List.flatMap_singleton]
      have isRaw : ∀ byte ∈ String.utf8EncodeChar c, IsRaw quote byte := fun byte member =>
        isRaw_of_mem member notBackslash notQuote notNewline nonzero
      exact ⟨isQuoted_append isRaw quoted, spells_append isRaw spells⟩

theorem writtenBody_reads {quote : Quote} {chars : List Char} (clean : Char.ofNat 0 ∉ chars) :
    Lexer.IsQuoted quote.byte (writtenBody quote chars) ∧
      Spells (writtenBody quote chars) (chars.flatMap String.utf8EncodeChar) := by
  induction chars with
  | nil => exact ⟨.nil, .nil⟩
  | cons c chars ih =>
      obtain ⟨nonzero, clean⟩ := not_or.mp (mt List.mem_cons.mpr clean)
      obtain ⟨quoted, spells⟩ := ih clean
      rw [writtenBody, List.flatMap_cons, List.flatMap_append, List.flatMap_cons]
      exact writtenChar_reads (Ne.symm nonzero) quoted spells

/-- A string token is found where its closing quote is. -/
theorem lexeme_quoted (quote : Quote) {body : List UInt8} (quoted : Lexer.IsQuoted quote.byte body)
    (behind : List UInt8) :
    Lexer.lexeme quote.byte (body ++ quote.byte :: behind) = .ok ⟨.string, body.length + 1⟩ := by
  have ends := Lexer.stringTail_quoted (by cases quote <;> decide) (by cases quote <;> decide) quoted 0
    behind
  rw [Nat.zero_add] at ends
  refine Lexer.lexeme_eq_ok.mpr (.string ?_ ?_ ?_ ends)
  · cases quote <;> rfl
  · cases quote <;> rfl
  · cases quote with
    | single => exact .inr rfl
    | double => exact .inl rfl

/-- A quote starts a token. -/
theorem startsToken_quote (quote : Quote) (tail : List UInt8) :
    Lexer.StartsToken (quote.byte :: tail) := by
  refine ⟨by cases quote <;> rfl, fun isSlash => ?_⟩
  cases quote <;> exact absurd isSlash (by decide)

/-- A text without NUL, written between quotes, is read as one token up to the closing quote,
whatever stands behind it, and this token stands for the text. -/
theorem written_reads (quote : Quote) {text : String} (clean : Char.ofNat 0 ∉ text.toList)
    (position : Position) (behind : List UInt8) :
    let literal := Utf8.encode (written quote text)
    let stop := position.along literal.length
    Lexer.tokensFrom [] position (literal ++ behind) =
        .token ⟨.string, literal, ⟨position, stop⟩⟩ (Lexer.tokensFrom [] stop behind) ∧
      string ⟨.string, literal, ⟨position, stop⟩⟩ = .ok text := by
  intro literal stop
  obtain ⟨quoted, spells⟩ := @writtenBody_reads quote _ clean
  have bytes : literal = quote.byte :: (writtenBody quote text.toList ++ [quote.byte]) :=
    encode_written quote text
  constructor
  · have whole : literal ++ behind =
        quote.byte :: (writtenBody quote text.toList ++ quote.byte :: behind) := by
      simp [bytes]
    have cut : (writtenBody quote text.toList ++ quote.byte :: behind).take
        ((writtenBody quote text.toList).length + 1) =
        writtenBody quote text.toList ++ [quote.byte] := by
      rw [List.take_length_add_append]
      rfl
    have left : (writtenBody quote text.toList ++ quote.byte :: behind).drop
        ((writtenBody quote text.toList).length + 1) = behind := by
      rw [List.drop_length_add_append]
      rfl
    have width : (writtenBody quote text.toList).length + 1 + 1 = literal.length := by
      simp [bytes]
    rw [whole, Lexer.tokensFrom_token
      (Lexer.skipBlanks_of_startsToken (startsToken_quote quote _) position)
      (lexeme_quoted quote quoted behind), cut, left, width, ← bytes]
  · refine ((string_reads _).1 text).mpr ?_
    rw [bytes, body, List.tail_cons, List.dropLast_concat]
    exact spells

theorem written_reads_quotes :
    Char.ofNat 0 ∉ "é\\\"\n".toList ∧
      Lexer.tokensFrom [] ⟨1, 0⟩ (Utf8.encode (written .double "é\\\"\n") ++ [doubleQuote]) =
        .token ⟨.string, Utf8.encode (written .double "é\\\"\n"), ⟨⟨1, 0⟩, ⟨1, 10⟩⟩⟩
          (Lexer.tokensFrom [] ⟨1, 10⟩ [doubleQuote]) ∧
      string ⟨.string, Utf8.encode (written .double "é\\\"\n"), ⟨⟨1, 0⟩, ⟨1, 10⟩⟩⟩ =
        .ok "é\\\"\n" :=
  ⟨by decide, written_reads .double (by decide) ⟨1, 0⟩ [doubleQuote]⟩

end PocketScript.Literal
