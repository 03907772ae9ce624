/-!
# Text as bytes

A text is stored and exchanged as its UTF-8 bytes. `Utf8.front` looks at the character that starts
a byte sequence; reading a whole sequence, replacing its damaged parts and naming the first damage
are all folds of that one look, so the three always agree on where a character ends.
-/

namespace PocketScript.Utf8

/-- The UTF-8 bytes of a text. -/
def encode (text : String) : List UInt8 :=
  text.toList.flatMap String.utf8EncodeChar

/-- What a byte sequence starts with. -/
inductive Front where
  /-- A whole character, and the bytes after it. -/
  | char (c : Char) (rest : List UInt8)
  /-- `width` bytes that begin a character and cannot be completed by the byte that follows. -/
  | damaged (width : Nat) (rest : List UInt8)
  /-- The sequence ends inside a character, or is empty. -/
  | cutShort
  deriving Repr, DecidableEq

/-- What a leading byte promises: the continuation bytes still owed, the range of the first of
them, and the bits the leading byte contributes. -/
structure Lead where
  owed : Nat
  low : UInt8
  high : UInt8
  bits : Nat
  deriving Repr, DecidableEq

/-- The promise of a leading byte; none for a byte that starts no character. The narrowed ranges
exclude overlong forms, surrogates and values above U+10FFFF. -/
def Lead.ofByte (byte : UInt8) : Option Lead :=
  if byte < 0x80 then some ⟨0, 0x80, 0xBF, byte.toNat⟩
  else if byte < 0xC2 then none
  else if byte < 0xE0 then some ⟨1, 0x80, 0xBF, byte.toNat - 0xC0⟩
  else if byte = 0xE0 then some ⟨2, 0xA0, 0xBF, 0⟩
  else if byte = 0xED then some ⟨2, 0x80, 0x9F, 0xD⟩
  else if byte < 0xF0 then some ⟨2, 0x80, 0xBF, byte.toNat - 0xE0⟩
  else if byte = 0xF0 then some ⟨3, 0x90, 0xBF, 0⟩
  else if byte < 0xF4 then some ⟨3, 0x80, 0xBF, byte.toNat - 0xF0⟩
  else if byte = 0xF4 then some ⟨3, 0x80, 0x8F, 4⟩
  else none

/-- Collects the owed continuation bytes; `width` counts the bytes taken so far. -/
def followers (owed : Nat) (low high : UInt8) (value width : Nat) (bytes : List UInt8) : Front :=
  match owed, bytes with
  | 0, rest => .char (Char.ofNat value) rest
  | _ + 1, [] => .cutShort
  | owed + 1, byte :: rest =>
      if low ≤ byte ∧ byte ≤ high then
        followers owed 0x80 0xBF (value * 64 + (byte.toNat - 0x80)) (width + 1) rest
      else .damaged width (byte :: rest)

/-- The character, or the damage, at the start of a byte sequence. -/
def front : List UInt8 → Front
  | [] => .cutShort
  | byte :: rest =>
      match Lead.ofByte byte with
      | none => .damaged 1 rest
      | some lead => followers lead.owed lead.low lead.high lead.bits 1 rest

theorem followers_char_length {owed : Nat} {low high : UInt8} {value width : Nat}
    {bytes rest : List UInt8} {c : Char}
    (found : followers owed low high value width bytes = .char c rest) :
    rest.length ≤ bytes.length := by
  fun_induction followers owed low high value width bytes with
  | case1 => simp_all
  | case2 => simp at found
  | case3 _ _ _ _ _ _ _ _ ih => exact Nat.le_succ_of_le (ih found)
  | case4 => simp at found

theorem followers_damaged_length {owed : Nat} {low high : UInt8} {value width : Nat}
    {bytes rest : List UInt8} {size : Nat}
    (found : followers owed low high value width bytes = .damaged size rest) :
    rest.length ≤ bytes.length := by
  fun_induction followers owed low high value width bytes with
  | case1 => simp at found
  | case2 => simp at found
  | case3 _ _ _ _ _ _ _ _ ih => exact Nat.le_succ_of_le (ih found)
  | case4 => simp_all

/-- A character leaves fewer bytes behind it. -/
theorem front_char_length {bytes rest : List UInt8} {c : Char}
    (found : front bytes = .char c rest) : rest.length < bytes.length := by
  cases bytes with
  | nil => simp [front] at found
  | cons byte tail =>
      simp only [front] at found
      split at found
      · simp at found
      · exact Nat.lt_succ_of_le (followers_char_length found)

/-- Damage leaves fewer bytes behind it. -/
theorem front_damaged_length {bytes rest : List UInt8} {width : Nat}
    (found : front bytes = .damaged width rest) : rest.length < bytes.length := by
  cases bytes with
  | nil => simp [front] at found
  | cons byte tail =>
      simp only [front] at found
      split at found
      · simp only [Front.damaged.injEq] at found
        simp [found.2]
      · exact Nat.lt_succ_of_le (followers_damaged_length found)

/-- The first damage of a byte sequence that is no text. -/
structure Damage where
  /-- Bytes of whole characters in front of the damage. -/
  index : Nat
  /-- Bytes that cannot be part of a character; none when the sequence merely ends too early. -/
  width : Option Nat
  deriving Repr, DecidableEq

/-- The damage in words. -/
def Damage.message (damage : Damage) : String :=
  match damage.width with
  | some width =>
      s!"invalid utf-8 sequence of {toString width} bytes from index {toString damage.index}"
  | none => s!"incomplete utf-8 byte sequence from index {toString damage.index}"

/-- Reads characters until the bytes end or are damaged; `read` holds the characters so far, last
first, and `index` the bytes they took. -/
def decodeAfter (read : List Char) (index : Nat) (bytes : List UInt8) : Except Damage (List Char) :=
  match found : front bytes with
  | .cutShort => if bytes.isEmpty then .ok read.reverse else .error ⟨index, none⟩
  | .damaged width _ => .error ⟨index, some width⟩
  | .char c rest =>
      have := front_char_length found
      decodeAfter (c :: read) (index + c.utf8Size) rest
termination_by bytes.length

/-- Reads a byte sequence as text, or finds the first damage in it. -/
def decode (bytes : List UInt8) : Except Damage String :=
  (decodeAfter [] 0 bytes).map String.ofList

/-- Reads characters and puts U+FFFD for every damaged part; `read` is what was read so far, last
first. -/
def decodeLossyAfter (read : List Char) (bytes : List UInt8) : List Char :=
  match found : front bytes with
  | .cutShort => if bytes.isEmpty then read.reverse else ('\uFFFD' :: read).reverse
  | .damaged _ rest =>
      have := front_damaged_length found
      decodeLossyAfter ('\uFFFD' :: read) rest
  | .char c rest =>
      have := front_char_length found
      decodeLossyAfter (c :: read) rest
termination_by bytes.length

/-- Reads a byte sequence as text, each maximal damaged part becoming one U+FFFD. -/
def decodeLossy (bytes : List UInt8) : String :=
  String.ofList (decodeLossyAfter [] bytes)

/-- The text of a byte sequence, when it is one. -/
def decode? (bytes : List UInt8) : Option String :=
  (decode bytes).toOption

end PocketScript.Utf8
