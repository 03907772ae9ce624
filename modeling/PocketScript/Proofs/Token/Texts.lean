import PocketScript.Proofs.Image.RoundTrip
import PocketScript.Proofs.Token.Literals

/-!
# The texts of tokens

Names and numbers consist of ASCII bytes, and what a string token stands for has lost every NUL, or
is an objection. So any text that a tree takes from a token can stand in an image
(`TokenStream.sound_ofBytes`), whatever bytes the program text has.
-/

namespace PocketScript

/-- A text of at most so many bytes, none of which is zero. -/
structure Storable (limit : Nat) (text : String) : Prop where
  clean : 0 ∉ Utf8.encode text
  short : (Utf8.encode text).length ≤ limit

namespace Ascii

/-- A byte of an ASCII character other than NUL. -/
def IsPlain (byte : UInt8) : Prop := 0 < byte.toNat ∧ byte.toNat < 0x80

instance (byte : UInt8) : Decidable (IsPlain byte) := inferInstanceAs (Decidable (_ ∧ _))

theorem IsVisible.plain {byte : UInt8} (visible : IsVisible byte) : IsPlain byte := by
  unfold IsVisible at visible
  unfold IsPlain
  omega

/-- A plain byte is the text of its character. -/
theorem encode_char {byte : UInt8} (plain : IsPlain byte) :
    String.utf8EncodeChar (Char.ofUInt8 byte) = [byte] := by
  have value : (Char.ofUInt8 byte).val.toNat = byte.toNat := rfl
  rw [String.utf8EncodeChar.eq_1, value, if_pos (by have := plain.2; omega)]
  simp

theorem encode_text {bytes : List UInt8} (plain : ∀ byte ∈ bytes, IsPlain byte) :
    Utf8.encode (text bytes) = bytes := by
  rw [Utf8.encode, text, String.toList_ofList, List.flatMap_map]
  induction bytes with
  | nil => rfl
  | cons byte rest ih =>
      rw [List.flatMap_cons, encode_char (plain byte List.mem_cons_self),
        ih fun other member => plain other (List.mem_cons_of_mem _ member)]
      rfl

theorem storable_text {limit : Nat} {bytes : List UInt8} (plain : ∀ byte ∈ bytes, IsPlain byte)
    (short : bytes.length ≤ limit) : Storable limit (text bytes) := by
  rw [← encode_text plain] at short
  refine ⟨fun zero => ?_, short⟩
  rw [encode_text plain] at zero
  exact absurd (plain 0 zero).1 (by decide)

end Ascii

/-! ## Tokens -/

/-- The token is no longer than a text, and as a name or a number it consists of plain bytes. -/
structure Token.Sound (limit : Nat) (token : Token) : Prop where
  short : token.text.length ≤ limit
  plain : token.kind = .ident ∨ token.kind = .number → ∀ byte ∈ token.text, Ascii.IsPlain byte

/-- The name of a name token, and a number as it is written, can be stored. -/
theorem Token.Sound.name {limit : Nat} {token : Token} (sound : token.Sound limit)
    (word : token.kind = .ident ∨ token.kind = .number) : Storable limit token.name :=
  Ascii.storable_text (sound.plain word) sound.short

namespace TokenStream

/-- All tokens that a reader of the stream can get to are sound. -/
def Sound (limit : Nat) : TokenStream → Prop
  | token head rest => head.Sound limit ∧ rest.Sound limit
  | ended _ => True
  | flawed _ _ => True

theorem sound_ended (limit : Nat) (position : Position) : (ended position).Sound limit := trivial

theorem sound_flawed (limit : Nat) (error : CompileError) (beyond : TokenStream) :
    (flawed error beyond).Sound limit := trivial

theorem Sound.precededBy {limit : Nat} {rest : TokenStream} (sound : rest.Sound limit)
    {found : List (Except CompileError Token)}
    (before : ∀ token, .ok token ∈ found → token.Sound limit) :
    (rest.precededBy found).Sound limit := by
  induction found generalizing rest with
  | nil => exact sound
  | cons piece more ih =>
      have others : ∀ token, .ok token ∈ more → token.Sound limit :=
        fun token member => before token (List.mem_cons_of_mem _ member)
      cases piece with
      | ok token =>
          have longer : (TokenStream.token token rest).Sound limit :=
            ⟨before token List.mem_cons_self, sound⟩
          exact ih longer others
      | error error => exact ih (sound_flawed limit error rest) others

theorem sound_tokensFrom {limit : Nat} {found : List (Except CompileError Token)}
    {position : Position} {bytes : List UInt8} (short : bytes.length ≤ limit)
    (before : ∀ token, .ok token ∈ found → token.Sound limit) :
    (Lexer.tokensFrom found position bytes).Sound limit := by
  fun_induction Lexer.tokensFrom found position bytes with
  | case1 => exact (sound_flawed limit _ _).precededBy before
  | case2 => exact (sound_ended limit _).precededBy before
  | case3 => exact (sound_flawed limit _ _).precededBy before
  | case4 found position bytes start first tail skipped complaint distance error more flawed ih =>
      have shorter := Lexer.skipBlanks_length skipped
      simp only [List.length_cons] at shorter
      refine ih (by simp only [List.length_drop]; omega) fun token member => ?_
      rcases List.mem_cons.mp member with impossible | member
      · cases impossible
      · exact before token member
  | case5 found position bytes start first tail skipped kind more read stop token ih =>
      have shorter := Lexer.skipBlanks_length skipped
      simp only [List.length_cons] at shorter
      refine ih (by simp only [List.length_drop]; omega) fun other member => ?_
      rcases List.mem_cons.mp member with same | member
      · cases same
        refine ⟨?_, fun word byte member => (Lexer.visible_lexeme read word byte member).plain⟩
        simp only [token, List.length_cons, List.length_take]
        omega
      · exact before other member

/-- Whatever bytes a program text has, its tokens are sound. -/
theorem sound_ofBytes (bytes : List UInt8) : (ofBytes bytes).Sound bytes.length :=
  sound_tokensFrom (Nat.le_refl _) fun _ member => absurd member List.not_mem_nil

end TokenStream

/-! ## String literals -/

namespace Literal

/-- The text of a string token can be stored. -/
theorem storable_string {limit : Nat} {token : Token} {text : String}
    (short : token.text.length ≤ limit) (found : string token = .ok text) : Storable limit text := by
  obtain ⟨clean, length⟩ := (((string_reads token).1 text).mp found).clean
  refine ⟨clean, Nat.le_trans length ?_⟩
  simp only [body, List.length_dropLast, List.length_tail]
  omega

end Literal

end PocketScript
