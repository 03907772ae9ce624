import PocketScript.Token.Lexer

/-!
# What a token takes

A token is found in its own bytes alone: cut off behind its last byte, a text still starts with the
same token (`Lexer.lexeme_take`), so the byte that made the lexer stop is no part of what it found.
No token holds a newline.
-/

namespace PocketScript

namespace Ascii

/-- A byte of an ASCII character that shows: no blank and no control character. -/
def IsVisible (byte : UInt8) : Prop := 0x20 < byte.toNat ∧ byte.toNat < 0x7F

instance (byte : UInt8) : Decidable (IsVisible byte) := inferInstanceAs (Decidable (_ ∧ _))

/-- A visible byte is no newline. -/
theorem IsVisible.ne_newline {byte : UInt8} (visible : IsVisible byte) : byte ≠ newline := by
  rintro rfl
  exact absurd visible (by decide)

/-- The bytes of names are visible. -/
theorem isVisible_of_continuesName {byte : UInt8} (continues : continuesName byte = true) :
    IsVisible byte := by
  simp only [continuesName, startsName, isLetter, isDigit, Bool.or_eq_true, Bool.and_eq_true,
    decide_eq_true_eq, UInt8.le_iff_toNat_le, ← UInt8.toNat_inj] at continues
  unfold IsVisible
  simp only [UInt8.toNat_ofNat] at continues
  omega

/-- Hexadecimal digits are visible. -/
theorem isVisible_of_isHexDigit {byte : UInt8} (digit : isHexDigit byte = true) :
    IsVisible byte := by
  simp only [isHexDigit, isDigit, Bool.or_eq_true, Bool.and_eq_true,
    decide_eq_true_eq, UInt8.le_iff_toNat_le] at digit
  unfold IsVisible
  simp only [UInt8.toNat_ofNat] at digit
  omega

/-- Digits are visible. -/
theorem isVisible_of_isDigit {byte : UInt8} (digit : isDigit byte = true) : IsVisible byte :=
  isVisible_of_continuesName (by rw [continuesName, digit, Bool.or_true])

end Ascii

namespace Lexer

open Ascii

/-! ## Runs of bytes of one class -/

section Runs

variable (isMember : UInt8 → Bool) (bytes : List UInt8)

theorem countWhile_le : countWhile isMember bytes ≤ bytes.length :=
  (List.takeWhile_prefix isMember).length_le

/-- The bytes at the front of a text that are in a class. -/
theorem take_countWhile :
    ∀ byte ∈ bytes.take (countWhile isMember bytes), isMember byte = true := by
  have front : bytes.take (countWhile isMember bytes) = bytes.takeWhile isMember :=
    (List.prefix_iff_eq_take.mp (List.takeWhile_prefix isMember)).symm
  rw [front]
  exact fun byte member => List.all_eq_true.mp List.all_takeWhile byte member

/-- A run ends where the text does. -/
theorem countWhile_take (width : Nat) :
    countWhile isMember (bytes.take width) = min width (countWhile isMember bytes) := by
  induction bytes generalizing width with
  | nil => simp [countWhile]
  | cons byte rest ih =>
      cases width with
      | zero => simp [countWhile]
      | succ width =>
          have shorter := ih width
          unfold countWhile at shorter ⊢
          rw [List.take_succ_cons, List.takeWhile_cons, List.takeWhile_cons]
          split
          · simp only [List.length_cons, shorter]
            omega
          · simp

end Runs

/-! ## Numbers -/

/-- Two visible parts make a visible whole. -/
theorem visible_append {bytes : List UInt8} {first second : Nat}
    (one : ∀ byte ∈ bytes.take first, IsVisible byte)
    (two : ∀ byte ∈ (bytes.drop first).take second, IsVisible byte) :
    ∀ byte ∈ bytes.take (first + second), IsVisible byte := by
  rw [List.take_add]
  intro byte member
  rcases List.mem_append.mp member with here | there
  · exact one byte here
  · exact two byte there

/-- A run of digits is visible. -/
theorem visible_digits (bytes : List UInt8) :
    ∀ byte ∈ bytes.take (countWhile isDigit bytes), IsVisible byte :=
  fun byte member => isVisible_of_isDigit (take_countWhile _ _ byte member)

/-- And so is a fraction with its point. -/
theorem visible_fraction (bytes : List UInt8) :
    ∀ byte ∈ bytes.take (fractionWidth bytes), IsVisible byte := by
  unfold fractionWidth
  split
  · dsimp only
    split
    · simp
    · rw [Nat.add_comm, List.take_succ_cons]
      intro byte member
      rcases List.mem_cons.mp member with rfl | digit
      · exact by decide
      · exact visible_digits _ byte digit
  · simp

/-- It is no longer than the text. -/
theorem fractionWidth_le (bytes : List UInt8) : fractionWidth bytes ≤ bytes.length := by
  unfold fractionWidth
  split
  · have short := countWhile_le isDigit ‹List UInt8›
    dsimp only
    split
    · exact Nat.zero_le _
    · rw [List.length_cons]
      omega
  · exact Nat.zero_le _

/-- A fraction is one without the bytes behind it. -/
theorem fractionWidth_take {bytes : List UInt8} {width : Nat} (enough : fractionWidth bytes ≤ width) :
    fractionWidth (bytes.take width) = fractionWidth bytes := by
  cases width with
  | zero => rw [List.take_zero, Nat.le_zero.mp enough]; rfl
  | succ width =>
      cases bytes with
      | nil => rfl
      | cons mark rest =>
          rw [List.take_succ_cons]
          by_cases isPoint : mark = point
          · subst isPoint
            have cut := countWhile_take isDigit rest width
            simp only [fractionWidth] at enough ⊢
            split at enough
            · simp only [cut, ‹countWhile isDigit rest = 0›, Nat.min_zero, if_true]
            · rw [cut, Nat.min_eq_right (by omega)]
          · have other : mark ≠ 0x2E := isPoint
            simp [fractionWidth, other]

/-- The bytes of a sign: one, or none where no sign stands. -/
def signWidth : List UInt8 → Nat
  | byte :: _ => if byte = plus ∨ byte = minus then 1 else 0
  | [] => 0

/-- A sign is visible. -/
theorem visible_sign (bytes : List UInt8) : ∀ byte ∈ bytes.take (signWidth bytes), IsVisible byte := by
  intro byte member
  cases bytes with
  | nil => simp at member
  | cons next rest =>
      rw [signWidth] at member
      split at member
      · rename_i isSign
        obtain rfl : byte = next := by simpa using member
        rcases isSign with rfl | rfl <;> decide
      · cases member

theorem signWidth_take {bytes : List UInt8} {width : Nat} (some : 0 < width) :
    signWidth (bytes.take width) = signWidth bytes := by
  obtain ⟨more, rfl⟩ := Nat.exists_eq_add_of_lt some
  cases bytes with
  | nil => rfl
  | cons next rest => rw [Nat.zero_add, List.take_succ_cons, signWidth, signWidth]

/-- Behind the mark of an exponent stand a sign, or none, and digits. -/
theorem exponentWidth_mark {mark : UInt8} (exponent : mark = 0x65 ∨ mark = 0x45)
    (rest : List UInt8) :
    exponentWidth (mark :: rest) =
      if countWhile isDigit (rest.drop (signWidth rest)) = 0 then .error .malformedExponent
      else .ok (1 + signWidth rest + countWhile isDigit (rest.drop (signWidth rest))) := by
  rw [exponentWidth.eq_def]
  simp only
  rw [if_pos exponent]
  rfl

/-- Only an E starts an exponent. -/
theorem exponentWidth_other {mark : UInt8} (other : ¬ (mark = 0x65 ∨ mark = 0x45))
    (rest : List UInt8) : exponentWidth (mark :: rest) = .ok 0 := by
  rw [exponentWidth.eq_def]
  simp only
  rw [if_neg other]

/-- An exponent is visible. -/
theorem visible_exponent {bytes : List UInt8} {width : Nat}
    (found : exponentWidth bytes = .ok width) : ∀ byte ∈ bytes.take width, IsVisible byte := by
  cases bytes with
  | nil => simp
  | cons mark rest =>
      by_cases exponent : mark = 0x65 ∨ mark = 0x45
      · rw [exponentWidth_mark exponent] at found
        split at found
        · cases found
        · cases found
          rw [Nat.add_assoc, Nat.add_comm 1, List.take_succ_cons]
          intro byte member
          rcases List.mem_cons.mp member with rfl | member
          · rcases exponent with rfl | rfl <;> decide
          · exact visible_append (visible_sign rest) (visible_digits _) byte member
      · rw [exponentWidth_other exponent] at found
        cases found
        simp

/-- An exponent is one without the bytes behind it. -/
theorem exponentWidth_take {bytes : List UInt8} {width : Nat}
    (found : exponentWidth bytes = .ok width) :
    width ≤ bytes.length ∧ exponentWidth (bytes.take width) = .ok width := by
  cases bytes with
  | nil =>
      cases found
      exact ⟨Nat.le_refl _, rfl⟩
  | cons mark rest =>
      by_cases exponent : mark = 0x65 ∨ mark = 0x45
      · rw [exponentWidth_mark exponent] at found
        split at found
        · cases found
        · rename_i some
          have short := countWhile_le isDigit (rest.drop (signWidth rest))
          rw [List.length_drop] at short
          cases found
          refine ⟨by rw [List.length_cons]; omega, ?_⟩
          rw [Nat.add_assoc, Nat.add_comm 1, List.take_succ_cons, exponentWidth_mark exponent,
            signWidth_take (by omega), List.drop_take, Nat.add_sub_cancel_left, countWhile_take,
            Nat.min_self, if_neg some]
          congr 1
          omega
      · rw [exponentWidth_other exponent] at found
        cases found
        exact ⟨Nat.zero_le _, rfl⟩

/-- A hexadecimal number: its first digit is a zero, and a mark follows. -/
def IsHexadecimal (first : UInt8) (tail : List UInt8) : Prop :=
  first = zero ∧ (tail.head? = some 0x78 ∨ tail.head? = some 0x58)

theorem numberTail_hexadecimal {first mark : UInt8} {digits : List UInt8}
    (hexadecimal : IsHexadecimal first (mark :: digits)) :
    numberTail first (mark :: digits) =
      if countWhile isHexDigit digits = 0 then .error ⟨.hexWithoutDigits, 0, 2⟩
      else .ok (1 + countWhile isHexDigit digits) := by
  rw [numberTail]
  exact if_pos hexadecimal

/-- The digits in front of an exponent, with their fraction. -/
def mantissaWidth (tail : List UInt8) : Nat :=
  countWhile isDigit tail + fractionWidth (tail.drop (countWhile isDigit tail))

theorem mantissaWidth_le (tail : List UInt8) : mantissaWidth tail ≤ tail.length := by
  have whole := countWhile_le isDigit tail
  have fraction := fractionWidth_le (tail.drop (countWhile isDigit tail))
  rw [List.length_drop] at fraction
  unfold mantissaWidth
  omega

theorem visible_mantissa (tail : List UInt8) :
    ∀ byte ∈ tail.take (mantissaWidth tail), IsVisible byte :=
  visible_append (visible_digits tail) (visible_fraction _)

theorem mantissaWidth_take {tail : List UInt8} {width : Nat} (enough : mantissaWidth tail ≤ width) :
    mantissaWidth (tail.take width) = mantissaWidth tail := by
  unfold mantissaWidth at enough ⊢
  have whole : countWhile isDigit (tail.take width) = countWhile isDigit tail := by
    rw [countWhile_take]
    omega
  rw [whole, List.drop_take, fractionWidth_take (by omega)]

theorem numberTail_decimal {first : UInt8} {tail : List UInt8} {more : Nat}
    (decimal : ¬ IsHexadecimal first tail) :
    numberTail first tail = .ok more ↔
      ∃ exponent, exponentWidth (tail.drop (mantissaWidth tail)) = .ok exponent ∧
        more = mantissaWidth tail + exponent := by
  have branch : ¬ (first = zero ∧ (tail.head? = some 0x78 ∨ tail.head? = some 0x58)) := decimal
  rw [numberTail, mantissaWidth]
  dsimp only
  rw [if_neg branch]
  cases exponentWidth
    (tail.drop (countWhile isDigit tail + fractionWidth (tail.drop (countWhile isDigit tail)))) with
  | error complaint => simp
  | ok exponent => simp [eq_comm]

theorem visible_numberTail {first : UInt8} {tail : List UInt8} {more : Nat}
    (found : numberTail first tail = .ok more) : ∀ byte ∈ tail.take more, IsVisible byte := by
  by_cases hexadecimal : IsHexadecimal first tail
  · cases tail with
    | nil => simp
    | cons mark digits =>
        rw [numberTail_hexadecimal hexadecimal] at found
        split at found
        · cases found
        · cases found
          rw [Nat.add_comm, List.take_succ_cons]
          intro byte member
          rcases List.mem_cons.mp member with rfl | member
          · rcases hexadecimal.2 with same | same <;> cases same <;> decide
          · exact isVisible_of_isHexDigit (take_countWhile _ _ byte member)
  · obtain ⟨exponent, width, rfl⟩ := (numberTail_decimal hexadecimal).mp found
    exact visible_append (visible_mantissa tail) (visible_exponent width)

/-- A number is one without the bytes behind it. -/
theorem numberTail_take {first : UInt8} {tail : List UInt8} {more : Nat}
    (found : numberTail first tail = .ok more) :
    more ≤ tail.length ∧ numberTail first (tail.take more) = .ok more := by
  by_cases hexadecimal : IsHexadecimal first tail
  · cases tail with
    | nil => exact absurd hexadecimal.2 (by simp)
    | cons mark digits =>
        rw [numberTail_hexadecimal hexadecimal] at found
        split at found
        · cases found
        · rename_i some
          have short := countWhile_le isHexDigit digits
          cases found
          have cut : IsHexadecimal first (mark :: digits.take (countWhile isHexDigit digits)) :=
            hexadecimal
          refine ⟨by rw [List.length_cons]; omega, ?_⟩
          rw [Nat.add_comm, List.take_succ_cons, numberTail_hexadecimal cut, countWhile_take,
            Nat.min_self, if_neg some, Nat.add_comm]
  · obtain ⟨exponent, width, rfl⟩ := (numberTail_decimal hexadecimal).mp found
    obtain ⟨short, alone⟩ := exponentWidth_take width
    have mantissa := mantissaWidth_le tail
    rw [List.length_drop] at short
    have cut : ¬ IsHexadecimal first (tail.take (mantissaWidth tail + exponent)) := by
      rintro ⟨isZero, mark⟩
      rw [List.head?_take] at mark
      split at mark
      · simp at mark
      · exact hexadecimal ⟨isZero, mark⟩
    refine ⟨by omega, (numberTail_decimal cut).mpr ⟨exponent, ?_, ?_⟩⟩
    · rw [mantissaWidth_take (Nat.le_add_right _ _), List.drop_take, Nat.add_sub_cancel_left, alone]
    · rw [mantissaWidth_take (Nat.le_add_right _ _)]

/-- A number is found where nothing that continues a name stands behind it. -/
theorem number_eq_ok {first : UInt8} {tail : List UInt8} {found : Lexeme} :
    number first tail = .ok found ↔
      found.kind = .number ∧ numberTail first tail = .ok found.more ∧
        ∀ next ∈ (tail.drop found.more).head?, continuesName next = false := by
  obtain ⟨kind, width⟩ := found
  unfold number
  cases numberTail first tail with
  | error flaw => simp [bind, Except.bind]
  | ok more =>
      simp only [bind, Except.bind, Except.ok.injEq]
      cases behind : tail.drop more with
      | nil =>
          simp only [Except.ok.injEq, Lexeme.mk.injEq]
          constructor
          · rintro ⟨rfl, rfl⟩
            simp [behind]
          · rintro ⟨rfl, rfl, -⟩
            exact ⟨rfl, rfl⟩
      | cons next rest =>
          simp only
          cases continues : continuesName next with
          | true =>
              simp only [if_true, reduceCtorEq, false_iff]
              rintro ⟨-, rfl, none⟩
              rw [none next (by rw [behind]; rfl)] at continues
              cases continues
          | false =>
              simp only [Bool.false_eq_true, if_false, Except.ok.injEq, Lexeme.mk.injEq]
              constructor
              · rintro ⟨rfl, rfl⟩
                simp [behind, continues]
              · rintro ⟨rfl, rfl, -⟩
                exact ⟨rfl, rfl⟩

/-- A number is found in its own bytes. -/
theorem number_take {first : UInt8} {tail : List UInt8} {found : Lexeme}
    (read : number first tail = .ok found) :
    found.more ≤ tail.length ∧ number first (tail.take found.more) = .ok found := by
  obtain ⟨kind, width, -⟩ := number_eq_ok.mp read
  obtain ⟨short, alone⟩ := numberTail_take width
  refine ⟨short, number_eq_ok.mpr ⟨kind, alone, ?_⟩⟩
  simp

/-! ## Strings -/

/-- What may stand between the quotes of a string: neither a newline nor, but for those that a
backslash takes with it, the quote. -/
inductive IsQuoted (quote : UInt8) : List UInt8 → Prop
  | nil : IsQuoted quote []
  | escape {escaped : UInt8} {rest : List UInt8} (notNewline : escaped ≠ newline) :
      IsQuoted quote rest → IsQuoted quote (backslash :: escaped :: rest)
  | raw {byte : UInt8} {rest : List UInt8} (notNewline : byte ≠ newline) (notQuote : byte ≠ quote)
      (notBackslash : byte ≠ backslash) : IsQuoted quote rest → IsQuoted quote (byte :: rest)

/-- A string ends before its line does. -/
theorem IsQuoted.newline_not_mem {quote : UInt8} {body : List UInt8} (quoted : IsQuoted quote body) :
    newline ∉ body := by
  induction quoted with
  | nil => simp
  | escape notNewline _ ih =>
      have : newline ≠ backslash := by decide
      simpa [ih, this] using notNewline.symm
  | raw notNewline _ _ _ ih => simpa [ih] using notNewline.symm

theorem stringTail_raw {quote byte : UInt8} (notBackslash : byte ≠ backslash) (passed : Nat)
    (rest : List UInt8) :
    stringTail quote passed (byte :: rest) =
      if byte = newline then none
      else if byte = quote then some (passed + 1)
      else stringTail quote (passed + 1) rest :=
  stringTail.eq_4 _ _ _ _ (fun same => absurd same notBackslash)
    fun _ _ same => absurd same notBackslash

/-- A string ends at the first quote that no backslash takes with it. -/
theorem stringTail_quoted {quote : UInt8} (notBackslash : quote ≠ backslash)
    (notNewline : quote ≠ newline) {body : List UInt8} (quoted : IsQuoted quote body) (passed : Nat)
    (rest : List UInt8) :
    stringTail quote passed (body ++ quote :: rest) = some (passed + body.length + 1) := by
  induction quoted generalizing passed with
  | nil =>
      rw [List.nil_append, stringTail_raw notBackslash, if_neg notNewline, if_pos rfl]
      rfl
  | escape notNewline _ ih =>
      simp only [List.cons_append, stringTail, if_neg notNewline, ih, List.length_cons,
        Option.some.injEq]
      omega
  | raw notNewline notQuote notBackslash _ ih =>
      rw [List.cons_append, stringTail_raw notBackslash, if_neg notNewline, if_neg notQuote, ih,
        List.length_cons]
      congr 1
      omega

/-- Where a string is found, its closing quote is. -/
theorem exists_quoted {quote : UInt8} {passed more : Nat} {bytes : List UInt8}
    (found : stringTail quote passed bytes = some more) :
    ∃ body rest, bytes = body ++ quote :: rest ∧ IsQuoted quote body ∧
      more = passed + body.length + 1 := by
  fun_induction stringTail quote passed bytes with
  | case1 | case2 | case3 | case5 => cases found
  | case4 passed escaped rest notNewline ih =>
      obtain ⟨body, behind, rfl, quoted, rfl⟩ := ih found
      refine ⟨backslash :: escaped :: body, behind, rfl, .escape notNewline quoted, ?_⟩
      simp only [List.length_cons]
      omega
  | case6 passed rest =>
      cases found
      exact ⟨[], rest, rfl, .nil, rfl⟩
  | case7 passed byte rest alone followed notNewline notQuote ih =>
      have notBackslash : byte ≠ backslash := by
        rintro rfl
        cases rest with
        | nil => exact alone rfl rfl
        | cons escaped rest => exact followed escaped rest rfl rfl
      obtain ⟨body, behind, rfl, quoted, rfl⟩ := ih found
      refine ⟨byte :: body, behind, rfl, .raw notNewline notQuote notBackslash quoted, ?_⟩
      simp only [List.length_cons]
      omega

/-- A string is one without the bytes behind it. -/
theorem stringTail_take {quote : UInt8} {tail : List UInt8} {more : Nat}
    (isQuote : quote = doubleQuote ∨ quote = singleQuote)
    (ends : stringTail quote 0 tail = some more) :
    more ≤ tail.length ∧ stringTail quote 0 (tail.take more) = some more ∧
      newline ∉ quote :: tail.take more := by
  have notBackslash : quote ≠ backslash := by rcases isQuote with rfl | rfl <;> decide
  have notNewline : quote ≠ newline := by rcases isQuote with rfl | rfl <;> decide
  obtain ⟨body, rest, rfl, quoted, rfl⟩ := exists_quoted ends
  have cut : (body ++ quote :: rest).take (0 + body.length + 1) = body ++ [quote] := by
    rw [Nat.zero_add, List.take_length_add_append]
    rfl
  rw [cut]
  refine ⟨by simp, stringTail_quoted notBackslash notNewline quoted 0 [], ?_⟩
  simp [quoted.newline_not_mem, notNewline.symm]

/-! ## Punctuation -/

/-- A mark of two characters needs its second one; one of a single character does not need what
stands behind it. -/
theorem ofPunctuation?_cut {first : Char} {next : Option Char} {kind : TokenKind} {width : Nat}
    (found : TokenKind.ofPunctuation? first next = some (kind, width)) :
    first ≠ '\n' ∧ (width = 1 ∧ TokenKind.ofPunctuation? first none = some (kind, 1) ∨
      width = 2 ∧ ∃ second, next = some second ∧ second ≠ '\n') := by
  unfold TokenKind.ofPunctuation? at found
  split at found <;> cases found <;> first
    | exact ⟨by decide, .inl ⟨rfl, rfl⟩⟩
    | exact ⟨by decide, .inr ⟨rfl, _, rfl, by decide⟩⟩

/-- Punctuation is recognised by one or two bytes. -/
theorem punctuation_eq_ok {first : UInt8} {tail : List UInt8} {found : Lexeme} :
    punctuation first tail = .ok found ↔
      ∃ width, TokenKind.ofPunctuation? (Char.ofUInt8 first) (tail.head?.map Char.ofUInt8) =
        some (found.kind, width) ∧ found.more = width - 1 := by
  obtain ⟨kind, more⟩ := found
  unfold punctuation
  split
  · rename_i mark width here
    simp only [here, Except.ok.injEq, Lexeme.mk.injEq, Option.some.injEq, Prod.mk.injEq]
    constructor
    · rintro ⟨rfl, rfl⟩
      exact ⟨width, ⟨rfl, rfl⟩, rfl⟩
    · rintro ⟨_, ⟨rfl, rfl⟩, rfl⟩
      exact ⟨rfl, rfl⟩
  · rename_i none
    simp [none]

/-- A punctuation mark is neither a name nor a number. -/
theorem kind_punctuation {first : UInt8} {tail : List UInt8} {found : Lexeme}
    (read : punctuation first tail = .ok found) : found.kind ≠ .ident ∧ found.kind ≠ .number := by
  obtain ⟨width, mark, -⟩ := punctuation_eq_ok.mp read
  generalize found.kind = kind at mark
  unfold TokenKind.ofPunctuation? at mark
  split at mark <;> cases mark <;> exact ⟨TokenKind.noConfusion, TokenKind.noConfusion⟩

/-- So it is found in them. -/
theorem punctuation_take {first : UInt8} {tail : List UInt8} {found : Lexeme}
    (read : punctuation first tail = .ok found) :
    found.more ≤ tail.length ∧ punctuation first (tail.take found.more) = .ok found ∧
      newline ∉ first :: tail.take found.more := by
  obtain ⟨width, mark, more⟩ := punctuation_eq_ok.mp read
  obtain ⟨notNewline, ⟨rfl, alone⟩ | ⟨rfl, second, next, other⟩⟩ := ofPunctuation?_cut mark
  · have first_ne : newline ≠ first := by
      rintro rfl
      exact notNewline rfl
    rw [more]
    refine ⟨Nat.zero_le _, punctuation_eq_ok.mpr ⟨1, ?_, more⟩, by simpa using first_ne⟩
    rw [List.take_zero]
    exact alone
  · have first_ne : newline ≠ first := by
      rintro rfl
      exact notNewline rfl
    cases tail with
    | nil => cases next
    | cons byte rest =>
        have second_ne : newline ≠ byte := by
          rintro rfl
          cases next
          exact other rfl
        rw [more]
        exact ⟨by simp, punctuation_eq_ok.mpr ⟨2, mark, more⟩, by simp [first_ne, second_ne]⟩

/-! ## Tokens -/

/-- The four sorts of tokens. -/
inductive Starts (first : UInt8) (tail : List UInt8) : Lexeme → Prop
  | word (starts : startsName first = true) :
      Starts first tail ⟨.ofWord (Ascii.text (first :: tail.take (countWhile continuesName tail))),
        countWhile continuesName tail⟩
  | number {found : Lexeme} (other : startsName first = false) (digit : isDigit first = true)
      (read : Lexer.number first tail = .ok found) : Starts first tail found
  | string {more : Nat} (other : startsName first = false) (noDigit : isDigit first = false)
      (quote : first = doubleQuote ∨ first = singleQuote)
      (ends : stringTail first 0 tail = some more) : Starts first tail ⟨.string, more⟩
  | mark {found : Lexeme} (other : startsName first = false) (noDigit : isDigit first = false)
      (noQuote : ¬ (first = doubleQuote ∨ first = singleQuote))
      (read : punctuation first tail = .ok found) : Starts first tail found

/-- What a token is depends on its first byte. -/
theorem lexeme_eq_ok {first : UInt8} {tail : List UInt8} {found : Lexeme} :
    lexeme first tail = .ok found ↔ Starts first tail found := by
  constructor
  · intro read
    unfold lexeme at read
    split at read
    · cases read
      exact .word ‹_›
    · rename_i other
      rw [Bool.not_eq_true] at other
      split at read
      · exact .number other ‹_› read
      · rename_i noDigit
        rw [Bool.not_eq_true] at noDigit
        split at read
        · split at read
          · cases read
            exact .string other noDigit ‹_› ‹_›
          · cases read
        · exact .mark other noDigit ‹_› read
  · rintro (starts | ⟨other, digit, read⟩ | ⟨other, noDigit, quote, ends⟩ |
      ⟨other, noDigit, noQuote, read⟩)
    · simp [lexeme, starts]
    · simp [lexeme, other, digit, read]
    · simp only [lexeme, other, noDigit, quote, ends, Bool.false_eq_true, if_false, if_true]
    · simp only [lexeme, other, noDigit, noQuote, read, Bool.false_eq_true, if_false]

/-- A name is visible. -/
theorem visible_word {first : UInt8} {tail : List UInt8} (starts : startsName first = true) :
    ∀ byte ∈ first :: tail.take (countWhile continuesName tail), IsVisible byte := by
  intro byte member
  rcases List.mem_cons.mp member with rfl | member
  · exact isVisible_of_continuesName (by rw [continuesName, starts, Bool.true_or])
  · exact isVisible_of_continuesName (take_countWhile _ _ byte member)

/-- And so is a number. -/
theorem visible_number {first : UInt8} {tail : List UInt8} {found : Lexeme}
    (digit : isDigit first = true) (read : number first tail = .ok found) :
    ∀ byte ∈ first :: tail.take found.more, IsVisible byte := by
  intro byte member
  rcases List.mem_cons.mp member with rfl | member
  · exact isVisible_of_isDigit digit
  · exact visible_numberTail (number_eq_ok.mp read).2.1 byte member

/-- A token is found in its own bytes alone, and none of them is a newline. -/
theorem lexeme_take {first : UInt8} {tail : List UInt8} {found : Lexeme}
    (read : lexeme first tail = .ok found) :
    found.more ≤ tail.length ∧ lexeme first (tail.take found.more) = .ok found ∧
      newline ∉ first :: tail.take found.more := by
  have inline {more : Nat} (visible : ∀ byte ∈ first :: tail.take more, IsVisible byte) :
      newline ∉ first :: tail.take more := fun member => (visible _ member).ne_newline rfl
  rcases lexeme_eq_ok.mp read with starts | ⟨other, digit, number⟩ | ⟨other, noDigit, quote, ends⟩ |
    ⟨other, noDigit, noQuote, mark⟩
  · refine ⟨countWhile_le _ _, ?_, inline (visible_word starts)⟩
    have word : Starts first (tail.take (countWhile continuesName tail)) _ := .word starts
    rw [countWhile_take, Nat.min_self, List.take_take, Nat.min_self] at word
    exact lexeme_eq_ok.mpr word
  · obtain ⟨short, alone⟩ := number_take number
    exact ⟨short, lexeme_eq_ok.mpr (.number other digit alone), inline (visible_number digit number)⟩
  · obtain ⟨short, alone, clean⟩ := stringTail_take quote ends
    exact ⟨short, lexeme_eq_ok.mpr (.string other noDigit quote alone), clean⟩
  · obtain ⟨short, alone, clean⟩ := punctuation_take mark
    exact ⟨short, lexeme_eq_ok.mpr (.mark other noDigit noQuote alone), clean⟩

/-- The bytes of names and numbers show. -/
theorem visible_lexeme {first : UInt8} {tail : List UInt8} {found : Lexeme}
    (read : lexeme first tail = .ok found) (word : found.kind = .ident ∨ found.kind = .number) :
    ∀ byte ∈ first :: tail.take found.more, IsVisible byte := by
  rcases lexeme_eq_ok.mp read with starts | ⟨other, digit, number⟩ | ⟨other, noDigit, quote, ends⟩ |
    ⟨other, noDigit, noQuote, mark⟩
  · exact visible_word starts
  · exact visible_number digit number
  · rcases word with word | word <;> cases word
  · obtain ⟨noName, noNumber⟩ := kind_punctuation mark
    rcases word with word | word
    · exact absurd word noName
    · exact absurd word noNumber

/-! ## Errors -/

/-- A broken exponent is a lexical error. -/
theorem exponentWidth_error {bytes : List UInt8} {complaint : Complaint}
    (broken : exponentWidth bytes = .error complaint) : complaint.kind = .lexical := by
  cases bytes with
  | nil => cases broken
  | cons mark rest =>
      by_cases exponent : mark = 0x65 ∨ mark = 0x45
      · rw [exponentWidth_mark exponent] at broken
        split at broken <;> cases broken
        rfl
      · rw [exponentWidth_other exponent] at broken
        cases broken

/-- And so is every broken number. -/
theorem numberTail_error {first : UInt8} {tail : List UInt8} {flaw : Flaw}
    (broken : numberTail first tail = .error flaw) : flaw.complaint.kind = .lexical := by
  unfold numberTail at broken
  dsimp only at broken
  split at broken
  · split at broken <;> cases broken
    rfl
  · split at broken <;> cases broken
    exact exponentWidth_error ‹_›

/-- Whatever keeps a token from being found is a lexical error. -/
theorem lexeme_error {first : UInt8} {tail : List UInt8} {flaw : Flaw}
    (broken : lexeme first tail = .error flaw) : flaw.complaint.kind = .lexical := by
  unfold lexeme at broken
  split at broken
  · cases broken
  · split at broken
    · unfold number at broken
      cases width : numberTail first tail with
      | error other =>
          rw [width] at broken
          cases broken
          exact numberTail_error width
      | ok more =>
          simp only [width, bind, Except.bind] at broken
          split at broken
          · split at broken <;> cases broken
            rfl
          · cases broken
    · split at broken
      · split at broken <;> cases broken
        rfl
      · unfold punctuation at broken
        split at broken
        · cases broken
        · cases broken
          dsimp only
          split <;> rfl

end Lexer

/-! ## Rounds

Every round of the lexer takes a byte at least, so as many rounds as there are bytes are enough
(`Lexer.tokensFrom_eq_within`). Counting rounds makes the tokens of a given text something to
compute. -/

namespace Lexer

/-- The tokens that are found in a number of rounds. -/
def tokensWithin : Nat → List (Except CompileError Token) → Position → List UInt8 → TokenStream
  | 0, found, position, _ => (TokenStream.ended position).precededBy found
  | rounds + 1, found, position, bytes =>
      match skipBlanks position bytes with
      | .error error => (TokenStream.broken error).precededBy found
      | .ok (start, []) => (TokenStream.ended start).precededBy found
      | .ok (start, first :: tail) =>
          match lexeme first tail with
          | .error ⟨complaint, distance, passed⟩ =>
              let error : CompileError := { complaint, span := .single (start.along distance) }
              match passed with
              | 0 => (TokenStream.broken error).precededBy found
              | more + 1 =>
                  tokensWithin rounds (.error error :: found) (start.along passed) (tail.drop more)
          | .ok ⟨kind, more⟩ =>
              let stop := start.along (more + 1)
              let token : Token := ⟨kind, first :: tail.take more, ⟨start, stop⟩⟩
              tokensWithin rounds (.ok token :: found) stop (tail.drop more)

theorem tokensFrom_eq_within {rounds : Nat} {found : List (Except CompileError Token)}
    {position : Position} {bytes : List UInt8} (enough : bytes.length < rounds) :
    tokensFrom found position bytes = tokensWithin rounds found position bytes := by
  induction rounds generalizing found position bytes with
  | zero => cases enough
  | succ rounds ih =>
      rw [tokensFrom, tokensWithin]
      split
      · rename_i skipped
        rw [skipped]
      · rename_i skipped
        rw [skipped]
      · rename_i start first tail skipped
        have shorter := skipBlanks_length skipped
        rw [List.length_cons] at shorter
        have left : ∀ more, (tail.drop more).length < rounds := fun more => by
          rw [List.length_drop]
          omega
        rw [skipped]
        simp only
        cases lexeme first tail with
        | error failure =>
            obtain ⟨complaint, distance, passed⟩ := failure
            cases passed with
            | zero => rfl
            | succ more => exact ih (left more)
        | ok lexeme => exact ih (left lexeme.more)

end Lexer

end PocketScript
