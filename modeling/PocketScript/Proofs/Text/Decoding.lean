import PocketScript.Text.Utf8

/-!
# Reading text back

The bytes of a text are read as that text, and no other bytes are read as it
(`Utf8.decode?_eq_some_iff`). A character is found by the range its leading byte lies in, so the
proofs take one case for each number of bytes that a character may have.
-/

namespace PocketScript.Utf8

/-! ## Characters and their bytes -/

/-- What a leading byte promises, by the number of bytes that follow it. -/
def Lead.ofNat (byte : Nat) : Option Lead :=
  if byte < 0x80 then some ⟨0, 0x80, 0xBF, byte⟩
  else if byte < 0xC2 then none
  else if byte < 0xE0 then some ⟨1, 0x80, 0xBF, byte - 0xC0⟩
  else if byte < 0xF0 then
    some ⟨2, if byte = 0xE0 then 0xA0 else 0x80, if byte = 0xED then 0x9F else 0xBF, byte - 0xE0⟩
  else if byte < 0xF5 then
    some ⟨3, if byte = 0xF0 then 0x90 else 0x80, if byte = 0xF4 then 0x8F else 0xBF, byte - 0xF0⟩
  else none

theorem Lead.ofByte_eq (byte : UInt8) : Lead.ofByte byte = Lead.ofNat byte.toNat := by
  have all : ∀ number : Fin 256, Lead.ofByte (UInt8.ofNat number) = Lead.ofNat number := by
    decide +kernel
  simpa using all ⟨byte.toNat, byte.toNat_lt⟩

/-- Six bits of a character, as a byte behind the first one. -/
def follower (bits : Nat) : UInt8 := UInt8.ofNat (bits + 128)

theorem toNat_follower {bits : Nat} (small : bits < 64) : (follower bits).toNat = bits + 128 :=
  UInt8.toNat_ofNat_of_lt' (Nat.lt_trans (Nat.add_lt_add_right small 128) (by decide))

theorem followers_zero {low high : UInt8} {value width : Nat} {bytes : List UInt8} :
    followers 0 low high value width bytes = .char (Char.ofNat value) bytes := by
  rw [followers]

theorem followers_next {owed : Nat} {low high : UInt8} {value width bits : Nat} {more : List UInt8}
    (small : bits < 64) (inside : low.toNat ≤ bits + 128 ∧ bits + 128 ≤ high.toNat) :
    followers (owed + 1) low high value width (follower bits :: more) =
      followers owed 0x80 0xBF (value * 64 + bits) (width + 1) more := by
  rw [followers, if_pos (by simpa only [UInt8.le_iff_toNat_le, toNat_follower small] using inside),
    toNat_follower small, Nat.add_sub_cancel]

/-- A character that still owes bits is followed by a byte with six of them. -/
theorem followers_eq_char {owed : Nat} {low high : UInt8} {value width : Nat} {bytes rest : List UInt8}
    {c : Char} (found : followers (owed + 1) low high value width bytes = .char c rest)
    (lowest : 0x80 ≤ low.toNat) (highest : high.toNat ≤ 0xBF) :
    ∃ bits more, bytes = follower bits :: more ∧ bits < 64 ∧ low.toNat ≤ bits + 128 ∧
      bits + 128 ≤ high.toNat ∧
      followers owed 0x80 0xBF (value * 64 + bits) (width + 1) more = .char c rest := by
  cases bytes with
  | nil => cases found
  | cons byte more =>
      rw [followers] at found
      split at found
      · rename_i inside
        simp only [UInt8.le_iff_toNat_le] at inside
        refine ⟨byte.toNat - 128, more, ?_, by omega, by omega, by omega, found⟩
        rw [follower, Nat.sub_add_cancel (by omega), UInt8.ofNat_toNat]
      · cases found

/-! ## Characters of one to four bytes -/

/-- The bytes and the value of a character, by its number of bytes. -/
inductive Spelled : Nat → List UInt8 → Prop where
  | one {bits : Nat} : bits < 0x80 → Spelled bits [UInt8.ofNat bits]
  | two {bits last : Nat} : 2 ≤ bits → bits < 32 → last < 64 →
      Spelled (bits * 64 + last) [UInt8.ofNat (bits + 0xC0), follower last]
  | three {bits middle last : Nat} : bits < 16 → middle < 64 → last < 64 →
      (bits = 0 → 32 ≤ middle) → (bits = 13 → middle < 32) →
      Spelled ((bits * 64 + middle) * 64 + last)
        [UInt8.ofNat (bits + 0xE0), follower middle, follower last]
  | four {bits second third last : Nat} : bits < 5 → second < 64 → third < 64 → last < 64 →
      (bits = 0 → 16 ≤ second) → (bits = 4 → second < 16) →
      Spelled (((bits * 64 + second) * 64 + third) * 64 + last)
        [UInt8.ofNat (bits + 0xF0), follower second, follower third, follower last]

/-- The bytes of a character are spelled so. -/
theorem spelled_encode (c : Char) : Spelled c.val.toNat (String.utf8EncodeChar c) := by
  have valid : c.val.toNat.isValidChar := c.valid
  rw [String.utf8EncodeChar.eq_1]
  generalize c.val.toNat = value at *
  simp only [Nat.isValidChar] at valid
  split
  · exact .one (by omega)
  split
  · have spelled := @Spelled.two (value / 64) (value % 64) (by omega) (by omega) (by omega)
    rwa [show value / 64 * 64 + value % 64 = value by omega,
      show value / 64 = value / 64 % 32 by omega] at spelled
  split
  · have spelled := @Spelled.three (value / 4096) (value / 64 % 64) (value % 64) (by omega)
      (by omega) (by omega) (by omega) (by omega)
    rwa [show (value / 4096 * 64 + value / 64 % 64) * 64 + value % 64 = value by omega,
      show value / 4096 = value / 4096 % 16 by omega] at spelled
  · have spelled := @Spelled.four (value / 262144) (value / 4096 % 64) (value / 64 % 64) (value % 64)
      (by omega) (by omega) (by omega) (by omega) (by omega) (by omega)
    rwa [show ((value / 262144 * 64 + value / 4096 % 64) * 64 + value / 64 % 64) * 64 + value % 64 =
        value by omega,
      show value / 262144 = value / 262144 % 8 by omega] at spelled

theorem Spelled.valid {value : Nat} {bytes : List UInt8} (spelled : Spelled value bytes) :
    value.isValidChar := by
  unfold Nat.isValidChar
  cases spelled <;> omega

/-- There is but one spelling of a value. -/
theorem Spelled.eq_encode {value : Nat} {bytes : List UInt8} (spelled : Spelled value bytes) :
    String.utf8EncodeChar (Char.ofNat value) = bytes := by
  have same : (Char.ofNat value).val.toNat = value := by
    rw [Char.ofNat, dif_pos spelled.valid]
    rfl
  rw [String.utf8EncodeChar.eq_1, same]
  cases spelled with
  | one => rw [if_pos (by omega)]
  | @two bits last =>
      rw [if_neg (by omega), if_pos (by omega), follower,
        show (bits * 64 + last) / 64 % 32 = bits by omega,
        show (bits * 64 + last) % 64 = last by omega]
  | @three bits middle last =>
      rw [if_neg (by omega), if_neg (by omega), if_pos (by omega), follower, follower,
        show ((bits * 64 + middle) * 64 + last) / 4096 % 16 = bits by omega,
        show ((bits * 64 + middle) * 64 + last) / 64 % 64 = middle by omega,
        show ((bits * 64 + middle) * 64 + last) % 64 = last by omega]
  | @four bits second third last =>
      rw [if_neg (by omega), if_neg (by omega), if_neg (by omega), follower, follower, follower,
        show (((bits * 64 + second) * 64 + third) * 64 + last) / 262144 % 8 = bits by omega,
        show (((bits * 64 + second) * 64 + third) * 64 + last) / 4096 % 64 = second by omega,
        show (((bits * 64 + second) * 64 + third) * 64 + last) / 64 % 64 = third by omega,
        show (((bits * 64 + second) * 64 + third) * 64 + last) % 64 = last by omega]

/-- What follows a first byte in the widest range. -/
theorem followers_whole {owed value width bits : Nat} {more : List UInt8} (small : bits < 64) :
    followers (owed + 1) 0x80 0xBF value width (follower bits :: more) =
      followers owed 0x80 0xBF (value * 64 + bits) (width + 1) more :=
  followers_next small ⟨Nat.le_add_left _ _, Nat.add_le_add_right (Nat.le_of_lt_succ small) 128⟩

/-- A spelled character is found. -/
theorem Spelled.front {value : Nat} {bytes : List UInt8} (spelled : Spelled value bytes)
    (rest : List UInt8) : front (bytes ++ rest) = .char (Char.ofNat value) rest := by
  have small {number : Nat} (fits : number < 256) : (UInt8.ofNat number).toNat = number :=
    UInt8.toNat_ofNat_of_lt' fits
  cases spelled with
  | one fits =>
      simp only [List.cons_append, List.nil_append, Utf8.front, Lead.ofByte_eq, Lead.ofNat,
        small (show value < 256 by omega)]
      rw [if_pos fits]
      exact followers_zero
  | @two bits last _ _ fits =>
      simp only [List.cons_append, List.nil_append, Utf8.front, Lead.ofByte_eq, Lead.ofNat,
        small (show bits + 0xC0 < 256 by omega)]
      rw [if_neg (by omega), if_neg (by omega), if_pos (by omega)]
      simp only [Nat.add_sub_cancel]
      rw [followers_whole fits, followers_zero]
  | @three bits middle last _ fits fits' low high =>
      simp only [List.cons_append, List.nil_append, Utf8.front, Lead.ofByte_eq, Lead.ofNat,
        small (show bits + 0xE0 < 256 by omega)]
      rw [if_neg (by omega), if_neg (by omega), if_neg (by omega), if_pos (by omega)]
      simp only [Nat.add_sub_cancel]
      rw [followers_next fits ⟨?_, ?_⟩, followers_whole fits', followers_zero]
      · split
        · show 160 ≤ _
          omega
        · show 128 ≤ _
          omega
      · split
        · show _ ≤ 159
          omega
        · show _ ≤ 191
          omega
  | @four bits second third last _ fits fits' fits'' low high =>
      simp only [List.cons_append, List.nil_append, Utf8.front, Lead.ofByte_eq, Lead.ofNat,
        small (show bits + 0xF0 < 256 by omega)]
      rw [if_neg (by omega), if_neg (by omega), if_neg (by omega), if_neg (by omega),
        if_pos (by omega)]
      simp only [Nat.add_sub_cancel]
      rw [followers_next fits ⟨?_, ?_⟩, followers_whole fits', followers_whole fits'',
        followers_zero]
      · split
        · show 144 ≤ _
          omega
        · show 128 ≤ _
          omega
      · split
        · show _ ≤ 143
          omega
        · show _ ≤ 191
          omega

/-- What is found is spelled. -/
theorem spelled_of_front {bytes rest : List UInt8} {c : Char} (found : front bytes = .char c rest) :
    ∃ value spelling, bytes = spelling ++ rest ∧ c = Char.ofNat value ∧ Spelled value spelling := by
  cases bytes with
  | nil => cases found
  | cons byte more =>
      have whole : 0x80 ≤ (0x80 : UInt8).toNat ∧ (0xBF : UInt8).toNat ≤ 0xBF := by decide
      have first : byte = UInt8.ofNat byte.toNat := UInt8.ofNat_toNat.symm
      simp only [front, Lead.ofByte_eq, Lead.ofNat] at found
      generalize byte.toNat = number at *
      subst first
      split at found
      · cases found
      rename_i lead promised
      split at promised
      · injection promised with promised
        subst promised
        rw [followers_zero] at found
        injection found with same rest
        subst same rest
        exact ⟨_, _, rfl, rfl, .one ‹_›⟩
      split at promised
      · cases promised
      split at promised
      · injection promised with promised
        subst promised
        obtain ⟨last, more, rfl, fits, -, -, found⟩ := followers_eq_char found whole.1 whole.2
        rw [followers_zero] at found
        injection found with same rest
        subst same rest
        have spelled := @Spelled.two (number - 0xC0) last (by omega) (by omega) fits
        rw [Nat.sub_add_cancel (by omega)] at spelled
        exact ⟨_, _, rfl, rfl, spelled⟩
      split at promised
      · injection promised with promised
        subst promised
        dsimp only at found
        obtain ⟨middle, more, rfl, fits, low, high, found⟩ := followers_eq_char found
          (by split <;> decide) (by split <;> decide)
        obtain ⟨last, more, rfl, fits', -, -, found⟩ := followers_eq_char found whole.1 whole.2
        rw [followers_zero] at found
        injection found with same rest
        subst same rest
        have spelled := @Spelled.three (number - 0xE0) middle last (by omega) fits fits'
          (fun least => by
            rw [if_pos (by omega)] at low
            change 160 ≤ _ at low
            omega)
          (fun surrogate => by
            rw [if_pos (by omega)] at high
            change _ ≤ 159 at high
            omega)
        rw [Nat.sub_add_cancel (by omega)] at spelled
        exact ⟨_, _, rfl, rfl, spelled⟩
      split at promised
      · injection promised with promised
        subst promised
        dsimp only at found
        obtain ⟨second, more, rfl, fits, low, high, found⟩ := followers_eq_char found
          (by split <;> decide) (by split <;> decide)
        obtain ⟨third, more, rfl, fits', -, -, found⟩ := followers_eq_char found whole.1 whole.2
        obtain ⟨last, more, rfl, fits'', -, -, found⟩ := followers_eq_char found whole.1 whole.2
        rw [followers_zero] at found
        injection found with same rest
        subst same rest
        have spelled := @Spelled.four (number - 0xF0) second third last (by omega) fits fits' fits''
          (fun least => by
            rw [if_pos (by omega)] at low
            change 144 ≤ _ at low
            omega)
          (fun greatest => by
            rw [if_pos (by omega)] at high
            change _ ≤ 143 at high
            omega)
        rw [Nat.sub_add_cancel (by omega)] at spelled
        exact ⟨_, _, rfl, rfl, spelled⟩
      · cases promised

/-- The bytes of a character are read as that character. -/
theorem front_encode (c : Char) (rest : List UInt8) :
    front (String.utf8EncodeChar c ++ rest) = .char c rest := by
  rw [(spelled_encode c).front rest]
  exact congrArg (Front.char · rest) (Char.ofNat_toNat c)

/-- A character is only read from its own bytes. -/
theorem eq_encode_of_front {bytes rest : List UInt8} {c : Char}
    (found : front bytes = .char c rest) : bytes = String.utf8EncodeChar c ++ rest := by
  obtain ⟨value, spelling, rfl, rfl, spelled⟩ := spelled_of_front found
  rw [spelled.eq_encode]

/-! ## Texts -/

theorem decodeAfter_encode (read chars : List Char) (index : Nat) :
    decodeAfter read index (chars.flatMap String.utf8EncodeChar) = .ok (read.reverse ++ chars) := by
  induction chars generalizing read index with
  | nil =>
      rw [List.flatMap_nil, decodeAfter]
      simp [front]
  | cons c rest ih =>
      rw [List.flatMap_cons, decodeAfter]
      split
      · rename_i cut
        rw [front_encode] at cut
        cases cut
      · rename_i damaged
        rw [front_encode] at damaged
        cases damaged
      · rename_i found
        rw [front_encode] at found
        injection found with same tail
        subst same tail
        rw [ih, List.reverse_cons, List.append_assoc]
        rfl

theorem eq_encode_of_decodeAfter {read chars : List Char} {index : Nat} {bytes : List UInt8}
    (found : decodeAfter read index bytes = .ok chars) :
    ∃ more, chars = read.reverse ++ more ∧ bytes = more.flatMap String.utf8EncodeChar := by
  fun_induction decodeAfter read index bytes with
  | case1 read index bytes cut empty =>
      injection found with same
      exact ⟨[], by simp [← same], by simpa using empty⟩
  | case2 => cases found
  | case3 => cases found
  | case4 read index bytes c rest there shorter ih =>
      obtain ⟨more, rfl, rfl⟩ := ih found
      exact ⟨c :: more, by simp, by rw [eq_encode_of_front there, List.flatMap_cons]⟩

/-- Bytes are read as a text exactly when they are its bytes. -/
theorem decode?_eq_some_iff {bytes : List UInt8} {text : String} :
    decode? bytes = some text ↔ bytes = encode text := by
  constructor
  · intro found
    rw [decode?, decode] at found
    cases read : decodeAfter [] 0 bytes with
    | error damage =>
        rw [read] at found
        cases found
    | ok chars =>
        rw [read] at found
        injection found with same
        obtain ⟨more, rfl, rfl⟩ := eq_encode_of_decodeAfter read
        rw [← same, encode, String.toList_ofList]
  · rintro rfl
    rw [decode?, decode, encode, decodeAfter_encode]
    simp [Except.map, Except.toOption]

/-! ## Zero bytes -/

theorem ofNat_ne_zero {number : Nat} (positive : 0 < number) (small : number < 256) :
    (0 : UInt8) ≠ UInt8.ofNat number := by
  intro same
  have value := congrArg UInt8.toNat same
  rw [UInt8.toNat_ofNat_of_lt' small] at value
  change 0 = number at value
  omega

/-- An ASCII byte is spelled only where the character is an ASCII character. -/
theorem Spelled.ascii_mem {value : Nat} {bytes : List UInt8} {byte : UInt8}
    (spelled : Spelled value bytes) (member : byte ∈ bytes) (ascii : byte.toNat < 0x80) :
    value = byte.toNat ∧ bytes = [byte] := by
  have follows {bits : Nat} (fits : bits < 64) (same : byte = follower bits) : False := by
    rw [same, toNat_follower fits] at ascii
    omega
  have leads {number : Nat} (high : 0x80 ≤ number) (fits : number < 256)
      (same : byte = UInt8.ofNat number) : False := by
    rw [same, UInt8.toNat_ofNat_of_lt' fits] at ascii
    omega
  cases spelled with
  | one fits =>
      obtain rfl := List.mem_singleton.mp member
      exact ⟨(UInt8.toNat_ofNat_of_lt' (Nat.lt_trans fits (by decide))).symm, rfl⟩
  | two low high fits =>
      simp only [List.mem_cons, List.not_mem_nil, or_false] at member
      rcases member with lead | last
      · exact (leads (by omega) (by omega) lead).elim
      · exact (follows fits last).elim
  | three high fits fits' =>
      simp only [List.mem_cons, List.not_mem_nil, or_false] at member
      rcases member with lead | middle | last
      · exact (leads (by omega) (by omega) lead).elim
      · exact (follows fits middle).elim
      · exact (follows fits' last).elim
  | four high fits fits' fits'' =>
      simp only [List.mem_cons, List.not_mem_nil, or_false] at member
      rcases member with lead | second | third | last
      · exact (leads (by omega) (by omega) lead).elim
      · exact (follows fits second).elim
      · exact (follows fits' third).elim
      · exact (follows fits'' last).elim

/-- A byte is zero only where the character is. -/
theorem Spelled.zero_mem {value : Nat} {bytes : List UInt8} (spelled : Spelled value bytes) :
    0 ∈ bytes ↔ value = 0 := by
  refine ⟨fun member => (spelled.ascii_mem member (by decide)).1, fun zero => ?_⟩
  cases spelled with
  | one =>
      subst zero
      exact List.mem_singleton_self 0
  | two | three | four => omega

/-- The bytes of a text have a zero among them exactly when the text contains the character with
that number. -/
theorem zero_mem_encode {text : String} : 0 ∈ encode text ↔ Char.ofNat 0 ∈ text.toList := by
  rw [encode, List.mem_flatMap]
  constructor
  · rintro ⟨c, member, zero⟩
    have same : Char.ofNat c.val.toNat = c := Char.ofNat_toNat c
    rw [(spelled_encode c).zero_mem.mp zero] at same
    rwa [same]
  · intro member
    exact ⟨_, member, by decide⟩

end PocketScript.Utf8
