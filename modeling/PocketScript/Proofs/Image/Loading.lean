import PocketScript.Proofs.Image.View

/-!
# Loading and writing

Writing and reading undo each other. A program is read back as it was written
(`Image.load_write`), and an image that is read is the one that its program is written as, but for
bits that do not matter; it is read neither when something follows it nor when a part of it is
missing (`Image.write_load`).
-/

namespace PocketScript

namespace Image

/-- The bytes of a program's image, in number. -/
def size (program : Program) : Nat :=
  28 + sumOver (fun _ => 8) program.numbers.toList +
    sumOver (fun text => 8 + text.utf8ByteSize) program.strings.toList +
    sumOver (fun function => 16 + function.code.size) program.functions.toList

theorem le_sumOver {α : Type} (amount : α → Nat) {items : List α} {item : α}
    (member : item ∈ items) : amount item ≤ sumOver amount items := by
  induction items with
  | nil => cases member
  | cons first rest ih =>
      rw [sumOver_cons]
      rcases List.mem_cons.mp member with rfl | member
      · exact Nat.le_add_right _ _
      · exact Nat.le_trans (ih member) (Nat.le_add_left _ _)

theorem mul_length_le_sumOver {α : Type} (amount : α → Nat) {least : Nat}
    (each : ∀ item, least ≤ amount item) (items : List α) :
    least * items.length ≤ sumOver amount items := by
  induction items with
  | nil => exact Nat.le_refl _
  | cons first rest ih =>
      have here := each first
      rw [sumOver_cons, List.length_cons, Nat.mul_succ]
      omega

/-- When a word holds the size of the image, words hold all sizes in it. -/
theorem fits_of_size {program : Program} (small : size program < wordLimit) : program.Fits := by
  have numbers := mul_length_le_sumOver (fun _ : Number => 8) (fun _ => Nat.le_refl 8)
    program.numbers.toList
  have strings := mul_length_le_sumOver (fun text : String => 8 + text.utf8ByteSize)
    (fun _ => Nat.le_add_right 8 _) program.strings.toList
  have functions := mul_length_le_sumOver
    (fun function : FunctionDef => 16 + function.code.size)
    (fun _ => Nat.le_add_right 16 _) program.functions.toList
  unfold size at small
  rw [Array.length_toList] at numbers strings functions
  refine ⟨by omega, by omega, by omega, fun text member => ?_, fun function member => ?_⟩
  · have := le_sumOver (fun text : String => 8 + text.utf8ByteSize)
      (Array.mem_toList_iff.mpr member)
    omega
  · have := le_sumOver (fun function : FunctionDef => 16 + function.code.size)
      (Array.mem_toList_iff.mpr member)
    omega

variable (order : ByteOrder)

/-- A written program is read back, whatever follows it. -/
theorem readTables_bodyBytes {program : Program} (fits : program.Fits)
    (clean : ∀ text ∈ program.strings, ¬ HasNul text) (total : Nat) (rest : List UInt8) :
    readTables total order (bodyBytes order program ++ rest) = .ok (program, rest) :=
  (format_tables order).reads program _ ⟨_, _, _, spellsProgram_write order fits clean, rfl⟩ total
    rest

theorem length_flatMap_eq {α : Type} (bytes : α → List UInt8) (amount : α → Nat) (items : List α)
    (each : ∀ item, (bytes item).length = amount item) :
    (items.flatMap bytes).length = sumOver amount items := by
  induction items with
  | nil => rfl
  | cons item rest ih => rw [List.flatMap_cons, List.length_append, each, ih, sumOver_cons]

theorem length_bodyBytes (program : Program) :
    (bodyBytes order program).length + 4 = size program := by
  have numbers := length_flatMap_eq _ (fun _ => 8) program.numbers.toList
    fun number : Number => order.length_write 8 number.bits.toNat
  have strings := length_flatMap_eq (stringBytes order) (fun text => 8 + text.utf8ByteSize)
    program.strings.toList fun text => by
      rw [stringBytes, List.length_append, order.length_write, length_encode]
  have functions := length_flatMap_eq _ (fun function => 16 + function.code.size)
    program.functions.toList fun function => length_functionBytes order function (flagsOf function)
  simp only [bodyBytes, countBytes, List.length_append, order.length_write, numbers, strings,
    functions, size]
  omega

/-- The first string with a NUL. -/
theorem findIdx?_hasNul {texts : Array String} {index : Nat} :
    texts.toList.findIdx? (HasNul ·) = some index ↔
      ∃ text, texts[index]? = some text ∧ HasNul text ∧ ∀ (earlier : Nat) other, earlier < index →
        texts[earlier]? = some other → ¬ HasNul other := by
  rw [List.findIdx?_eq_some_iff_getElem]
  simp only [Array.length_toList, Array.getElem_toList, decide_eq_true_eq]
  constructor
  · rintro ⟨inside, nul, before⟩
    refine ⟨texts[index], Array.getElem?_eq_getElem inside, nul, fun earlier other less there => ?_⟩
    obtain ⟨_, rfl⟩ := Array.getElem?_eq_some_iff.mp there
    exact before earlier less
  · rintro ⟨text, there, nul, before⟩
    obtain ⟨inside, rfl⟩ := Array.getElem?_eq_some_iff.mp there
    exact ⟨inside, nul, fun earlier less =>
      before earlier _ less (Array.getElem?_eq_getElem (Nat.lt_trans less inside))⟩

/-- What is written for a program is read back as that program, as a copy and in place, and nothing
but a NUL in a string keeps a program from being written. -/
theorem load_write (program : Program) (small : size program < wordLimit) :
    (∀ fault, write program (wide order) = .error fault ↔
      ∃ index text, fault = .invalidString index ∧ program.strings[index]? = some text ∧
        HasNul text ∧ ∀ (earlier : Nat) other, earlier < index →
          program.strings[earlier]? = some other → ¬ HasNul other) ∧
    ((∀ text ∈ program.strings, ¬ HasNul text) →
      ∃ bytes image view, write program (wide order) = .ok bytes ∧
        read bytes = .ok image ∧ image.header = wide order ∧ image.program = program ∧
        View.load bytes = .ok view ∧ view.Presents bytes image ∧
        ∀ index, ((image.number? index).isSome ↔ index < program.numbers.size) ∧
          ((image.string? index).isSome ↔ index < program.strings.size) ∧
          ((image.function? index).isSome ↔ index < program.functions.size)) := by
  constructor
  · intro fault
    rw [write_wide]
    cases first : program.strings.toList.findIdx? (HasNul ·) with
    | some index =>
        constructor
        · intro same
          injection same with same
          obtain ⟨text, found⟩ := findIdx?_hasNul.mp first
          exact ⟨index, text, same.symm, found⟩
        · rintro ⟨other, text, rfl, found⟩
          have same := findIdx?_hasNul.mpr ⟨text, found⟩
          rw [first] at same
          injection same with same
          rw [same]
    | none =>
        constructor
        · intro impossible
          cases impossible
        · rintro ⟨index, text, -, found⟩
          rw [findIdx?_hasNul.mpr ⟨text, found⟩] at first
          cases first
  · intro clean
    have none : program.strings.toList.findIdx? (HasNul ·) = none := by
      rw [List.findIdx?_eq_none_iff]
      intro text member
      simpa using clean text (Array.mem_toList_iff.mp member)
    have tables := readTables_bodyBytes order (fits_of_size small) clean
      ((bodyBytes order program).length + 4) []
    rw [List.append_nil] at tables
    have read : Image.read (hostWordSize :: order.marker :: 0 :: 0 :: bodyBytes order program) =
        .ok ⟨wide order, program⟩ := by
      rw [read_marked, tables]
      rfl
    have mirrors := @mirrors_load (hostWordSize :: order.marker :: 0 :: 0 ::
      bodyBytes order program) (by
        rw [← length_bodyBytes order] at small
        exact small)
    rw [read] at mirrors
    obtain ⟨view, loaded, presents⟩ := mirrors
    refine ⟨_, _, view, by rw [write_wide, none], read, rfl, rfl, loaded, presents, fun index => ?_⟩
    simp [number?, string?, function?]

/-- A program with a NaN of its own, a text beyond ASCII, and a function that captures. -/
def sampleProgram : Program where
  numbers := #[⟨0x7FF8000000000123⟩]
  strings := #["é"]
  functions := #[{ varCount := 3, argCount := 2, stackHigh := 258, isClosure := true, code := #[0x38] }]

theorem load_write_sample :
    size sampleProgram < wordLimit ∧ (∀ text ∈ sampleProgram.strings, ¬ HasNul text) ∧
      ∃ bytes image, write sampleProgram (wide .big) = .ok bytes ∧ read bytes = .ok image ∧
        image.program = sampleProgram := by
  have small : size sampleProgram < wordLimit := by decide
  have clean : ∀ text ∈ sampleProgram.strings, ¬ HasNul text := by decide
  obtain ⟨bytes, image, _, written, read, -, same, -⟩ :=
    (load_write .big sampleProgram small).2 clean
  exact ⟨small, clean, bytes, image, written, read, same⟩

/-- An image that is read has the header of its byte order, and behind it the bytes that spell its
program. -/
theorem spelled_of_read {bytes : List UInt8} {image : Image} (found : read bytes = .ok image) :
    ∃ order first second numbers strings functions, image.header = wide order ∧
      bytes = hostWordSize :: order.marker :: first :: second ::
        (countBytes order image.program ++ (numbers ++ (strings ++ functions))) ∧
      SpellsProgram order image.program numbers strings functions := by
  obtain ⟨order, first, second, body, header, rfl, tables⟩ := read_eq_ok found
  obtain ⟨front, split, numbers, strings, functions, spells, rfl⟩ :=
    (format_tables order).spelled _ _ _ _ tables
  rw [List.append_nil] at split
  exact ⟨order, first, second, numbers, strings, functions, header, by rw [split], spells⟩

theorem SpellsAll.each {α : Type} {spells : Spelling α} {items : List α} {front : List UInt8}
    (all : SpellsAll spells items front) {item : α} (member : item ∈ items) :
    ∃ front, spells item front := by
  induction all with
  | nil => cases member
  | cons here _ ih =>
      rcases List.mem_cons.mp member with rfl | member
      · exact ⟨_, here⟩
      · exact ih member

/-- A part of a spelled program behind a header is too short for an image. -/
theorem short_of_part {order : ByteOrder} {first second : UInt8} {program : Program}
    {numbers strings functions part more : List UInt8}
    (spells : SpellsProgram order program numbers strings functions)
    (split : hostWordSize :: order.marker :: first :: second ::
      (countBytes order program ++ (numbers ++ (strings ++ functions))) = part ++ more)
    (missing : more ≠ []) : ∃ fault, read part = .error fault ∧ fault.isShortage = true := by
  match part with
  | [] | [_] | [_, _] | [_, _, _] => exact ⟨_, rfl, rfl⟩
  | wordSize :: marker :: third :: fourth :: part =>
      simp only [List.cons_append, List.cons.injEq] at split
      obtain ⟨rfl, rfl, rfl, rfl, split⟩ := split
      obtain ⟨fault, failed, shortage⟩ := (format_tables order).short program _
        ⟨numbers, strings, functions, spells, rfl⟩ (part.length + 4) part more split missing
      exact ⟨fault, by rw [read_marked, failed]; rfl, shortage⟩

/-- An image that is read is what its program is written as, but for the bits that do not matter; it
is refused when anything follows it and when any of it is missing. No walk over any bytes leaves
them. -/
theorem write_load (bytes : List UInt8) (small : bytes.length < wordLimit) :
    (∀ image, read bytes = .ok image →
      write image.program image.header = .ok (masked bytes (significant image)) ∧
      (significant image).length = bytes.length ∧
      (∀ more, more ≠ [] → read (bytes ++ more) = .error (.trailingBytes more.length)) ∧
      ∀ part more, bytes = part ++ more → more ≠ [] →
        (∃ size, read part = .error (.truncated size)) ∨
          ∃ count, read part = .error (.countOverflow count)) ∧
    View.Mirrors bytes (View.load bytes) (read bytes) ∧ View.load bytes ≠ .error .outside := by
  refine ⟨fun image found => ?_, mirrors_load small, fun left => ?_⟩
  · obtain ⟨header, program⟩ := image
    obtain ⟨order, first, second, numbers, strings, functions, same, rfl, spells⟩ :=
      spelled_of_read found
    dsimp only at same spells
    subst same
    have shows := spells.shows order first second
    refine ⟨?_, shows.length.symm, fun more long => ?_, fun part more split missing => ?_⟩
    · have none : program.strings.toList.findIdx? (HasNul ·) = none := by
        rw [List.findIdx?_eq_none_iff]
        intro text member
        obtain ⟨_, spelled⟩ := spells.strings.each member
        exact decide_eq_false spelled.clean
      rw [write_wide, none, shows.bytes]
    · have tables := (format_tables order).reads program _
        ⟨numbers, strings, functions, spells, rfl⟩
      rw [List.cons_append, List.cons_append, List.cons_append, List.cons_append, read_marked,
        tables]
      change (if more.isEmpty then _ else _) = _
      rw [if_neg (by simpa using long)]
    · obtain ⟨fault, failed, shortage⟩ := short_of_part spells split missing
      cases fault with
      | truncated size => exact .inl ⟨size, failed⟩
      | countOverflow count => exact .inr ⟨count, failed⟩
      | _ => cases shortage
  · have mirrors := mirrors_load small
    unfold View.Mirrors at mirrors
    rw [left] at mirrors
    cases found : read bytes with
    | error fault =>
        rw [found] at mirrors
        cases mirrors
    | ok image =>
        rw [found] at mirrors
        obtain ⟨view, loaded, -⟩ := mirrors
        cases loaded

/-- An image whose reserved bytes and flags are all set. -/
def sampleImage : List UInt8 :=
  [8, 1, 0xFF, 0xFF, 0, 0, 0, 0, 0, 0, 0, 0, 0, 0, 0, 0, 0, 0, 0, 0, 0, 0, 0, 0, 0, 0, 0, 1,
    0, 3, 0, 2, 1, 2, 0xFF, 0xFF, 0, 0, 0, 0, 0, 0, 0, 1, 0x38]

theorem write_load_sample :
    sampleImage.length < wordLimit ∧ ∃ image, read sampleImage = .ok image ∧
      write image.program image.header = .ok (masked sampleImage (significant image)) ∧
      read (sampleImage ++ [0, 0]) = .error (.trailingBytes 2) ∧
      View.load sampleImage ≠ .error .outside := by
  have small : sampleImage.length < wordLimit := by decide
  have found : ∃ image, read sampleImage = .ok image := ⟨_, rfl⟩
  obtain ⟨image, found⟩ := found
  obtain ⟨all, -, inside⟩ := write_load sampleImage small
  obtain ⟨written, -, longer, -⟩ := all image found
  exact ⟨small, image, found, written, longer [0, 0] (by decide), inside⟩

end Image

end PocketScript
