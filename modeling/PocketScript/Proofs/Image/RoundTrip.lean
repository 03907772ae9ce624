import PocketScript.Proofs.Image.Formats

/-!
# Writing and reading images
-/

namespace PocketScript

/-- Nothing in the program is too large for a word of eight bytes. -/
structure Program.Fits (program : Program) : Prop where
  numbers : program.numbers.size < Image.wordLimit
  strings : program.strings.size < Image.wordLimit
  functions : program.functions.size < Image.wordLimit
  texts : ∀ text ∈ program.strings, text.utf8ByteSize < Image.wordLimit
  codes : ∀ function ∈ program.functions, function.code.size < Image.wordLimit

namespace Image

/-- A text contains the character of number zero. -/
def HasNul (text : String) : Prop := Char.ofNat 0 ∈ text.toList

instance (text : String) : Decidable (HasNul text) := inferInstanceAs (Decidable (_ ∈ _))

variable (order : ByteOrder)

/-- The header of images with words of eight bytes. -/
abbrev wide (order : ByteOrder) : ImageHeader := ⟨hostWordSize, order⟩

theorem word_wide (value : Nat) : word (wide order) value = .ok (order.write 8 value) := rfl

def stringBytes (text : String) : List UInt8 :=
  order.write 8 (Utf8.encode text).length ++ Utf8.encode text

/-- The flags that a function is written with. -/
def flagsOf (function : FunctionDef) : UInt16 := if function.isClosure then closureFlag else 0

/-- The bytes behind the header of a written image. -/
def bodyBytes (program : Program) : List UInt8 :=
  countBytes order program ++
    (program.numbers.toList.flatMap (fun number => order.write 8 number.bits.toNat) ++
      (program.strings.toList.flatMap (stringBytes order) ++
        program.functions.toList.flatMap fun function =>
          functionBytes order function (flagsOf function)))

theorem writeString_wide (text : String) (index : Nat) :
    writeString (wide order) text index =
      if HasNul text then .error (.invalidString index) else .ok (stringBytes order text) := by
  rw [writeString]
  by_cases nul : HasNul text
  · rw [if_pos nul, if_pos (by simpa using Utf8.zero_mem_encode.mpr nul)]
  · rw [if_neg nul, if_neg (by simpa using fun member => nul (Utf8.zero_mem_encode.mp member)),
      word_wide]
    rfl

theorem writeFunction_wide (function : FunctionDef) :
    writeFunction (wide order) function = .ok (functionBytes order function (flagsOf function)) :=
  rfl

/-- Strings are written up to the first one that cannot be. -/
theorem writeStrings_wide (texts : List String) (start : Nat) :
    (texts.zipIdx start).mapM (fun (text, index) => writeString (wide order) text index) =
      match texts.findIdx? (HasNul ·) with
      | some index => .error (.invalidString (start + index))
      | none => .ok (texts.map (stringBytes order)) := by
  induction texts generalizing start with
  | nil => rfl
  | cons text rest ih =>
      rw [List.zipIdx_cons, List.mapM_cons, List.findIdx?_cons]
      dsimp only
      rw [writeString_wide]
      by_cases nul : HasNul text
      · simp [nul, bind, Except.bind]
      · simp only [nul, if_false, decide_false, Bool.false_eq_true, bind, Except.bind, ih]
        cases rest.findIdx? (HasNul ·) with
        | none => rfl
        | some index => simp [Nat.add_assoc, Nat.add_comm 1]

/-- So are all functions. -/
theorem writeFunctions_wide (functions : List FunctionDef) :
    functions.mapM (writeFunction (wide order)) =
      .ok (functions.map fun function => functionBytes order function (flagsOf function)) := by
  induction functions with
  | nil => rfl
  | cons function rest ih =>
      rw [List.mapM_cons, writeFunction_wide, ih]
      rfl

/-- The image of a program, unless some string contains a NUL. -/
theorem write_wide (program : Program) :
    write program (wide order) =
      match program.strings.toList.findIdx? (HasNul ·) with
      | some index => .error (.invalidString index)
      | none => .ok (hostWordSize :: order.marker :: 0 :: 0 :: bodyBytes order program) := by
  rw [write]
  simp only [word_wide, bind, Except.bind]
  have strings := writeStrings_wide order program.strings.toList 0
  rw [strings]
  cases program.strings.toList.findIdx? (HasNul ·) with
  | some index => simp
  | none =>
      simp only [writeFunctions_wide, bodyBytes, countBytes]
      simp [List.flatMap, pure, Except.pure]

/-! ## Reading what was written -/

theorem spellsAll_flatMap {α : Type} {spells : Spelling α} {bytes : α → List UInt8}
    {items : List α} (each : ∀ item ∈ items, spells item (bytes item)) :
    SpellsAll spells items (items.flatMap bytes) := by
  induction items with
  | nil => exact .nil
  | cons item rest ih =>
      rw [List.flatMap_cons]
      exact .cons (each item List.mem_cons_self)
        (ih fun other member => each other (List.mem_cons_of_mem _ member))

/-- A text is as long as its encoding. -/
theorem length_encode (text : String) : (Utf8.encode text).length = text.utf8ByteSize := by
  rw [Utf8.encode, ← List.size_toByteArray]
  exact congrArg ByteArray.size String.utf8Encode_toList

theorem flagsOf_closure (function : FunctionDef) :
    function.isClosure = decide (flagsOf function &&& closureFlag ≠ 0) := by
  unfold flagsOf
  cases function.isClosure <;> decide

/-- What is written for a program spells it. -/
theorem spellsProgram_write {program : Program} (fits : program.Fits)
    (clean : ∀ text ∈ program.strings, ¬ HasNul text) :
    SpellsProgram order program
      (program.numbers.toList.flatMap fun number => order.write 8 number.bits.toNat)
      (program.strings.toList.flatMap (stringBytes order))
      (program.functions.toList.flatMap fun function =>
        functionBytes order function (flagsOf function)) where
  numberCount := fits.numbers
  stringCount := fits.strings
  functionCount := fits.functions
  numbers := spellsAll_flatMap fun _ _ => rfl
  strings := spellsAll_flatMap fun text member =>
    ⟨length_encode text ▸ fits.texts text (Array.mem_toList_iff.mp member),
      clean text (Array.mem_toList_iff.mp member), rfl⟩
  functions := spellsAll_flatMap fun function member =>
    ⟨fits.codes function (Array.mem_toList_iff.mp member), _, flagsOf_closure function, rfl⟩

/-- Behind the header the tables are read, and nothing may follow them. -/
theorem read_marked (first second : UInt8) (bytes : List UInt8) :
    Image.read (hostWordSize :: order.marker :: first :: second :: bytes) =
      readTables (bytes.length + 4) order bytes >>= fun (program, rest) =>
        if rest.isEmpty then .ok ⟨wide order, program⟩ else .error (.trailingBytes rest.length) := by
  cases order <;> rfl

/-- An image that is read starts with a header. -/
theorem read_eq_ok {bytes : List UInt8} {image : Image} (read : Image.read bytes = .ok image) :
    ∃ order first second body, image.header = wide order ∧
      bytes = hostWordSize :: order.marker :: first :: second :: body ∧
        readTables bytes.length order body = .ok (image.program, []) := by
  unfold Image.read at read
  split at read
  · rename_i wordSize marker first second body
    have behind (order : ByteOrder)
        (here : (readTables (wordSize :: marker :: first :: second :: body).length order body >>=
          fun (program, rest) =>
            if rest.isEmpty then .ok { header := ⟨wordSize, order⟩, program }
            else .error (.trailingBytes rest.length) : Except ImageFault Image) = .ok image) :
        image.header = ⟨wordSize, order⟩ ∧
          readTables (wordSize :: marker :: first :: second :: body).length order body =
            .ok (image.program, []) := by
      cases tables : readTables (wordSize :: marker :: first :: second :: body).length order body with
      | error fault =>
          rw [tables] at here
          cases here
      | ok outcome =>
          obtain ⟨program, rest⟩ := outcome
          rw [tables] at here
          change (if rest.isEmpty then _ else _) = _ at here
          cases rest with
          | nil =>
              injection here with same
              subst same
              exact ⟨rfl, rfl⟩
          | cons byte more => cases here
    split at read
    · cases read
    rename_i host
    have host : wordSize = hostWordSize := Decidable.not_not.mp host
    subst host
    simp only at read
    split at read
    · rename_i little
      obtain ⟨header, tables⟩ := behind .little read
      exact ⟨.little, first, second, body, header, by rw [little]; rfl, tables⟩
    split at read
    · rename_i big
      obtain ⟨header, tables⟩ := behind .big read
      exact ⟨.big, first, second, body, header, by rw [big]; rfl, tables⟩
    · cases read
  · cases read

/-! ## What matters of the bytes -/

/-- Which bits of a function's bytes matter: of its flags but one. -/
def significantOf (function : FunctionDef) : List UInt8 :=
  List.replicate 6 0xFF ++ order.write 2 closureFlag.toNat ++
    List.replicate (8 + function.code.size) 0xFF

/-- Which bits of an image's bytes matter: not those of the third and fourth byte, and of the flags
of each function but one. -/
def significant (image : Image) : List UInt8 :=
  [0xFF, 0xFF, 0, 0] ++ (List.replicate 24 0xFF ++
    (image.program.numbers.toList.flatMap (fun _ => List.replicate 8 0xFF) ++
      (image.program.strings.toList.flatMap
          (fun text => List.replicate (8 + text.utf8ByteSize) 0xFF) ++
        image.program.functions.toList.flatMap (significantOf image.header.byteOrder))))

/-- Bytes with only some of their bits. -/
def masked (bytes mask : List UInt8) : List UInt8 := bytes.zipWith (· &&& ·) mask

/-- Bytes may be masked in two parts. -/
theorem masked_append {one two mask mask' : List UInt8} (same : one.length = mask.length) :
    masked (one ++ two) (mask ++ mask') = masked one mask ++ masked two mask' :=
  List.zipWith_append same

/-- A full mask hides nothing. -/
theorem masked_whole {bytes : List UInt8} {size : Nat} (same : bytes.length = size) :
    masked bytes (List.replicate size 0xFF) = bytes := by
  subst same
  induction bytes with
  | nil => rfl
  | cons byte rest ih =>
      have whole : byte &&& 0xFF = byte := by
        rw [← UInt8.toNat_inj, UInt8.toNat_and]
        exact Nat.and_two_pow_sub_one_of_lt_two_pow byte.toNat_lt
      rw [List.length_cons, List.replicate_succ, masked, List.zipWith_cons_cons, whole]
      exact congrArg _ ih

/-- A number that is masked byte by byte is masked. -/
theorem masked_littleBytes (width value mask : Nat) :
    masked (ByteOrder.littleBytes width value) (ByteOrder.littleBytes width mask) =
      ByteOrder.littleBytes width (value &&& mask) := by
  induction width generalizing value mask with
  | zero => rfl
  | succ width ih =>
      have lower : UInt8.ofNat (value % 256) &&& UInt8.ofNat (mask % 256) =
          UInt8.ofNat ((value &&& mask) % 256) := by
        rw [← UInt8.toNat_inj, UInt8.toNat_and]
        simp only [UInt8.toNat_ofNat', Nat.mod_mod]
        exact (Nat.and_mod_two_pow (n := 8)).symm
      have upper : (value &&& mask) / 256 = value / 256 &&& mask / 256 :=
        Nat.and_div_two_pow (n := 8)
      rw [ByteOrder.littleBytes, ByteOrder.littleBytes, ByteOrder.littleBytes, masked,
        List.zipWith_cons_cons, lower, upper]
      exact congrArg _ (ih _ _)

/-- Masking the bytes of a number masks the number. -/
theorem masked_write (width value mask : Nat) :
    masked (order.write width value) (order.write width mask) =
      order.write width (value &&& mask) := by
  cases order with
  | little => exact masked_littleBytes width value mask
  | big =>
      have same : (ByteOrder.littleBytes width value).length =
          (ByteOrder.littleBytes width mask).length := by
        rw [ByteOrder.length_littleBytes, ByteOrder.length_littleBytes]
      rw [ByteOrder.write, ByteOrder.write, ByteOrder.write, masked, ← List.reverse_zipWith same]
      exact congrArg List.reverse (masked_littleBytes width value mask)

/-- A byte sequence of a certain length, of which some bits are those of another one. -/
structure Shows (mask bytes front : List UInt8) : Prop where
  length : front.length = mask.length
  bytes : masked front mask = bytes

theorem Shows.append {mask mask' bytes bytes' front front' : List UInt8}
    (one : Shows mask bytes front) (two : Shows mask' bytes' front') :
    Shows (mask ++ mask') (bytes ++ bytes') (front ++ front') :=
  ⟨by rw [List.length_append, List.length_append, one.length, two.length],
    by rw [masked_append one.length, one.bytes, two.bytes]⟩

/-- Bytes show themselves. -/
theorem shows_whole (bytes : List UInt8) {size : Nat} (same : bytes.length = size) :
    Shows (List.replicate size 0xFF) bytes bytes :=
  ⟨by rw [List.length_replicate, same], masked_whole same⟩

/-- Entries in a row show what each of them does. -/
theorem SpellsAll.shows {α : Type} {spells : Spelling α} {items : List α} {front : List UInt8}
    (all : SpellsAll spells items front) (mask bytes : α → List UInt8)
    (each : ∀ item front, spells item front → Shows (mask item) (bytes item) front) :
    Shows (items.flatMap mask) (items.flatMap bytes) front := by
  induction all with
  | nil => exact ⟨rfl, rfl⟩
  | cons here _ ih =>
      rw [List.flatMap_cons, List.flatMap_cons]
      exact (each _ _ here).append ih

/-- A string shows all of its bytes. -/
theorem SpellsString.shows {text : String} {front : List UInt8}
    (spells : SpellsString order text front) :
    Shows (List.replicate (8 + text.utf8ByteSize) 0xFF) (stringBytes order text) front := by
  rw [spells.bytes]
  exact shows_whole _ (by rw [stringBytes, List.length_append, order.length_write, length_encode])

/-- A function shows all that is significant. -/
theorem SpellsFunction.shows {function : FunctionDef} {front : List UInt8}
    (spells : SpellsFunction order function front) :
    Shows (significantOf order function) (functionBytes order function (flagsOf function)) front := by
  obtain ⟨-, flags, closure, rfl⟩ := spells
  have kept : flags &&& closureFlag = flagsOf function := by
    have bit : (flags &&& closureFlag).toNat = flags.toNat % 2 := by
      rw [UInt16.toNat_and]
      exact Nat.and_one_is_mod _
    rw [flagsOf, closure, ← UInt16.toNat_inj]
    rcases Nat.mod_two_eq_zero_or_one flags.toNat with even | odd
    · have zero : flags &&& closureFlag = 0 := UInt16.toNat_inj.mp (bit.trans even)
      rw [zero]
      rfl
    · have one : flags &&& closureFlag = 1 := UInt16.toNat_inj.mp (bit.trans odd)
      rw [one]
      rfl
  have middle : Shows (order.write 2 closureFlag.toNat) (order.write 2 (flagsOf function).toNat)
      (order.write 2 flags.toNat) :=
    ⟨by rw [order.length_write, order.length_write],
      by rw [masked_write, ← UInt16.toNat_and, kept]⟩
  have start := @shows_whole (order.write 2 function.varCount.toNat ++
    order.write 2 function.argCount.toNat ++ order.write 2 function.stackHigh.toNat) 6
    (by simp only [List.length_append, order.length_write])
  have behind := @shows_whole (order.write 8 function.code.size ++ function.code.toList)
    (8 + function.code.size)
    (by simp only [List.length_append, order.length_write, Array.length_toList])
  simpa only [functionBytes, significantOf, List.append_assoc] using
    (start.append middle).append behind

/-- The bytes of a program show those that are written for it. -/
theorem SpellsProgram.shows {program : Program} {numbers strings functions : List UInt8}
    (spells : SpellsProgram order program numbers strings functions) (first second : UInt8) :
    Shows (significant ⟨wide order, program⟩)
      (hostWordSize :: order.marker :: 0 :: 0 :: bodyBytes order program)
      (hostWordSize :: order.marker :: first :: second ::
        (countBytes order program ++ (numbers ++ (strings ++ functions)))) := by
  have reserved : Shows [0, 0] [0, 0] [first, second] := ⟨rfl, by simp [masked]⟩
  have header := (shows_whole [hostWordSize, order.marker] rfl).append reserved
  have counts := @shows_whole (countBytes order program) 24
    (by simp only [countBytes, List.length_append, order.length_write])
  have numbers := spells.numbers.shows (fun _ => List.replicate 8 0xFF)
    (fun number => order.write 8 number.bits.toNat) fun number front same => by
      subst same
      exact shows_whole _ (order.length_write 8 _)
  have strings := spells.strings.shows _ (stringBytes order) fun _ _ here => here.shows
  have functions := spells.functions.shows _ _ fun _ _ here => here.shows
  exact header.append (counts.append (numbers.append (strings.append functions)))

end Image

end PocketScript
