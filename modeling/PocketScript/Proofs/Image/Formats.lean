import Mathlib.Algebra.Group.Nat.Defs
import PocketScript.Image
import PocketScript.Proofs.Text.Decoding

/-!
# The formats of an image

What a reader accepts is said by the byte sequences that spell an item (`Image.Format`): exactly
these are read as the item, whatever follows them, and a proper part of one of them is refused as
too short. Formats are put together as readers are, so the format of a whole program is that of its
words, numbers, strings and functions, one behind the other (`Image.format_tables`).
-/

namespace PocketScript

/-! ## Whole numbers -/

namespace ByteOrder

theorem length_littleBytes (width value : Nat) : (littleBytes width value).length = width := by
  induction width generalizing value with
  | zero => rfl
  | succ width ih => rw [littleBytes, List.length_cons, ih]

theorem littleValue_littleBytes {width value : Nat} (small : value < 256 ^ width) :
    littleValue (littleBytes width value) = value := by
  induction width generalizing value with
  | zero => exact (Nat.lt_one_iff.mp small).symm
  | succ width ih =>
      have lower : (UInt8.ofNat (value % 256)).toNat = value % 256 :=
        UInt8.toNat_ofNat_of_lt' (Nat.mod_lt _ (by decide))
      have upper : value / 256 < 256 ^ width :=
        Nat.div_lt_of_lt_mul (by rwa [Nat.mul_comm, ← Nat.pow_succ])
      rw [littleBytes, littleValue, lower, ih upper]
      exact Nat.mod_add_div _ _

theorem littleBytes_littleValue (bytes : List UInt8) :
    littleBytes bytes.length (littleValue bytes) = bytes := by
  induction bytes with
  | nil => rfl
  | cons byte rest ih =>
      have small := byte.toNat_lt
      rw [List.length_cons, littleValue, littleBytes,
        show (byte.toNat + 256 * littleValue rest) % 256 = byte.toNat by omega,
        show (byte.toNat + 256 * littleValue rest) / 256 = littleValue rest by omega, ih,
        UInt8.ofNat_toNat]

theorem littleValue_lt (bytes : List UInt8) : littleValue bytes < 256 ^ bytes.length := by
  induction bytes with
  | nil => exact Nat.one_pos
  | cons byte rest ih =>
      have small := byte.toNat_lt
      rw [littleValue, List.length_cons, Nat.pow_succ]
      omega

variable (order : ByteOrder)

theorem length_write (width value : Nat) : (order.write width value).length = width := by
  cases order with
  | little => exact length_littleBytes width value
  | big => rw [write, List.length_reverse, length_littleBytes]

/-- A number that was written is read. -/
theorem read_write {width value : Nat} (small : value < 256 ^ width) :
    order.read (order.write width value) = value := by
  cases order with
  | little => exact littleValue_littleBytes small
  | big => rw [read, write, List.reverse_reverse, littleValue_littleBytes small]

/-- Bytes are those of the number that they are read as. -/
theorem write_read (bytes : List UInt8) : order.write bytes.length (order.read bytes) = bytes := by
  cases order with
  | little => exact littleBytes_littleValue bytes
  | big =>
      rw [read, write, ← List.length_reverse, littleBytes_littleValue, List.reverse_reverse]

/-- And what is read fits. -/
theorem read_lt (bytes : List UInt8) : order.read bytes < 256 ^ bytes.length := by
  cases order with
  | little => exact littleValue_lt bytes
  | big =>
      rw [read, ← List.length_reverse]
      exact littleValue_lt bytes.reverse

end ByteOrder

/-! ## Formats -/

/-- The image ends too early, or cannot be as long as its tables claim. -/
def ImageFault.isShortage : ImageFault → Bool
  | truncated _ | countOverflow _ => true
  | _ => false

namespace Image

variable {α β : Type}

/-- A reader of an image, told the image's size. -/
abbrev Sized (α : Type) := Nat → Reader α

/-- The byte sequences that spell items. -/
abbrev Spelling (α : Type) := α → List UInt8 → Prop

/-- A reader accepts what is spelled and nothing else, and only as a whole. -/
structure Format (reader : Sized α) (spells : Spelling α) : Prop where
  reads : ∀ item front, spells item front → ∀ total rest,
    reader total (front ++ rest) = .ok (item, rest)
  short : ∀ item front, spells item front → ∀ total part more, front = part ++ more → more ≠ [] →
    ∃ fault, reader total part = .error fault ∧ fault.isShortage = true
  spelled : ∀ total bytes item rest, reader total bytes = .ok (item, rest) →
    ∃ front, bytes = front ++ rest ∧ spells item front

namespace Format

variable {reader : Sized α} {spells spells' : Spelling α}

/-- A format may be described in another way. -/
theorem congr (format : Format reader spells)
    (same : ∀ item front, spells item front ↔ spells' item front) : Format reader spells' where
  reads item front here := format.reads item front ((same item front).mpr here)
  short item front here := format.short item front ((same item front).mpr here)
  spelled total bytes item rest read := by
    obtain ⟨front, split, here⟩ := format.spelled total bytes item rest read
    exact ⟨front, split, (same item front).mp here⟩

/-- Nothing is read, and an item is there. -/
theorem pure (item : α) :
    Format (fun _ bytes => .ok (item, bytes)) fun other front => other = item ∧ front = [] where
  reads := by
    rintro other front ⟨rfl, rfl⟩ total rest
    rfl
  short := by
    rintro other front ⟨rfl, rfl⟩ total part more split long
    exact absurd (List.append_eq_nil_iff.mp split.symm).2 long
  spelled total bytes other rest read := by
    injection read with read
    injection read with same rest
    exact ⟨[], rest, same.symm, rfl⟩

/-- One reader behind another. -/
theorem bind {next : α → Sized β} {follows : α → Spelling β} (one : Format reader spells)
    (two : ∀ item front, spells item front → Format (next item) (follows item)) :
    Format (fun total bytes => reader total bytes >>= fun (item, rest) => next item total rest)
      fun result front => ∃ item start behind,
        spells item start ∧ follows item result behind ∧ front = start ++ behind where
  reads := by
    rintro result front ⟨item, start, behind, here, there, rfl⟩ total rest
    rw [List.append_assoc, one.reads item start here]
    exact (two item start here).reads result behind there total rest
  short := by
    rintro result front ⟨item, start, behind, here, there, rfl⟩ total part more split long
    rcases List.append_eq_append_iff.mp split with ⟨middle, rfl, rfl⟩ | ⟨middle, rfl, rfl⟩
    · rw [one.reads item start here]
      exact (two item start here).short result (middle ++ more) there total middle more rfl long
    · by_cases whole : middle = []
      · subst whole
        simp only [List.append_nil] at here ⊢
        have read := one.reads item part here total []
        rw [List.append_nil] at read
        rw [read]
        exact (two item part here).short result behind there total [] behind rfl (by simpa using long)
      · obtain ⟨fault, failed, shortage⟩ := one.short item _ here total part middle rfl whole
        exact ⟨fault, by rw [failed]; rfl, shortage⟩
  spelled total bytes result rest read := by
    cases first : reader total bytes with
    | error fault =>
        rw [first] at read
        cases read
    | ok outcome =>
        obtain ⟨item, more⟩ := outcome
        rw [first] at read
        obtain ⟨start, rfl, here⟩ := one.spelled total bytes item more first
        obtain ⟨behind, rfl, there⟩ := (two item start here).spelled total more result rest read
        exact ⟨start ++ behind, (List.append_assoc _ _ _).symm, item, start, behind, here, there,
          rfl⟩

/-- An item made of another one, when it can be. -/
theorem filterMap (make : α → Option β) (refusal : ImageFault) (format : Format reader spells) :
    Format (fun total bytes => reader total bytes >>= fun (item, rest) =>
        (make item).elim (.error refusal) fun result => .ok (result, rest))
      fun result front => ∃ item, spells item front ∧ make item = some result where
  reads := by
    rintro result front ⟨item, here, made⟩ total rest
    rw [format.reads item front here]
    change (make item).elim _ _ = _
    rw [made]
    rfl
  short := by
    rintro result front ⟨item, here, -⟩ total part more split long
    obtain ⟨fault, failed, shortage⟩ := format.short item front here total part more split long
    exact ⟨fault, by rw [failed]; rfl, shortage⟩
  spelled total bytes result rest read := by
    cases first : reader total bytes with
    | error fault =>
        rw [first] at read
        cases read
    | ok outcome =>
        obtain ⟨item, more⟩ := outcome
        rw [first] at read
        change (make item).elim _ _ = _ at read
        cases made : make item with
        | none =>
            rw [made] at read
            cases read
        | some other =>
            rw [made] at read
            injection read with read
            injection read with same rest
            subst same rest
            obtain ⟨front, split, here⟩ := format.spelled total bytes item more first
            exact ⟨front, split, item, here, made⟩

/-- An item made of another one. -/
theorem map (make : α → β) (format : Format reader spells) :
    Format (fun total bytes => reader total bytes >>= fun (item, rest) => .ok (make item, rest))
      fun result front => ∃ item, spells item front ∧ make item = result :=
  (format.filterMap (fun item => some (make item)) (.truncated 0)).congr fun result front => by
    simp only [Option.some.injEq]

end Format

/-- A fixed number of bytes. -/
theorem format_bytes (count : Nat) :
    Format (fun total => readBytes total count) fun item front =>
      item = front ∧ front.length = count where
  reads := by
    rintro item front ⟨rfl, rfl⟩ total rest
    rw [readBytes, List.take_left, if_pos rfl, List.drop_left]
  short := by
    rintro item front ⟨rfl, rfl⟩ total part more rfl long
    refine ⟨.truncated total, ?_, rfl⟩
    have positive := List.length_pos_iff.mpr long
    rw [readBytes, if_neg]
    rw [List.length_take, List.length_append]
    omega
  spelled total bytes item rest read := by
    rw [readBytes] at read
    split at read
    · injection read with read
      injection read with same rest
      subst same rest
      exact ⟨bytes.take count, (List.take_append_drop count bytes).symm, rfl, ‹_›⟩
    · cases read

variable (order : ByteOrder)

/-- A whole number in so many bytes. -/
theorem format_nat (width : Nat) :
    Format (fun total => readNat total order width) fun value front =>
      value < 256 ^ width ∧ front = order.write width value :=
  ((format_bytes width).map order.read).congr fun value front => by
    constructor
    · rintro ⟨item, ⟨rfl, rfl⟩, rfl⟩
      exact ⟨order.read_lt _, (order.write_read _).symm⟩
    · rintro ⟨small, rfl⟩
      exact ⟨_, ⟨rfl, order.length_write width value⟩, order.read_write small⟩

/-- Two bytes are a number of 16 bits. -/
theorem format_short :
    Format (fun total => readShort total order) fun value front =>
      front = order.write 2 value.toNat :=
  ((format_nat order 2).map UInt16.ofNat).congr fun value front => by
    constructor
    · rintro ⟨number, ⟨small, rfl⟩, rfl⟩
      rw [UInt16.toNat_ofNat_of_lt' small]
    · rintro rfl
      exact ⟨value.toNat, ⟨value.toNat_lt, rfl⟩, UInt16.ofNat_toNat⟩

/-- The numbers that a word holds. -/
def wordLimit : Nat := 256 ^ 8

theorem format_word :
    Format (fun total => readWord total order) fun value front =>
      value < wordLimit ∧ front = order.write 8 value :=
  format_nat order 8

/-- A number is spelled by its bits. -/
theorem format_number (index : Nat) :
    Format (fun total => readNumber total order index) fun number front =>
      front = order.write 8 number.bits.toNat :=
  ((format_nat order 8).map fun bits => (⟨UInt64.ofNat bits⟩ : Number)).congr fun number front => by
    constructor
    · rintro ⟨bits, ⟨small, rfl⟩, rfl⟩
      rw [UInt64.toNat_ofNat_of_lt' small]
    · rintro rfl
      exact ⟨number.bits.toNat, ⟨number.bits.toNat_lt, rfl⟩, by rw [UInt64.ofNat_toNat]⟩

/-! ## Strings and functions -/

/-- The text of a string constant's bytes. -/
def textOf? (body : List UInt8) : Option String :=
  (Utf8.decode? body).filter fun _ => !body.contains 0

theorem textOf?_eq_some_iff {body : List UInt8} {text : String} :
    textOf? body = some text ↔ body = Utf8.encode text ∧ Char.ofNat 0 ∉ text.toList := by
  rw [textOf?, Option.filter_eq_some_iff, Utf8.decode?_eq_some_iff]
  constructor
  · rintro ⟨rfl, free⟩
    refine ⟨rfl, fun member => ?_⟩
    simp [Utf8.zero_mem_encode.mpr member] at free
  · rintro ⟨rfl, free⟩
    refine ⟨rfl, ?_⟩
    simpa using fun member => free (Utf8.zero_mem_encode.mp member)

/-- A string constant: its length and its bytes. -/
structure SpellsString (text : String) (front : List UInt8) : Prop where
  small : (Utf8.encode text).length < wordLimit
  clean : Char.ofNat 0 ∉ text.toList
  bytes : front = order.write 8 (Utf8.encode text).length ++ Utf8.encode text

/-- A string is its length as a word and its bytes. -/
theorem readString_eq (total index : Nat) :
    readString total order index = fun bytes =>
      readWord total order bytes >>= fun (size, bytes) =>
        readBytes total size bytes >>= fun (body, rest) =>
          (textOf? body).elim (.error (.invalidString index)) fun text => .ok (text, rest) := by
  funext bytes
  refine congrArg (bind (readWord total order bytes)) (funext fun ⟨size, bytes⟩ => ?_)
  refine congrArg (bind (readBytes total size bytes)) (funext fun ⟨body, rest⟩ => ?_)
  simp only [textOf?]
  cases Utf8.decode? body with
  | none => rfl
  | some text =>
      simp only [Option.filter]
      cases body.contains 0 <;> rfl

/-- So strings have a format. -/
theorem format_string (index : Nat) :
    Format (fun total => readString total order index) (SpellsString order) := by
  rw [funext fun total => readString_eq order total index]
  refine ((format_word order).bind fun size _ _ =>
    (format_bytes size).filterMap textOf? (.invalidString index)).congr fun text front => ?_
  constructor
  · rintro ⟨size, _, _, ⟨small, rfl⟩, ⟨body, ⟨rfl, rfl⟩, made⟩, rfl⟩
    obtain ⟨rfl, clean⟩ := textOf?_eq_some_iff.mp made
    exact ⟨small, clean, rfl⟩
  · rintro ⟨small, clean, rfl⟩
    exact ⟨_, _, _, ⟨small, rfl⟩, ⟨_, ⟨rfl, rfl⟩, textOf?_eq_some_iff.mpr ⟨rfl, clean⟩⟩, rfl⟩

/-- The bytes of a function with certain flags. -/
def functionBytes (function : FunctionDef) (flags : UInt16) : List UInt8 :=
  order.write 2 function.varCount.toNat ++ order.write 2 function.argCount.toNat ++
    order.write 2 function.stackHigh.toNat ++ order.write 2 flags.toNat ++
      order.write 8 function.code.size ++ function.code.toList

/-- A function: all but one bit of its flags are free. -/
structure SpellsFunction (function : FunctionDef) (front : List UInt8) : Prop where
  small : function.code.size < wordLimit
  bytes : ∃ flags, function.isClosure = decide (flags &&& closureFlag ≠ 0) ∧
    front = functionBytes order function flags

/-- And so have functions. -/
theorem format_function (index : Nat) :
    Format (fun total => readFunction total order index) (SpellsFunction order) := by
  refine ((format_short order).bind fun varCount _ _ =>
    (format_short order).bind fun argCount _ _ =>
      (format_short order).bind fun stackHigh _ _ =>
        (format_short order).bind fun flags _ _ =>
          (format_word order).bind fun size _ _ =>
            (format_bytes size).map fun code : List UInt8 =>
              ({ varCount, argCount, stackHigh, isClosure := flags &&& closureFlag ≠ 0,
                 code := code.toArray } : FunctionDef)).congr fun function front => ?_
  constructor
  · rintro ⟨varCount, _, _, rfl, ⟨argCount, _, _, rfl, ⟨stackHigh, _, _, rfl, ⟨flags, _, _, rfl,
      ⟨size, _, _, ⟨small, rfl⟩, ⟨code, ⟨rfl, rfl⟩, rfl⟩, rfl⟩, rfl⟩, rfl⟩, rfl⟩, rfl⟩
    exact ⟨by simpa using small, flags, rfl, by simp [functionBytes]⟩
  · rintro ⟨small, flags, closure, rfl⟩
    refine ⟨function.varCount, _, _, rfl, ⟨function.argCount, _, _, rfl, ⟨function.stackHigh, _, _,
      rfl, ⟨flags, _, _, rfl, ⟨function.code.size, _, _, ⟨small, rfl⟩, ⟨function.code.toList,
        ⟨rfl, by simp⟩, ?_⟩, rfl⟩, rfl⟩, rfl⟩, rfl⟩, by simp [functionBytes]⟩
    rw [← closure]

/-! ## Tables -/

/-- Items one behind the other. -/
inductive SpellsAll (spells : Spelling α) : List α → List UInt8 → Prop where
  | nil : SpellsAll spells [] []
  | cons {item : α} {rest : List α} {start behind : List UInt8} :
      spells item start → SpellsAll spells rest behind →
        SpellsAll spells (item :: rest) (start ++ behind)

/-- The items that are still to be read. -/
theorem format_many {entry : Nat → Sized α} {spells : Spelling α}
    (format : ∀ index, Format (entry index) spells) (count : Nat) (read : Array α) :
    Format (fun total => readMany (fun index => entry index total) read count) fun items front =>
      ∃ more, items = read ++ more.toArray ∧ more.length = count ∧ SpellsAll spells more front := by
  induction count generalizing read with
  | zero =>
      refine (Format.pure read).congr fun items front => ?_
      constructor
      · rintro ⟨rfl, rfl⟩
        exact ⟨[], by simp, rfl, .nil⟩
      · rintro ⟨more, rfl, none, all⟩
        obtain rfl := List.length_eq_zero_iff.mp none
        cases all
        exact ⟨by simp, rfl⟩
  | succ count ih =>
      have step : (fun total => readMany (fun index => entry index total) read (count + 1)) =
          fun total bytes => entry read.size total bytes >>= fun (item, rest) =>
            readMany (fun index => entry index total) (read.push item) count rest := by
        funext total bytes
        rw [readMany]
        cases entry read.size total bytes with
        | error fault => rfl
        | ok outcome => rfl
      rw [step]
      refine ((format read.size).bind fun item _ _ => ih (read.push item)).congr fun items front => ?_
      constructor
      · rintro ⟨item, start, behind, here, ⟨more, rfl, rfl, all⟩, rfl⟩
        exact ⟨item :: more, by simp, rfl, .cons here all⟩
      · rintro ⟨more, rfl, many, all⟩
        cases all with
        | nil => cases many
        | @cons item more start behind here all =>
            exact ⟨item, start, behind, here, ⟨more, by simp, by simpa using many, all⟩, rfl⟩

/-- So many items one behind the other. -/
structure SpellsTable (spells : Spelling α) (count : Nat) (items : Array α) (front : List UInt8) :
    Prop where
  count : items.size = count
  all : SpellsAll spells items.toList front

theorem SpellsAll.length_le {spells : Spelling α} {entrySize : Nat}
    (long : ∀ item front, spells item front → entrySize ≤ front.length) {items : List α}
    {front : List UInt8} (all : SpellsAll spells items front) :
    items.length * entrySize ≤ front.length := by
  induction all with
  | nil => simp
  | cons here _ ih =>
      have first := long _ _ here
      rw [List.length_cons, List.length_append, Nat.succ_mul]
      omega

/-- A table is long enough for its smallest entries. -/
theorem format_table {entry : Nat → Sized α} {spells : Spelling α}
    (format : ∀ index, Format (entry index) spells) (count entrySize : Nat)
    (long : ∀ item front, spells item front → entrySize ≤ front.length) :
    Format (fun total => readTable count entrySize fun index => entry index total)
      (SpellsTable spells count) := by
  have many : Format (fun total => readMany (fun index => entry index total) #[] count)
      (SpellsTable spells count) := (format_many format count #[]).congr fun items front => by
    constructor
    · rintro ⟨more, rfl, rfl, all⟩
      exact ⟨by simp, by simpa using all⟩
    · rintro ⟨rfl, all⟩
      exact ⟨items.toList, by simp, by simp, all⟩
  refine ⟨fun items front here total rest => ?_, fun items front here total part more split above => ?_,
    fun total bytes items rest read => ?_⟩
  · have enough := here.all.length_le long
    rw [Array.length_toList, here.count] at enough
    rw [readTable, if_pos, many.reads items front here]
    rw [List.length_append]
    omega
  · rw [readTable]
    split
    · exact many.short items front here total part more split above
    · exact ⟨_, rfl, rfl⟩
  · rw [readTable] at read
    split at read
    · exact many.spelled total bytes items rest read
    · cases read

/-! ## Programs -/

/-- The tables of a program behind their counts. -/
structure SpellsProgram (program : Program) (numbers strings functions : List UInt8) : Prop where
  numberCount : program.numbers.size < wordLimit
  stringCount : program.strings.size < wordLimit
  functionCount : program.functions.size < wordLimit
  numbers : SpellsAll (fun (number : Number) front => front = order.write 8 number.bits.toNat)
    program.numbers.toList numbers
  strings : SpellsAll (SpellsString order) program.strings.toList strings
  functions : SpellsAll (SpellsFunction order) program.functions.toList functions

theorem SpellsString.length {text : String} {front : List UInt8}
    (spells : SpellsString order text front) : 8 ≤ front.length := by
  rw [spells.bytes, List.length_append, order.length_write]
  omega

theorem length_functionBytes (function : FunctionDef) (flags : UInt16) :
    (functionBytes order function flags).length = 16 + function.code.size := by
  simp only [functionBytes, List.length_append, order.length_write, Array.length_toList]

theorem SpellsFunction.length {function : FunctionDef} {front : List UInt8}
    (spells : SpellsFunction order function front) : 16 ≤ front.length := by
  obtain ⟨-, flags, -, rfl⟩ := spells
  rw [length_functionBytes]
  omega

/-- The counts of a program's tables. -/
def countBytes (program : Program) : List UInt8 :=
  order.write 8 program.numbers.size ++ order.write 8 program.strings.size ++
    order.write 8 program.functions.size

/-- The counts of an image are followed by its tables. -/
theorem format_tables :
    Format (fun total => readTables total order) fun program front =>
      ∃ numbers strings functions, SpellsProgram order program numbers strings functions ∧
        front = countBytes order program ++ (numbers ++ (strings ++ functions)) := by
  refine ((format_word order).bind fun numberCount _ _ =>
    (format_word order).bind fun stringCount _ _ =>
      (format_word order).bind fun functionCount _ _ =>
        (format_table (format_number order) numberCount 8 ?_).bind fun numbers _ _ =>
          (format_table (format_string order) stringCount 8 ?_).bind
            fun strings _ _ =>
              (format_table (format_function order) functionCount 16 ?_).map
                fun functions => ({ numbers, strings, functions } : Program)).congr
                  fun program front => ?_
  · rintro number front rfl
    exact Nat.le_of_eq (order.length_write 8 _).symm
  · exact fun text front here => here.length
  · exact fun function front here => here.length
  constructor
  · rintro ⟨_, _, _, ⟨fewNumbers, rfl⟩, ⟨_, _, _, ⟨fewStrings, rfl⟩, ⟨_, _, _, ⟨fewFunctions, rfl⟩,
      ⟨numbers, _, _, ⟨rfl, allNumbers⟩, ⟨strings, _, _, ⟨rfl, allStrings⟩, ⟨functions,
        ⟨rfl, allFunctions⟩, rfl⟩, rfl⟩, rfl⟩, rfl⟩, rfl⟩, rfl⟩
    exact ⟨_, _, _, ⟨fewNumbers, fewStrings, fewFunctions, allNumbers, allStrings, allFunctions⟩,
      by simp [countBytes]⟩
  · rintro ⟨numbers, strings, functions, spells, rfl⟩
    exact ⟨_, _, _, ⟨spells.numberCount, rfl⟩, ⟨_, _, _, ⟨spells.stringCount, rfl⟩, ⟨_, _, _,
      ⟨spells.functionCount, rfl⟩, ⟨program.numbers, _, _, ⟨rfl, spells.numbers⟩,
        ⟨program.strings, _, _, ⟨rfl, spells.strings⟩, ⟨program.functions,
          ⟨rfl, spells.functions⟩, rfl⟩, rfl⟩, rfl⟩, rfl⟩, rfl⟩, by simp [countBytes]⟩

end Image

end PocketScript
