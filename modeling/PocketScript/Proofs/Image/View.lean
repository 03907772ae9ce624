import PocketScript.Proofs.Image.RoundTrip

/-!
# Images in place

An image need not be copied to be used: it is enough to note where its tables lie in its bytes, and
to look there when an entry is asked for. Such a walk over the bytes asks for some of them by their
place, and multiplies counts that it found in them, so it might leave the image (`Image.Stop.outside`).
It never does: it refuses what is refused otherwise, and the entries it finds are those of the
program that is read (`Image.view_load`).
-/

namespace PocketScript

namespace Image

/-- Why a walk over the bytes of an image ends early. -/
inductive Stop where
  | refused (fault : ImageFault)
  /-- A place behind the image's last byte, or a number that no word holds. -/
  | outside
  deriving DecidableEq

/-- A walk starts at a place and ends at another one. -/
abbrev Walk (α : Type) := Nat → Except Stop (α × Nat)

variable {α β : Type} (data : List UInt8) (order : ByteOrder)

/-- So many bytes from a place on. -/
def slice (start count : Nat) : Except Stop (List UInt8) :=
  if start + count ≤ data.length then .ok ((data.drop start).take count) else .error .outside

/-- The bytes from a place on, in number. -/
def left (place : Nat) : Except Stop Nat :=
  if place ≤ data.length then .ok (data.length - place) else .error .outside

def walkBytes (count : Nat) : Walk (List UInt8) := fun place => do
  let left ← left data place
  if left < count then .error (.refused (.truncated data.length))
  else
    let bytes ← slice data place count
    .ok (bytes, place + count)

def walkNat (width : Nat) : Walk Nat := fun place => do
  let (bytes, place) ← walkBytes data width place
  .ok (order.read bytes, place)

def walkShort : Walk UInt16 := fun place => do
  let (value, place) ← walkNat data order 2 place
  .ok (UInt16.ofNat value, place)

def walkWord : Walk Nat := walkNat data order hostWordSize.toNat

/-- Refuses a table of which not even the smallest entries find room. -/
def checkCount (count entrySize place : Nat) : Except Stop Unit := do
  let left ← left data place
  if count * entrySize < wordLimit ∧ count * entrySize ≤ left then .ok ()
  else .error (.refused (.countOverflow count))

/-- Numbers are passed over; where they lie is noted. -/
def walkNumbers (count : Nat) : Walk Nat := fun place => do
  checkCount data count 8 place
  if count * 8 < wordLimit ∧ place + count * 8 ≤ data.length then .ok (place, place + count * 8)
  else .error .outside

/-- Where the bytes of a string lie, and how many there are. -/
def walkString (index : Nat) : Walk (Nat × Nat) := fun place => do
  let (size, start) ← walkWord data order place
  let (body, place) ← walkBytes data size start
  if (textOf? body).isNone then .error (.refused (.invalidString index))
  else .ok ((start, size), place)

/-- A function in an image: its header, and where its code lies. -/
structure FunctionEntry where
  varCount : UInt16
  argCount : UInt16
  stackHigh : UInt16
  flags : UInt16
  start : Nat
  size : Nat

def walkFunction (_ : Nat) : Walk FunctionEntry := fun place => do
  let (varCount, place) ← walkShort data order place
  let (argCount, place) ← walkShort data order place
  let (stackHigh, place) ← walkShort data order place
  let (flags, place) ← walkShort data order place
  let (size, start) ← walkWord data order place
  let (_, place) ← walkBytes data size start
  .ok ({ varCount, argCount, stackHigh, flags, start, size }, place)

def walkMany (entry : Nat → Walk α) (found : Array α) : Nat → Walk (Array α)
  | 0, place => .ok (found, place)
  | count + 1, place => do
      let (item, place) ← entry found.size place
      walkMany entry (found.push item) count place

def walkTable (count entrySize : Nat) (entry : Nat → Walk α) : Walk (Array α) := fun place => do
  checkCount data count entrySize place
  walkMany entry #[] count place

/-- Where the tables of an image lie. -/
structure View where
  header : ImageHeader
  numbersStart : Nat
  numberCount : Nat
  strings : Array (Nat × Nat)
  functions : Array FunctionEntry

namespace View

/-- Walks over the tables behind the header. -/
def walk (header : ImageHeader) : Walk View := fun place => do
  let order := header.byteOrder
  let (numberCount, place) ← walkWord data order place
  let (stringCount, place) ← walkWord data order place
  let (functionCount, place) ← walkWord data order place
  let (numbersStart, place) ← walkNumbers data numberCount place
  let (strings, place) ← walkTable data stringCount 8 (walkString data order) place
  let (functions, place) ← walkTable data functionCount 16 (walkFunction data order) place
  .ok ({ header, numbersStart, numberCount, strings, functions }, place)

/-- Walks over the tables behind the header, which nothing may follow. -/
def loadBehind (header : ImageHeader) : Except Stop View := do
  let (view, place) ← walk data header 4
  let left ← left data place
  if left = 0 then .ok view else .error (.refused (.trailingBytes left))

/-- Walks over an image. -/
def load : Except Stop View :=
  match data with
  | wordSize :: marker :: _ :: _ :: _ =>
      if wordSize ≠ hostWordSize then .error (.refused (.wordSize wordSize))
      else if marker = 0 then loadBehind data ⟨wordSize, .little⟩
      else if marker = 1 then loadBehind data ⟨wordSize, .big⟩
      else .error (.refused (.byteOrder marker))
  | _ => .error (.refused (.truncated data.length))

variable (view : View)

/-- The number with an index. -/
def number? (index : Nat) : Except Stop (Option Number) := do
  if view.numberCount ≤ index then .ok none
  else
    let bytes ← slice data (view.numbersStart + index * 8) 8
    .ok (some ⟨UInt64.ofNat (view.header.byteOrder.read bytes)⟩)

/-- The text with an index. -/
def string? (index : Nat) : Except Stop (Option String) :=
  match view.strings[index]? with
  | none => .ok none
  | some (start, size) => do
      let body ← slice data start size
      .ok (Utf8.decode? body)

/-- The function with an index. -/
def function? (index : Nat) : Except Stop (Option FunctionDef) :=
  match view.functions[index]? with
  | none => .ok none
  | some entry => do
      let code ← slice data entry.start entry.size
      .ok (some
        { varCount := entry.varCount
          argCount := entry.argCount
          stackHigh := entry.stackHigh
          isClosure := entry.flags &&& closureFlag ≠ 0
          code := code.toArray })

end View

/-! ## A walk goes where a reader goes -/

/-- What a walk comes to, beside what a reader comes to: it refuses what the reader refuses, and ends
where the reader ends with something that agrees. -/
inductive Meets (agrees : α → β → Prop) :
    Except Stop (α × Nat) → Except ImageFault (β × List UInt8) → Prop where
  | refused (fault : ImageFault) : Meets agrees (.error (.refused fault)) (.error fault)
  | found {found : α} {item : β} {place : Nat} : place ≤ data.length → agrees found item →
      Meets agrees (.ok (found, place)) (.ok (item, data.drop place))

/-- A walk goes where a reader goes, from each place on. -/
def Follows (walk : Walk α) (reader : Reader β) (agrees : α → β → Prop) : Prop :=
  ∀ place, place ≤ data.length → Meets data agrees (walk place) (reader (data.drop place))

variable {data}

/-- A slice that lies inside is found. -/
theorem slice_eq {start count : Nat} (inside : start + count ≤ data.length) :
    slice data start count = .ok ((data.drop start).take count) := if_pos inside

theorem left_eq {place : Nat} (inside : place ≤ data.length) :
    left data place = .ok (data.length - place) := if_pos inside

/-- What meets in two parts meets as a whole. -/
theorem Meets.bind {γ δ : Type} {walked : Except Stop (α × Nat)}
    {read : Except ImageFault (β × List UInt8)} {agrees : α → β → Prop}
    {next : α × Nat → Except Stop (γ × Nat)}
    {next' : β × List UInt8 → Except ImageFault (δ × List UInt8)} {agrees' : γ → δ → Prop}
    (one : Meets data agrees walked read)
    (two : ∀ found item place, place ≤ data.length → agrees found item →
      Meets data agrees' (next (found, place)) (next' (item, data.drop place))) :
    Meets data agrees' (walked >>= next) (read >>= next') := by
  cases one with
  | refused fault => exact .refused fault
  | found inside agree => exact two _ _ _ inside agree

/-- Bytes that are walked over are read, and lie where the walk was. -/
theorem meets_bytes (count : Nat) {place : Nat} (inside : place ≤ data.length) :
    Meets data (fun found item => found = item ∧ place + count ≤ data.length ∧
        (data.drop place).take count = item)
      (walkBytes data count place) (readBytes data.length count (data.drop place)) := by
  rw [readBytes, walkBytes, left_eq inside, List.length_take, List.length_drop]
  simp only [Bind.bind, Except.bind]
  by_cases short : data.length - place < count
  · rw [if_pos short, if_neg (by omega)]
    exact .refused _
  · rw [if_neg short, if_pos (by omega), slice_eq (by omega), List.drop_drop]
    exact .found (by omega) ⟨rfl, by omega, rfl⟩

theorem follows_nat (width : Nat) :
    Follows data (walkNat data order width) (readNat data.length order width) Eq :=
  fun _ inside => (meets_bytes width inside).bind fun _ _ _ inside same =>
    .found inside (congrArg order.read same.1)

theorem follows_short : Follows data (walkShort data order) (readShort data.length order) Eq :=
  fun place inside => (follows_nat order 2 place inside).bind fun _ _ _ inside same =>
    .found inside (congrArg UInt16.ofNat same)

theorem follows_word : Follows data (walkWord data order) (readWord data.length order) Eq :=
  follows_nat order 8

/-- There are enough bytes for a table, or it is refused. -/
theorem checkCount_cases (small : data.length < wordLimit) (count entrySize : Nat) {place : Nat}
    (inside : place ≤ data.length) :
    count * entrySize ≤ (data.drop place).length ∧ checkCount data count entrySize place = .ok () ∨
      ¬ count * entrySize ≤ (data.drop place).length ∧
        checkCount data count entrySize place = .error (.refused (.countOverflow count)) := by
  rw [checkCount, left_eq inside, List.length_drop]
  by_cases enough : count * entrySize ≤ data.length - place
  · exact .inl ⟨enough, if_pos ⟨by omega, enough⟩⟩
  · exact .inr ⟨enough, if_neg fun both => enough both.2⟩

/-- Numbers are read wherever there are bytes enough. -/
theorem readMany_numbers (total : Nat) {count : Nat} (read : Array Number) {bytes : List UInt8}
    (enough : count * 8 ≤ bytes.length) :
    ∃ numbers : List Number, readMany (readNumber total order) read count bytes =
      .ok (read ++ numbers.toArray, bytes.drop (count * 8)) ∧ numbers.length = count ∧
        ∀ index number, numbers[index]? = some number →
          order.read ((bytes.drop (index * 8)).take 8) = number.bits.toNat := by
  induction count generalizing read bytes with
  | zero => exact ⟨[], by simp [readMany], rfl, fun index number there => by simp at there⟩
  | succ count ih =>
      have eight : (bytes.take 8).length = 8 := by
        rw [List.length_take]
        omega
      have entry : readNumber total order read.size bytes =
          .ok (⟨UInt64.ofNat (order.read (bytes.take 8))⟩, bytes.drop 8) := by
        rw [readNumber, readNat, readBytes, if_pos eight]
        rfl
      have less : count * 8 ≤ (bytes.drop 8).length := by
        rw [List.length_drop]
        omega
      obtain ⟨numbers, readRest, many, placed⟩ :=
        ih (read.push ⟨UInt64.ofNat (order.read (bytes.take 8))⟩) less
      refine ⟨⟨UInt64.ofNat (order.read (bytes.take 8))⟩ :: numbers, ?_, by simp [many], ?_⟩
      · rw [readMany, entry]
        dsimp only
        rw [readRest, List.drop_drop, show 8 + count * 8 = (count + 1) * 8 by omega]
        simp
      · intro index number there
        cases index with
        | zero =>
            have bound := order.read_lt (bytes.take 8)
            rw [eight] at bound
            injection there with same
            rw [← same, Nat.zero_mul, List.drop_zero]
            exact (UInt64.toNat_ofNat_of_lt' bound).symm
        | succ index =>
            rw [← placed index number there, List.drop_drop,
              show (index + 1) * 8 = 8 + index * 8 by omega]

/-- The numbers of a table, by the place where they lie. -/
def NumbersAt (data : List UInt8) (order : ByteOrder) (count start : Nat) (numbers : Array Number) :
    Prop :=
  numbers.size = count ∧ start + count * 8 ≤ data.length ∧
    ∀ (index : Nat) number, numbers[index]? = some number →
      order.read ((data.drop (start + index * 8)).take 8) = number.bits.toNat

/-- A table of numbers is found at the place where it starts. -/
theorem follows_numbers (small : data.length < wordLimit) (count : Nat) :
    Follows data (walkNumbers data count)
      (readTable count 8 (readNumber data.length order)) (NumbersAt data order count) := by
  intro place inside
  rw [readTable, walkNumbers]
  rcases checkCount_cases small count 8 inside with ⟨enough, passed⟩ | ⟨few, failed⟩
  · obtain ⟨numbers, read, many, placed⟩ :=
      readMany_numbers order data.length #[] enough
    rw [if_pos enough, passed, read]
    rw [List.length_drop] at enough
    have room : count * 8 < wordLimit ∧ place + count * 8 ≤ data.length := by omega
    simp only [Bind.bind, Except.bind]
    rw [if_pos room, List.drop_drop]
    refine .found room.2 ⟨by simpa using many, room.2, fun index number there => ?_⟩
    rw [← placed index number (by simpa using there), List.drop_drop]
  · rw [if_neg few, failed]
    exact .refused _

/-- The entries of two tables agree one by one. -/
structure AllAgree (agrees : α → β → Prop) (found : Array α) (read : Array β) : Prop where
  size : found.size = read.size
  each : ∀ (index : Nat) entry item, found[index]? = some entry → read[index]? = some item →
    agrees entry item

/-- Entries that agree may be added one by one. -/
theorem AllAgree.push {agrees : α → β → Prop} {found : Array α} {read : Array β} {entry : α}
    {item : β} (all : AllAgree agrees found read) (agree : agrees entry item) :
    AllAgree agrees (found.push entry) (read.push item) where
  size := by rw [Array.size_push, Array.size_push, all.size]
  each index other other' here there := by
    rw [Array.getElem?_push] at here there
    rw [all.size] at here
    split at here
    · rw [if_pos ‹_›] at there
      injection here with same
      injection there with same'
      exact same ▸ same' ▸ agree
    · rw [if_neg ‹_›] at there
      exact all.each index other other' here there

/-- Entries of different sizes are walked through one by one. -/
theorem follows_many {walkEntry : Nat → Walk α} {readEntry : Nat → Reader β}
    {agrees : α → β → Prop}
    (entry : ∀ index, Follows data (walkEntry index) (readEntry index) agrees) (count : Nat)
    {found : Array α} {read : Array β} (all : AllAgree agrees found read) :
    Follows data (walkMany walkEntry found count) (readMany readEntry read count)
      (AllAgree agrees) := by
  induction count generalizing found read with
  | zero => exact fun place inside => .found inside all
  | succ count ih =>
      intro place inside
      have here := entry read.size place inside
      rw [walkMany, readMany, all.size]
      generalize walkEntry read.size place = walked,
        readEntry read.size (data.drop place) = one at here ⊢
      cases here with
      | refused fault => exact .refused fault
      | found inside agree => exact ih (all.push agree) _ inside

theorem follows_table (small : data.length < wordLimit) {walkEntry : Nat → Walk α}
    {readEntry : Nat → Reader β} {agrees : α → β → Prop}
    (entry : ∀ index, Follows data (walkEntry index) (readEntry index) agrees)
    (count entrySize : Nat) :
    Follows data (walkTable data count entrySize walkEntry) (readTable count entrySize readEntry)
      (AllAgree agrees) := by
  intro place inside
  rw [readTable, walkTable]
  rcases checkCount_cases small count entrySize inside with ⟨enough, passed⟩ | ⟨few, failed⟩
  · rw [if_pos enough, passed]
    exact follows_many entry count ⟨rfl, fun _ _ _ here => by simp at here⟩ place inside
  · rw [if_neg few, failed]
    exact .refused _

/-- The text of a string, by the place where it lies. -/
def StringAt (data : List UInt8) (entry : Nat × Nat) (text : String) : Prop :=
  entry.1 + entry.2 ≤ data.length ∧ (data.drop entry.1).take entry.2 = Utf8.encode text

/-- A string is found by its place and its length. -/
theorem follows_string (index : Nat) :
    Follows data (walkString data order index) (readString data.length order index)
      (StringAt data) := by
  intro place inside
  rw [readString_eq, walkString]
  refine (follows_word order place inside).bind fun size _ place inside same => ?_
  subst same
  refine (meets_bytes size inside).bind fun body _ next inside same => ?_
  obtain ⟨rfl, whole, lies⟩ := same
  dsimp only
  cases text : textOf? body with
  | none => exact .refused _
  | some text => exact .found inside ⟨whole, lies.trans (textOf?_eq_some_iff.mp ‹_›).1⟩

/-- A function, by the place where its code lies. -/
structure FunctionAt (data : List UInt8) (entry : FunctionEntry) (function : FunctionDef) :
    Prop where
  varCount : entry.varCount = function.varCount
  argCount : entry.argCount = function.argCount
  stackHigh : entry.stackHigh = function.stackHigh
  isClosure : decide (entry.flags &&& closureFlag ≠ 0) = function.isClosure
  inside : entry.start + entry.size ≤ data.length
  code : (data.drop entry.start).take entry.size = function.code.toList

/-- And so is a function, by the place of its code. -/
theorem follows_function (index : Nat) :
    Follows data (walkFunction data order index) (readFunction data.length order index)
      (FunctionAt data) := by
  intro place inside
  rw [walkFunction, readFunction]
  refine (follows_short order place inside).bind fun varCount _ place inside same => ?_
  subst same
  refine (follows_short order place inside).bind fun argCount _ place inside same => ?_
  subst same
  refine (follows_short order place inside).bind fun stackHigh _ place inside same => ?_
  subst same
  refine (follows_short order place inside).bind fun flags _ place inside same => ?_
  subst same
  refine (follows_word order place inside).bind fun size _ place inside same => ?_
  subst same
  refine (meets_bytes size inside).bind fun code _ place inside same => ?_
  obtain ⟨rfl, whole, lies⟩ := same
  exact .found inside ⟨rfl, rfl, rfl, rfl, whole, lies⟩

/-! ## A view of an image -/

/-- What a view finds in the bytes is what a program holds. -/
structure Shown (data : List UInt8) (view : View) (image : Image) : Prop where
  header : view.header = image.header
  numbers : NumbersAt data image.header.byteOrder view.numberCount view.numbersStart
    image.program.numbers
  strings : AllAgree (StringAt data) view.strings image.program.strings
  functions : AllAgree (FunctionAt data) view.functions image.program.functions

/-- So the walk through an image follows its reading. -/
theorem follows_view (small : data.length < wordLimit) (header : ImageHeader) :
    Follows data (View.walk data header) (readTables data.length header.byteOrder)
      fun view program => Shown data view ⟨header, program⟩ := by
  intro place inside
  rw [View.walk, readTables]
  refine (follows_word _ place inside).bind fun numberCount _ place inside same => ?_
  subst same
  refine (follows_word _ place inside).bind fun stringCount _ place inside same => ?_
  subst same
  refine (follows_word _ place inside).bind fun functionCount _ place inside same => ?_
  subst same
  refine (follows_numbers _ small numberCount place inside).bind
    fun numbersStart numbers place inside numbersAt => ?_
  refine (follows_table small (follows_string _) stringCount 8 place inside).bind
    fun strings texts place inside stringsAt => ?_
  refine (follows_table small (follows_function _) functionCount 16 place inside).bind
    fun functions defs place inside functionsAt => ?_
  exact .found inside ⟨rfl, numbersAt, stringsAt, functionsAt⟩

/-- A number is read through the view as from the image. -/
theorem Shown.number? {view : View} {image : Image} (shown : Shown data view image) (index : Nat) :
    view.number? data index = .ok (image.number? index) := by
  obtain ⟨many, inside, placed⟩ := shown.numbers
  rw [View.number?, Image.number?]
  split
  · rename_i behind
    rw [Array.getElem?_eq_none (by omega)]
  · rename_i within
    have there : image.program.numbers[index]? = some image.program.numbers[index] :=
      Array.getElem?_eq_getElem (by omega)
    have bits := placed index _ there
    rw [slice_eq (by omega), there, shown.header]
    simp only [Bind.bind, Except.bind, bits, UInt64.ofNat_toNat]

/-- And so is a string. -/
theorem Shown.string? {view : View} {image : Image} (shown : Shown data view image) (index : Nat) :
    view.string? data index = .ok (image.string? index) := by
  rw [View.string?, Image.string?]
  split
  · rename_i none
    rw [Array.getElem?_eq_none_iff, shown.strings.size] at none
    rw [Array.getElem?_eq_none none]
  · rename_i start size found
    have inside := (Array.getElem?_eq_some_iff.mp found).1
    rw [shown.strings.size] at inside
    have there := Array.getElem?_eq_getElem inside
    obtain ⟨whole, lies⟩ := shown.strings.each index _ _ found there
    rw [slice_eq whole, there, lies]
    exact congrArg Except.ok (Utf8.decode?_eq_some_iff.mpr rfl)

/-- And so is a function. -/
theorem Shown.function? {view : View} {image : Image} (shown : Shown data view image)
    (index : Nat) : view.function? data index = .ok (image.function? index) := by
  rw [View.function?, Image.function?]
  split
  · rename_i none
    rw [Array.getElem?_eq_none_iff, shown.functions.size] at none
    rw [Array.getElem?_eq_none none]
  · rename_i entry found
    have inside := (Array.getElem?_eq_some_iff.mp found).1
    rw [shown.functions.size] at inside
    have there := Array.getElem?_eq_getElem inside
    obtain ⟨varCount, argCount, stackHigh, isClosure, whole, lies⟩ :=
      shown.functions.each index _ _ found there
    rw [slice_eq whole, there, lies]
    simp only [Bind.bind, Except.bind, varCount, argCount, stackHigh, isClosure]

/-- The entries that a view finds are those of an image, and there are no others. -/
structure View.Presents (data : List UInt8) (view : View) (image : Image) : Prop where
  header : view.header = image.header
  number? : ∀ index, view.number? data index = .ok (image.number? index)
  string? : ∀ index, view.string? data index = .ok (image.string? index)
  function? : ∀ index, view.function? data index = .ok (image.function? index)

/-- Whether an image is refused or read, a walk over it comes to the same. -/
def View.Mirrors (data : List UInt8) (loaded : Except Stop View)
    (read : Except ImageFault Image) : Prop :=
  match read with
  | .error fault => loaded = .error (.refused fault)
  | .ok image => ∃ view, loaded = .ok view ∧ view.Presents data image

/-- Behind the header a view is loaded where the tables are read. -/
theorem mirrors_loadBehind (small : data.length < wordLimit) (long : 4 ≤ data.length)
    (header : ImageHeader) :
    View.Mirrors data (View.loadBehind data header)
      (readTables data.length header.byteOrder (data.drop 4) >>= fun (program, rest) =>
        if rest.isEmpty then .ok { header, program } else .error (.trailingBytes rest.length)) := by
  have walked := follows_view small header 4 long
  unfold View.loadBehind
  generalize View.walk data header 4 = walk, readTables data.length header.byteOrder (data.drop 4) =
    read at walked ⊢
  cases walked with
  | refused fault => exact rfl
  | @found view program place inside shown =>
      simp only [Bind.bind, Except.bind, left_eq inside, List.isEmpty_iff, List.length_drop,
        List.drop_eq_nil_iff]
      by_cases whole : data.length ≤ place
      · rw [if_pos whole, if_pos (Nat.sub_eq_zero_of_le whole)]
        exact ⟨view, rfl, shown.header, shown.number?, shown.string?, shown.function?⟩
      · rw [if_neg whole, if_neg (by omega)]
        exact rfl

/-- A walk over an image never leaves it. -/
theorem mirrors_load (small : data.length < wordLimit) :
    View.Mirrors data (View.load data) (Image.read data) := by
  match data with
  | [] | [_] | [_, _] | [_, _, _] => exact rfl
  | wordSize :: marker :: first :: second :: rest =>
      have behind (order : ByteOrder) :=
        mirrors_loadBehind small (by simp) (⟨wordSize, order⟩ : ImageHeader)
      unfold View.load Image.read
      dsimp only
      split
      · exact rfl
      split
      · exact behind .little
      split
      · exact behind .big
      · exact rfl

end Image

end PocketScript
