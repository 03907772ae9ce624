import PocketScript.Proofs.Code.Gathered
import PocketScript.Proofs.Compile.Catalogued

/-!
# Which instruction accesses which variable

The instructions of a function that access variables, counted from the beginning of its code, stand for
the mentions of variables in the text of the function, in the same order (`Listing.mention?`). Each of
them accesses the place of the variable that is mentioned (`Catalog.Codes.accesses`), and an instruction
that makes a closure finds the cells of the variables that the closure captures, pushed in a row in front
of it (`Catalog.Codes.creates`).
-/

namespace PocketScript

/-- The instruction stands for the mention of a variable. -/
def Role.isAccess : Role → Bool
  | load _ _ | store _ _ | declare _ => true
  | _ => false

/-- The variables that were pushed in a row, behind an instruction. -/
def Role.gatheredAfter (sources : List CaptureSource) : Role → List CaptureSource
  | gather source => sources ++ [source]
  | _ => []

namespace Listing

/-- How many instructions in front of an offset access variables. -/
def accessesBefore (listing : Listing) (pc : Nat) : Nat :=
  ((listing.takeWhile (·.1 < pc)).map (·.2.role)).countP (·.isAccess)

/-- The mention for which the instruction at an offset stands, if it accesses a variable. -/
def mention? (listing : Listing) (mentions : List Mention) (pc : Nat) : Option Mention := do
  let instr ← listing.lookup pc
  if instr.role.isAccess then mentions[listing.accessesBefore pc]? else none

/-- The variables whose cells the instructions right in front of an offset push. -/
def sources (listing : Listing) (pc : Nat) : List CaptureSource :=
  ((listing.takeWhile (·.1 < pc)).map (·.2.role)).foldl Role.gatheredAfter []

end Listing

theorem Instruction.length_gatheredAfter (sources : List CaptureSource) (instr : Instruction) :
    (instr.role.gatheredAfter sources).length = instr.cellsAfter sources.length := by
  obtain ⟨op, a, b⟩ := instr
  cases op <;> simp [role, Opcode.role, Role.gatheredAfter, cellsAfter, Opcode.pushesCell]

/-- There are as many of them as there are cells. -/
theorem Listing.length_sources (listing : Listing) (pc : Nat) :
    (listing.sources pc).length = listing.gathered pc := by
  have count (sources : List CaptureSource) (instructions : List (Nat × Instruction)) :
      ((instructions.map (·.2.role)).foldl Role.gatheredAfter sources).length =
        (instructions.map (·.2)).foldl Instruction.cellsAfter sources.length := by
    induction instructions generalizing sources with
    | nil => rfl
    | cons first rest ih =>
        simp only [List.map_cons, List.foldl_cons]
        rw [ih, first.2.length_gatheredAfter]
  exact count [] _

namespace Catalog

variable {catalog : Catalog} {sheet : Sheet} {scopes : List (List String)} {roles : List Role}
  {mentions : List Mention} {role : Role} {position : Nat} {function count : UInt16}

theorem Accesses.isAccess {mention : Mention} (accesses : catalog.Accesses sheet scopes role mention) :
    role.isAccess = true := by
  cases accesses <;> rfl

/-- Where an instruction may stand in code that makes a closure first. -/
theorem closure_cases {sources : List CaptureSource} {create : Role}
    (found : (sources.map Role.gather ++ create :: roles)[position]? = some role) :
    (∃ source, role = .gather source) ∨
      (role = create ∧
        (sources.map Role.gather ++ create :: roles).take position = sources.map Role.gather) ∨
        ∃ behind, roles[behind]? = some role ∧
          (sources.map Role.gather ++ create :: roles).take position =
            sources.map Role.gather ++ create :: roles.take behind := by
  by_cases inside : position < sources.length
  · rw [List.getElem?_append_left (by rwa [List.length_map]), List.getElem?_map] at found
    obtain ⟨source, -, rfl⟩ := Option.map_eq_some_iff.mp found
    exact .inl ⟨source, rfl⟩
  obtain ⟨behind, rfl⟩ := Nat.exists_eq_add_of_le (Nat.le_of_not_lt inside)
  rw [List.getElem?_append_right (by rw [List.length_map]; omega), List.length_map,
    Nat.add_sub_cancel_left] at found
  rw [List.take_append, List.length_map, Nat.add_sub_cancel_left, List.take_of_length_le
    (by rw [List.length_map]; omega)]
  cases behind with
  | zero =>
      cases found
      exact .inr (.inl ⟨rfl, List.append_nil _⟩)
  | succ behind => exact .inr (.inr ⟨behind, found, rfl⟩)

theorem countP_gather (sources : List CaptureSource) :
    (sources.map Role.gather).countP (·.isAccess) = 0 := by
  rw [List.countP_eq_zero]
  intro role member
  obtain ⟨source, -, rfl⟩ := List.mem_map.mp member
  simp [Role.isAccess]

/-- Each access is one to the variable that is mentioned in the same place. -/
theorem Spells.accesses (spells : catalog.Spells sheet scopes roles mentions)
    (found : roles[position]? = some role) (access : role.isAccess = true) :
    ∃ mention, mentions[(roles.take position).countP (·.isAccess)]? = some mention ∧
      catalog.Accesses sheet scopes role mention := by
  induction spells generalizing position with
  | nil => cases found
  | aside _ ih =>
      cases position with
      | zero =>
          cases found
          cases access
      | succ position => exact ih found
  | access accesses _ ih =>
      cases position with
      | zero =>
          cases found
          exact ⟨_, rfl, accesses⟩
      | succ position =>
          rw [List.take_succ_cons, List.countP_cons_of_pos (by exact accesses.isAccess)]
          exact ih found
  | closure function count sources length around names _ ih =>
      obtain ⟨source, rfl⟩ | ⟨rfl, -⟩ | ⟨behind, found, before⟩ := closure_cases found
      · cases access
      · cases access
      · rw [before, List.countP_append, countP_gather, Nat.zero_add,
          List.countP_cons_of_neg (by simp [Role.isAccess])]
        exact ih found

theorem foldl_gather (before sources : List CaptureSource) :
    (sources.map Role.gather).foldl Role.gatheredAfter before = before ++ sources := by
  induction sources generalizing before with
  | nil => exact (List.append_nil before).symm
  | cons first rest ih =>
      rw [List.map_cons, List.foldl_cons, ih]
      exact List.append_assoc before [first] rest

/-- Each closure is made of the cells in front of it, which are those of the variables that it
captures. -/
theorem Spells.creates (spells : catalog.Spells sheet scopes roles mentions)
    (found : roles[position]? = some (.create function count)) :
    count.toNat = ((roles.take position).foldl Role.gatheredAfter []).length ∧
      (catalog.outline function.toNat).scopes.tail = scopes ∧
      ∀ (index : Nat) source name,
        ((roles.take position).foldl Role.gatheredAfter [])[index]? = some source →
          (catalog.sheet function.toNat).captures[index]? = some (some name) →
            sheet.name? source.place = some name := by
  induction spells generalizing position with
  | nil => cases found
  | aside _ ih =>
      cases position with
      | zero => cases found
      | succ position => exact ih found
  | access accesses _ ih =>
      cases position with
      | zero =>
          cases found
          cases accesses
      | succ position =>
          rw [List.take_succ_cons, List.foldl_cons]
          cases accesses <;> exact ih found
  | closure own number sources length around names _ ih =>
      obtain ⟨source, impossible⟩ | ⟨same, before⟩ | ⟨behind, found, before⟩ := closure_cases found
      · cases impossible
      · cases same
        rw [before, foldl_gather]
        exact ⟨length, around, names⟩
      · rw [before, List.foldl_append]
        exact ih found

end Catalog

/-! ## Finished code -/

theorem PendingInstruction.role_settle {captured : Array Bool} {place : Label → Nat}
    {instr : PendingInstruction} (proper : instr.IsProper) :
    (Assembler.settle captured place instr).role = instr.role := by
  obtain ⟨op, a, b, target⟩ := instr
  rw [Assembler.settle_eq]
  cases target with
  | none =>
      have same := Assembler.settledOp_congr (fun op => op.role a b) rfl rfl captured ⟨op, a, b, none⟩
      exact same
  | some target =>
      have jump : op.isJump = true := proper.1.mpr rfl
      cases op <;> first | rfl | cases jump

/-- There is one instruction at an offset. -/
theorem Code.lookup_of_mem {code : Code} {listing : Listing} {offset : Nat} {instr : Instruction}
    (listed : code.disassemble = .ok listing) (member : (offset, instr) ∈ listing) :
    listing.lookup offset = some instr := by
  obtain ⟨before, after, rfl⟩ := List.append_of_mem member
  refine List.lookup_eq_some_iff.mpr ⟨before, after, rfl, fun entry earlier => ?_⟩
  have order := Code.ordered_of_disassemble listed
  have less := (List.pairwise_append.mp order).2.2 entry earlier _ List.mem_cons_self
  have size : 0 < entry.2.size := entry.2.op.size_pos
  simp only [bne_iff_ne, ne_eq]
  omega

namespace Catalog

variable {catalog : Catalog} {index : Nat} {function : FunctionDef} {listing : Listing} {offset : Nat}
  {instr : Instruction}

/-- What the instructions of a function do with variables. -/
theorem Codes.spells (codes : catalog.Codes index function)
    (listed : function.code.disassemble = .ok listing) :
    ∃ instructions, listing = Code.listed 0 instructions ∧
      catalog.Spells (catalog.sheet index) (catalog.outline index).scopes
        (instructions.map (·.role)) (catalog.outline index).mentions := by
  obtain ⟨assembler, varCount, captured, isClosure, finished, proper, spells⟩ := codes
  have same := Assembler.disassemble_finish finished proper
  cases listed.symm.trans same
  refine ⟨_, rfl, ?_⟩
  have boxes : ∀ boxing : List Instruction, (∀ instr ∈ boxing, instr.role = .aside) →
      ∀ {roles}, catalog.Spells (catalog.sheet index) (catalog.outline index).scopes roles
          (catalog.outline index).mentions →
        catalog.Spells (catalog.sheet index) (catalog.outline index).scopes
          (boxing.map (·.role) ++ roles) (catalog.outline index).mentions := by
    intro boxing all roles spells
    induction boxing with
    | nil => exact spells
    | cons first rest ih =>
        obtain ⟨here, others⟩ := List.forall_mem_cons.mp all
        rw [List.map_cons, here]
        exact .aside (ih others)
  unfold Assembler.settled
  rw [List.map_append]
  refine boxes _ (fun instr member => ?_) ?_
  · rw [Assembler.boxing_eq member]
    rfl
  · rw [List.map_map]
    have same : assembler.pending.toList.map ((·.role) ∘ Assembler.settle captured
        (assembler.target captured)) = assembler.pending.toList.map (·.role) :=
      List.map_congr_left fun instr member =>
        PendingInstruction.role_settle (proper instr member)
    rw [same]
    exact spells

/-- What is in front of an instruction in the listing. -/
theorem roles_before {instructions : List Instruction} {position : Nat}
    (inside : position ≤ instructions.length) :
    ((Code.listed 0 instructions).takeWhile
      (·.1 < sumOver Instruction.size (instructions.take position))).map (·.2.role) =
        (instructions.map (·.role)).take position := by
  have front := Code.takeWhile_listed 0 instructions inside
  simp only [Nat.zero_add] at front
  rw [front, ← List.map_take]
  have only := congrArg (List.map Instruction.role)
    (Code.map_snd_listed 0 (instructions.take position))
  rwa [List.map_map] at only

/-- An instruction of the code that accesses a variable stands for a mention of it. -/
theorem Codes.accesses (codes : catalog.Codes index function)
    (listed : function.code.disassemble = .ok listing) (member : (offset, instr) ∈ listing)
    (access : instr.role.isAccess = true) :
    ∃ mention, listing.mention? (catalog.outline index).mentions offset = some mention ∧
      catalog.Accesses (catalog.sheet index) (catalog.outline index).scopes instr.role
        mention := by
  have looked := Code.lookup_of_mem listed member
  obtain ⟨instructions, rfl, spells⟩ := codes.spells listed
  obtain ⟨position, found, rfl⟩ := Code.mem_listed.mp member
  obtain ⟨inside, -⟩ := List.getElem?_eq_some_iff.mp found
  have role : (instructions.map (·.role))[position]? = some instr.role := by
    rw [List.getElem?_map, found]
    rfl
  obtain ⟨mention, there, accesses⟩ := spells.accesses role access
  refine ⟨mention, ?_, accesses⟩
  unfold Listing.mention? Listing.accessesBefore
  rw [looked]
  simp only [Nat.zero_add, Option.bind_eq_bind, Option.bind_some, if_pos access]
  rw [roles_before (Nat.le_of_lt inside)]
  exact there

/-- A closure is made of the cells that were pushed in front of it. -/
theorem Codes.creates {created count : UInt16} (codes : catalog.Codes index function)
    (listed : function.code.disassemble = .ok listing) (member : (offset, instr) ∈ listing)
    (creates : instr.role = .create created count) :
    (catalog.outline created.toNat).scopes.tail = (catalog.outline index).scopes ∧
      ∀ (place : Nat) source name, (listing.sources offset)[place]? = some source →
        (catalog.sheet created.toNat).captures[place]? = some (some name) →
          (catalog.sheet index).name? source.place = some name := by
  obtain ⟨instructions, rfl, spells⟩ := codes.spells listed
  obtain ⟨position, found, rfl⟩ := Code.mem_listed.mp member
  obtain ⟨inside, -⟩ := List.getElem?_eq_some_iff.mp found
  have role : (instructions.map (·.role))[position]? = some (.create created count) := by
    rw [List.getElem?_map, found, ← creates]
    rfl
  obtain ⟨-, around, names⟩ := spells.creates role
  refine ⟨around, ?_⟩
  unfold Listing.sources
  rw [Nat.zero_add, roles_before (Nat.le_of_lt inside)]
  exact names

/-- Behind an instruction that pushes a cell there is one more, and behind any other there are none. -/
theorem Codes.sources_next (codes : catalog.Codes index function)
    (listed : function.code.disassemble = .ok listing) (member : (offset, instr) ∈ listing) :
    listing.sources (offset + instr.size) =
      instr.role.gatheredAfter (listing.sources offset) := by
  obtain ⟨instructions, rfl, spells⟩ := codes.spells listed
  obtain ⟨position, found, rfl⟩ := Code.mem_listed.mp member
  obtain ⟨inside, -⟩ := List.getElem?_eq_some_iff.mp found
  have behind : 0 + sumOver Instruction.size (instructions.take position) + instr.size =
      sumOver Instruction.size (instructions.take (position + 1)) := by
    rw [List.take_add_one, found, sumOver_append, Nat.zero_add]
    rfl
  unfold Listing.sources
  rw [behind, Nat.zero_add, roles_before inside, roles_before (Nat.le_of_lt inside),
    List.take_add_one, List.foldl_append, List.getElem?_map, found]
  rfl

end Catalog

end PocketScript
