import PocketScript.Proofs.Environment.Comparing

/-!
# Strings are their texts

A string may be a constant of a program, a block of the heap, or a block that the host owns. Whatever
is done with it depends on its text alone (`Environment.strings_interchangeable`), with one exception:
a value that is no string is compared by its block, so one that carries a string's own block in the
guise of another kind equals that string and no other of the same text (`Value.Impersonates`). Among
genuine values there is no such guise (`Environment.Genuine.not_impersonates`).
-/

namespace PocketScript

/-- The value is no string and has the block of that string. -/
def Value.Impersonates (value string : Value) : Prop :=
  value.isString = false ∧ ∃ block, value.block? = some block ∧ string.block? = some block

/-- The operators that tell whether their operands are the same. -/
def BinaryOp.isEquality : BinaryOp → Bool
  | eq | ne => true
  | _ => false

/-- A string is no index. -/
theorem Value.elementIndex?_of_isString {key : Value} (string : key.isString = true) :
    key.elementIndex? = none := by
  cases key with
  | constant | string | foreign => rfl
  | _ => cases string

theorem BinaryOp.onValues_of_isString {op : BinaryOp} {left right : Value}
    (string : left.isString = true ∨ right.isString = true) : op.onValues left right = .nan := by
  unfold onValues
  split
  · rcases string with impossible | impossible <;> cases impossible
  · rfl

namespace Environment

variable {env : Environment} {one two : Value} {text : String}

/-- Genuine values do not impersonate each other. -/
theorem Genuine.not_impersonates (genuine : env.Genuine one)
    (genuine' : env.Genuine two) (string : two.isString = true) :
    ¬ one.Impersonates two := by
  rintro ⟨other, block, leads, leads'⟩
  rw [genuine.isString_eq genuine' leads leads', string] at other
  cases other

/-! ## What a text decides -/

theorem HasText.isTruthy_eq (has : env.HasText one text) :
    env.isTruthy one = !text.isEmpty := by
  have string := has.isString
  cases one with
  | constant | string | foreign =>
      rw [isTruthy, has.string?_eq, Option.any_some]
  | _ => cases string

theorem HasText.text_eq (has : env.HasText one text) : env.text one = text := by
  have string := has.isString
  cases one with
  | constant | string | foreign =>
      rw [Environment.text, has.string?_eq, Option.getD_some]
  | _ => cases string

/-- With quotes where it is displayed. -/
theorem HasText.display_eq (has : env.HasText one text) :
    env.display one = "\"" ++ text ++ "\"" := by
  have string := has.isString
  cases one with
  | constant | string | foreign =>
      rw [display, has.string?_eq, Option.getD_some]
  | _ => cases string

/-- As a key it stands for its text. -/
theorem HasText.propertyKey?_eq (has : env.HasText one text) :
    env.propertyKey? one = some text := by
  have string := has.isString
  cases one with
  | constant | string | foreign => exact has
  | _ => cases string

theorem HasText.applyUnary_eq (has : env.HasText one text) (op : UnaryOp) :
    env.applyUnary op one = match op with
      | .not => .boolean text.isEmpty
      | .neg | .bitNot => .nan := by
  have string := has.isString
  cases op with
  | not =>
      show Value.boolean (!env.isTruthy one) = _
      rw [has.isTruthy_eq, Bool.not_not]
  | neg | bitNot =>
      cases one with
      | constant | string | foreign => rfl
      | _ => cases string

theorem HasText.order?_left (has : env.HasText one text) (other : Value) :
    env.order? one other =
      (env.string? other).map (compareOfLessAndEq text ·) := by
  ext ordering
  rw [order?_eq_some_iff, Option.map_eq_some_iff]
  constructor
  · rintro (⟨_, _, rfl, -⟩ | ⟨first, second, has', has'', ordered⟩)
    · cases has.isString
    · exact ⟨second, has'', has.unique has' ▸ ordered⟩
  · rintro ⟨second, has', ordered⟩
    exact .inr ⟨text, second, has, has', ordered⟩

theorem HasText.order?_right (has : env.HasText one text) (other : Value) :
    env.order? other one =
      (env.string? other).map (compareOfLessAndEq · text) := by
  ext ordering
  rw [order?_eq_some_iff, Option.map_eq_some_iff]
  constructor
  · rintro (⟨_, _, -, rfl, -⟩ | ⟨first, second, has', has'', ordered⟩)
    · cases has.isString
    · exact ⟨first, has', has.unique has'' ▸ ordered⟩
  · rintro ⟨first, has', ordered⟩
    exact .inr ⟨first, text, has', has, ordered⟩

/-! ## Two strings of one text -/

section Twins

variable {other : Value}

/-- What is the same as one string is the same as another one with its text. -/
theorem HasText.same_left (has : env.HasText one text)
    (has' : env.HasText two text) (itself : ¬ other.Impersonates one)
    (same : env.Same one other) : env.Same two other := by
  cases same with
  | text has'' has''' => exact .text has' (has.unique has'' ▸ has''')
  | block strings leads leads' =>
      rw [has.isString, Bool.true_and] at strings
      exact absurd ⟨strings, _, leads', leads⟩ itself
  | _ => cases has.isString

/-- Neither string equals what the other does not equal. -/
theorem HasText.equals_left (has : env.HasText one text)
    (has' : env.HasText two text) (itself : ¬ other.Impersonates one)
    (itself' : ¬ other.Impersonates two) :
    env.equals one other = env.equals two other := by
  rw [Bool.eq_iff_iff, equals_eq_true_iff, equals_eq_true_iff]
  exact ⟨has.same_left has' itself, has'.same_left has itself'⟩

/-- And so they are equal to the same values. -/
theorem HasText.equals_right (has : env.HasText one text)
    (has' : env.HasText two text) (itself : ¬ other.Impersonates one)
    (itself' : ¬ other.Impersonates two) :
    env.equals other one = env.equals other two := by
  rw [Bool.eq_iff_iff, equals_eq_true_iff, equals_eq_true_iff]
  exact ⟨fun same => (has.same_left has' itself same.symm).symm,
    fun same => (has'.same_left has itself' same.symm).symm⟩

/-! ## Operators -/

theorem HasText.applyBinary_left (has : env.HasText one text)
    (has' : env.HasText two text) (op : BinaryOp)
    (equality : op.isEquality = true → env.equals one other = env.equals two other) :
    applyBinary op one other env = applyBinary op two other env := by
  cases op with
  | eq | ne => simp only [applyBinary, action_bind, action_view, equality rfl]
  | lt | le | gt | ge =>
      simp only [applyBinary, action_bind, action_view, has.order?_left, has'.order?_left]
  | add =>
      simp only [applyBinary, has.isString, has'.isString, Bool.true_or, if_true, action_bind,
        action_view, has.text_eq, has'.text_eq]
  | _ =>
      simp only [applyBinary, BinaryOp.onValues_of_isString (.inl has.isString),
        BinaryOp.onValues_of_isString (.inl has'.isString)]

theorem HasText.applyBinary_right (has : env.HasText one text)
    (has' : env.HasText two text) (op : BinaryOp)
    (equality : op.isEquality = true → env.equals other one = env.equals other two) :
    applyBinary op other one env = applyBinary op other two env := by
  cases op with
  | eq | ne => simp only [applyBinary, action_bind, action_view, equality rfl]
  | lt | le | gt | ge =>
      simp only [applyBinary, action_bind, action_view, has.order?_right, has'.order?_right]
  | add =>
      simp only [applyBinary, has.isString, has'.isString, Bool.or_true, if_true, action_bind,
        action_view, has.text_eq, has'.text_eq]
  | _ =>
      simp only [applyBinary, BinaryOp.onValues_of_isString (.inr has.isString),
        BinaryOp.onValues_of_isString (.inr has'.isString)]

/-! ## Elements -/

/-- A length depends on the text of the key. -/
theorem lengthOr_congr {key key' : Value} {length length' : Environment → Nat}
    (keys : env.string? key = env.string? key')
    (lengths : length env = length' env) :
    lengthOr key length env = lengthOr key' length' env := by
  unfold lengthOr
  rw [action_bind, action_bind, action_view, action_view]
  dsimp only
  rw [keys]
  split
  · simp only [action_bind, action_view, lengths, action_pure]
  · rfl

theorem HasText.propertyKey_eq (has : env.HasText one text) :
    propertyKey one env = (.ok text, env) := by
  simp only [propertyKey, action_bind, action_view, has.propertyKey?_eq]
  rfl

/-- As an index a string is refused. -/
theorem HasText.elementIndex_eq (has : env.HasText one text) :
    elementIndex one = throw .invalidIndex := by
  rw [elementIndex, Value.elementIndex?_of_isString has.isString]

/-- A string's characters are those of its text. -/
theorem HasText.getElement_container (has : env.HasText one text)
    (has' : env.HasText two text) (key : Value) :
    getElement one key env = getElement two key env := by
  rw [getElement_of_isString has.isString, getElement_of_isString has'.isString]
  unfold character
  split
  · exact lengthOr_congr rfl (by rw [has.string?_eq, has'.string?_eq])
  · unfold elementIndex
    split
    · simp only [action_bind, action_pure, action_view, has.string?_eq, has'.string?_eq]
    · rfl

/-- So keys with the same text find the same elements. -/
theorem HasText.getElement_key (has : env.HasText one text)
    (has' : env.HasText two text) (container : Value) :
    getElement container one env = getElement container two env := by
  have keys := has.string?_eq.trans has'.string?_eq.symm
  cases container with
  | array block =>
      simp only [getElement, has.isString, has'.isString, if_true]
      exact lengthOr_congr keys rfl
  | object block =>
      simp only [getElement, action_bind, has.propertyKey_eq, has'.propertyKey_eq]
  | constant | string | foreign =>
      simp only [getElement, has.isString, has'.isString, if_true]
      exact lengthOr_congr keys rfl
  | _ => rfl

/-- And they set the same. -/
theorem HasText.setElement_key (has : env.HasText one text)
    (has' : env.HasText two text) (container value : Value) :
    setElement container one value env = setElement container two value env := by
  cases container with
  | array block =>
      simp only [setElement, has.elementIndex_eq, has'.elementIndex_eq]
  | object block =>
      simp only [setElement, action_bind, has.propertyKey_eq, has'.propertyKey_eq]
  | _ => rfl

end Twins

/-! ## Strings in place of each other -/

/-- Two strings of the same text may stand for each other. They are as true, as text and as display
the same, and every operator makes the same of them and of another value, on either side; they have
the same elements, and select the same elements of any container, for reading and for writing. Only
where values are equal or not, it matters whether the other value has the block of one of them without
being a string. -/
theorem strings_interchangeable (has : env.HasText one text)
    (has' : env.HasText two text) (other : Value) :
    env.isTruthy one = env.isTruthy two ∧
    env.text one = env.text two ∧
    env.display one = env.display two ∧
    (∀ op, env.applyUnary op one = env.applyUnary op two) ∧
    (¬ other.Impersonates one → ¬ other.Impersonates two →
      env.equals one other = env.equals two other ∧
      env.equals other one = env.equals other two) ∧
    env.order? one other = env.order? two other ∧
    env.order? other one = env.order? other two ∧
    (∀ op : BinaryOp,
      (op.isEquality = true → ¬ other.Impersonates one ∧ ¬ other.Impersonates two) →
        applyBinary op one other env = applyBinary op two other env ∧
        applyBinary op other one env = applyBinary op other two env) ∧
    getElement one other env = getElement two other env ∧
    getElement other one env = getElement other two env ∧
    ∀ value, setElement other one value env = setElement other two value env := by
  refine ⟨?_, ?_, ?_, fun op => ?_, fun apart apart' => ?_, ?_, ?_, fun op apart => ?_,
    has.getElement_container has' other, has.getElement_key has' other,
    has.setElement_key has' other⟩
  · rw [has.isTruthy_eq, has'.isTruthy_eq]
  · rw [has.text_eq, has'.text_eq]
  · rw [has.display_eq, has'.display_eq]
  · rw [has.applyUnary_eq, has'.applyUnary_eq]
  · exact ⟨has.equals_left has' apart apart', has.equals_right has' apart apart'⟩
  · rw [has.order?_left, has'.order?_left]
  · rw [has.order?_right, has'.order?_right]
  · constructor
    · exact has.applyBinary_left has' op fun equality =>
        has.equals_left has' (apart equality).1 (apart equality).2
    · exact has.applyBinary_right has' op fun equality =>
        has.equals_right has' (apart equality).1 (apart equality).2

theorem strings_interchangeable_shelf :
    shelf.HasText (.string ⟨0, 0, 0⟩) "a" ∧ shelf.HasText (.foreign ⟨0, 0, 1⟩) "a" ∧
      applyBinary .ne (.array ⟨0, 0, 2⟩) (.string ⟨0, 0, 0⟩) shelf =
        applyBinary .ne (.array ⟨0, 0, 2⟩) (.foreign ⟨0, 0, 1⟩) shelf := by
  have first : shelf.HasText (.string ⟨0, 0, 0⟩) "a" := rfl
  have second : shelf.HasText (.foreign ⟨0, 0, 1⟩) "a" := rfl
  obtain ⟨-, -, -, -, -, -, -, operators, -⟩ :=
    strings_interchangeable first second (.array ⟨0, 0, 2⟩)
  refine ⟨first, second, (operators .ne fun _ => ⟨?_, ?_⟩).2⟩ <;>
  · rintro ⟨-, block, leads, leads'⟩
    cases leads
    cases leads'

/-- An array with the block of one text equals that text and not the other one. -/
theorem shelf_tells_apart :
    shelf.HasText (.string ⟨0, 0, 0⟩) "a" ∧ shelf.HasText (.foreign ⟨0, 0, 1⟩) "a" ∧
      applyBinary .eq (.string ⟨0, 0, 0⟩) (.array ⟨0, 0, 0⟩) shelf ≠
        applyBinary .eq (.foreign ⟨0, 0, 1⟩) (.array ⟨0, 0, 0⟩) shelf := by
  refine ⟨rfl, rfl, fun same => ?_⟩
  cases same

end Environment

end PocketScript
