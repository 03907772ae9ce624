import Mathlib.Order.Defs.LinearOrder
import PocketScript.Proofs.Environment.Accounts
import PocketScript.Proofs.Environment.Actions

/-!
# Comparing values

Two values are the same when they have the same text, when they are equal numbers, and else when they
are the very same thing, which for values with a block is told from the block (`Environment.Same`).
One comes before another when it is a smaller number or a text that comes first (`Environment.Less`).
The operators answer accordingly. Among values that are what they seem to be (`Environment.Genuine`)
sameness is an equivalence, but for the value that is not a number, and numbers and texts stand in a
linear order that agrees with it (`Environment.comparisons_consistent`).
-/

namespace PocketScript

/-- Both values are numbers, or both are strings. -/
def Value.Ranks (one two : Value) : Prop :=
  one.isNumber = true ∧ two.isNumber = true ∨ one.isString = true ∧ two.isString = true

/-- Values that suit the same block are strings together. -/
theorem Value.Suits.isString_eq {one two : Value} {kind : Kind} (suits : one.Suits kind)
    (suits' : two.Suits kind) : one.isString = two.isString := by
  cases kind <;> cases one <;> cases suits <;> cases two <;> cases suits' <;> rfl

/-- The operators that compare their operands. -/
def BinaryOp.isComparison : BinaryOp → Bool
  | eq | ne | lt | le | gt | ge => true
  | _ => false

/-! ## Numbers -/

namespace Number

variable {one two three : Number}

/-- Numbers are ordered by their ranks unless one of them is not a number. -/
theorem order?_eq_some_iff {ordering : Ordering} : one.order? two = some ordering ↔
    (one.isNaN = false ∧ two.isNaN = false) ∧ compare one.rank two.rank = ordering := by
  unfold order?
  split
  case isTrue invalid =>
    rw [Bool.or_eq_true] at invalid
    constructor
    · intro impossible
      cases impossible
    · rintro ⟨⟨valid, valid'⟩, -⟩
      rw [valid, valid'] at invalid
      rcases invalid with impossible | impossible <;> cases impossible
  case isFalse valid =>
    rw [Bool.or_eq_true, not_or, Bool.not_eq_true, Bool.not_eq_true] at valid
    rw [Option.some.injEq, and_iff_right valid]

theorem equals_iff : one.equals two = true ↔
    (one.isNaN = false ∧ two.isNaN = false) ∧ one.rank = two.rank := by
  rw [equals, decide_eq_true_iff, order?_eq_some_iff, Int.compare_eq_eq]

theorem order?_eq_gt_iff : one.order? two = some .gt ↔ two.order? one = some .lt := by
  rw [order?_eq_some_iff, order?_eq_some_iff, Int.compare_eq_gt, Int.compare_eq_lt,
    and_comm (a := one.isNaN = false)]

/-- Less is transitive. -/
theorem order?_trans (less : one.order? two = some .lt) (less' : two.order? three = some .lt) :
    one.order? three = some .lt := by
  rw [order?_eq_some_iff, Int.compare_eq_lt] at less less' ⊢
  exact ⟨⟨less.1.1, less'.1.2⟩, Int.lt_trans less.2 less'.2⟩

end Number

/-! ## Texts in order -/

theorem compareOfLessAndEq_eq_gt_iff {first second : String} :
    compareOfLessAndEq first second = .gt ↔ second < first :=
  compareOfLessAndEq_eq_gt String.le_antisymm String.le_total String.not_le _ _

theorem compareOfLessAndEq_eq_eq_iff {first second : String} :
    compareOfLessAndEq first second = .eq ↔ first = second :=
  compareOfLessAndEq_eq_eq String.le_refl String.not_le

namespace Environment

variable {env : Environment} {value one two three : Value} {text : String}

/-! ## Texts -/

/-- The value is a string of this text. -/
def HasText (env : Environment) (value : Value) (text : String) : Prop :=
  env.string? value = some text

/-- What is not a string has no text. -/
theorem string?_of_not_isString (none : value.isString = false) :
    env.string? value = .none := by
  cases value with
  | constant | string | foreign => cases none
  | _ => rfl

/-- What has a text is a string. -/
theorem HasText.isString (has : env.HasText value text) : value.isString = true := by
  cases string : value.isString with
  | true => rfl
  | false =>
      rw [HasText, string?_of_not_isString string] at has
      cases has

theorem HasText.string?_eq (has : env.HasText value text) :
    env.string? value = some text := has

theorem HasText.unique {other : String} (has : env.HasText value text)
    (has' : env.HasText value other) : text = other :=
  Option.some.inj (has.symm.trans has')

/-! ## What is the same -/

/-- The two values are the same. -/
inductive Same (env : Environment) : Value → Value → Prop
  | undefined : Same env .undefined .undefined
  | boolean (value : Bool) : Same env (.boolean value) (.boolean value)
  | number {one two : Number} : one.equals two = true →
      Same env (.number one) (.number two)
  | function (target : FunctionRef) : Same env (.function target) (.function target)
  | native (id : Nat) : Same env (.native id) (.native id)
  | text {one two : Value} {text : String} : env.HasText one text →
      env.HasText two text → Same env one two
  /-- Of values that are not both strings nothing but the block is compared. -/
  | block {one two : Value} {block : Handle} : (one.isString && two.isString) = false →
      one.block? = some block → two.block? = some block → Same env one two

/-- Two values are equal when they are the same number, text or thing. -/
theorem equals_eq_true_iff : env.equals one two = true ↔ env.Same one two := by
  constructor
  · intro equal
    unfold equals at equal
    split at equal
    · exact .undefined
    · cases eq_of_beq equal
      exact .boolean _
    · exact .number equal
    · cases eq_of_beq equal
      exact .function _
    · cases eq_of_beq equal
      exact .native _
    · split at equal
      · split at equal
        · rename_i has has'
          exact .text has (eq_of_beq equal ▸ has')
        · cases equal
      · rename_i strings
        split at equal
        · rename_i leads leads'
          exact .block (Bool.eq_false_iff.mpr strings) leads (eq_of_beq equal ▸ leads')
        · cases equal
  · intro same
    cases same with
    | undefined => rfl
    | boolean value => exact beq_self_eq_true value
    | number same => exact same
    | function target => exact beq_self_eq_true target
    | native id => exact beq_self_eq_true id
    | text has has' =>
        have strings := has.isString
        have strings' := has'.isString
        unfold equals
        split
        all_goals try cases strings
        rw [if_pos (by rw [strings, strings', Bool.and_true]), has.string?_eq, has'.string?_eq]
        exact beq_self_eq_true _
    | block strings leads leads' =>
        unfold equals
        split
        all_goals try cases leads
        rw [if_neg (by rw [strings]; exact Bool.false_ne_true), leads, leads']
        exact beq_self_eq_true _

/-- To be the same is symmetric. -/
theorem Same.symm (same : env.Same one two) : env.Same two one := by
  cases same with
  | undefined => exact .undefined
  | boolean value => exact .boolean value
  | number same =>
      obtain ⟨⟨valid, valid'⟩, same⟩ := Number.equals_iff.mp same
      exact .number (Number.equals_iff.mpr ⟨⟨valid', valid⟩, same.symm⟩)
  | function target => exact .function target
  | native id => exact .native id
  | text has has' => exact .text has' has
  | block strings leads leads' => exact .block (Bool.and_comm _ _ ▸ strings) leads' leads

/-- The value is what it seems to be: its block holds what it should, a constant has a text, and a
number is one. -/
structure Genuine (env : Environment) (value : Value) : Prop where
  live : ∀ block, value.block? = some block →
    ∃ kind, env.heap.kind? block = some kind ∧ value.Suits kind
  constant : ∀ text, value = .constant text → (env.string? value).isSome = true
  number : ∀ number, value = .number number → number.isNaN = false

/-- A genuine string has a text. -/
theorem Genuine.hasText (genuine : env.Genuine value) (string : value.isString = true) :
    ∃ text, env.HasText value text := by
  cases value with
  | constant text => exact Option.isSome_iff_exists.mp (genuine.constant text rfl)
  | string block | foreign block =>
      obtain ⟨kind, there, suits⟩ := genuine.live block rfl
      obtain ⟨content, found, rfl⟩ := Heap.get?_of_kind? there
      cases content with
      | text text | foreign text _ =>
          refine ⟨text, ?_⟩
          simp only [HasText, string?, Heap.text?, found]
      | _ => cases suits
  | _ => cases string

/-- Genuine values with the same block are strings together. -/
theorem Genuine.isString_eq {block : Handle} (genuine : env.Genuine one)
    (genuine' : env.Genuine two) (leads : one.block? = some block)
    (leads' : two.block? = some block) : one.isString = two.isString := by
  obtain ⟨kind, there, suits⟩ := genuine.live block leads
  obtain ⟨kind', there', suits'⟩ := genuine'.live block leads'
  cases there.symm.trans there'
  exact suits.isString_eq suits'

/-- Of two genuine values with the same block neither is a string when not both are. -/
theorem Genuine.not_isString {block : Handle} (genuine : env.Genuine one)
    (genuine' : env.Genuine two) (leads : one.block? = some block)
    (leads' : two.block? = some block) (strings : (one.isString && two.isString) = false) :
    one.isString = false ∧ two.isString = false := by
  rw [genuine.isString_eq genuine' leads leads', Bool.and_self] at strings
  exact ⟨(genuine.isString_eq genuine' leads leads').trans strings, strings⟩

/-- It is transitive among values that have what their kind promises. -/
theorem Same.trans (genuine : env.Genuine one) (genuine' : env.Genuine two)
    (genuine'' : env.Genuine three) (same : env.Same one two)
    (same' : env.Same two three) : env.Same one three := by
  cases same with
  | undefined => exact same'
  | boolean value => exact same'
  | function target => exact same'
  | native id => exact same'
  | number same =>
      cases same' with
      | number same' =>
          obtain ⟨⟨valid, -⟩, same⟩ := Number.equals_iff.mp same
          obtain ⟨⟨-, valid'⟩, same'⟩ := Number.equals_iff.mp same'
          exact .number (Number.equals_iff.mpr ⟨⟨valid, valid'⟩, same.trans same'⟩)
      | text has has' => cases has.isString
      | block strings leads leads' => cases leads
  | @text _ _ text has has' =>
      have string := has'.isString
      cases same' with
      | text has'' has''' => exact .text has (has'.unique has'' ▸ has''')
      | block strings leads leads' =>
          rw [(genuine'.not_isString genuine'' leads leads' strings).1] at string
          cases string
      | _ => cases string
  | block strings leads leads' =>
      have strings := genuine.not_isString genuine' leads leads' strings
      cases same' with
      | text has has' =>
          rw [has.isString] at strings
          cases strings.2
      | block strings' leads'' leads''' =>
          cases leads'.symm.trans leads''
          exact .block (by rw [strings.1, Bool.false_and]) leads leads'''
      | _ => cases leads'

/-- And reflexive, except for what is not a number. -/
theorem same_self_iff (genuine : env.Genuine value) :
    env.Same value value ↔ value ≠ .nan := by
  constructor
  · rintro same rfl
    cases same with
    | text has has' => cases has.isString
    | block strings leads leads' => cases leads
  · intro valid
    cases value with
    | nan => exact absurd rfl valid
    | undefined => exact .undefined
    | boolean value => exact .boolean value
    | number number =>
        have valid := genuine.number number rfl
        exact .number (Number.equals_iff.mpr ⟨⟨valid, valid⟩, rfl⟩)
    | function target => exact .function target
    | native id => exact .native id
    | constant | string | foreign =>
        obtain ⟨text, has⟩ := genuine.hasText rfl
        exact .text has has
    | object | array | cell | closure => exact .block rfl rfl rfl

/-! ## What comes first -/

/-- The first value comes before the second one. -/
inductive Less (env : Environment) : Value → Value → Prop
  | number {one two : Number} : one.order? two = some .lt →
      Less env (.number one) (.number two)
  | text {one two : Value} {first second : String} : env.HasText one first →
      env.HasText two second → first < second → Less env one two

/-- Other pairs have no order. -/
theorem order?_of_not_ranks (apart : ¬ one.Ranks two) : env.order? one two = none := by
  unfold order?
  split
  · exact absurd (.inl ⟨rfl, rfl⟩) apart
  · rw [if_neg]
    rw [Bool.and_eq_true]
    exact fun strings => apart (.inr strings)

theorem order?_of_texts {first second : String} (has : env.HasText one first)
    (has' : env.HasText two second) :
    env.order? one two = some (compareOfLessAndEq first second) := by
  have strings := has.isString
  unfold order?
  split
  · cases strings
  · rw [if_pos (by rw [strings, has'.isString, Bool.and_true]), has.string?_eq, has'.string?_eq]
    rfl

/-- Values that stand in some order are numbers or have texts. -/
theorem order?_eq_some_iff {ordering : Ordering} : env.order? one two = some ordering ↔
    (∃ first second, one = .number first ∧ two = .number second ∧
      first.order? second = some ordering) ∨
    ∃ first second, env.HasText one first ∧ env.HasText two second ∧
      compareOfLessAndEq first second = ordering := by
  constructor
  · intro ordered
    unfold order? at ordered
    split at ordered
    · exact .inl ⟨_, _, rfl, rfl, ordered⟩
    · split at ordered
      · simp only [bind, Option.bind_eq_some_iff, pure, Option.some.injEq] at ordered
        obtain ⟨first, has, second, has', ordered⟩ := ordered
        exact .inr ⟨first, second, has, has', ordered⟩
      · cases ordered
  · rintro (⟨first, second, rfl, rfl, ordered⟩ | ⟨first, second, has, has', rfl⟩)
    · exact ordered
    · exact order?_of_texts has has'

/-- The order of two values tells which is less. -/
theorem order?_eq_lt_iff : env.order? one two = some .lt ↔ env.Less one two := by
  rw [order?_eq_some_iff]
  constructor
  · rintro (⟨first, second, rfl, rfl, ordered⟩ | ⟨first, second, has, has', ordered⟩)
    · exact .number ordered
    · exact .text has has' (compareOfLessAndEq_eq_lt.mp ordered)
  · intro less
    cases less with
    | number ordered => exact .inl ⟨_, _, rfl, rfl, ordered⟩
    | text has has' less => exact .inr ⟨_, _, has, has', compareOfLessAndEq_eq_lt.mpr less⟩

/-- And which is greater. -/
theorem order?_eq_gt_iff : env.order? one two = some .gt ↔ env.Less two one := by
  rw [order?_eq_some_iff]
  constructor
  · rintro (⟨first, second, rfl, rfl, ordered⟩ | ⟨first, second, has, has', ordered⟩)
    · exact .number (Number.order?_eq_gt_iff.mp ordered)
    · exact .text has' has (compareOfLessAndEq_eq_gt_iff.mp ordered)
  · intro less
    cases less with
    | number ordered => exact .inl ⟨_, _, rfl, rfl, Number.order?_eq_gt_iff.mpr ordered⟩
    | text has has' less => exact .inr ⟨_, _, has', has, compareOfLessAndEq_eq_gt_iff.mpr less⟩

/-- The order agrees with what is the same. -/
theorem order?_eq_eq_iff :
    env.order? one two = some .eq ↔ one.Ranks two ∧ env.Same one two := by
  rw [order?_eq_some_iff]
  constructor
  · rintro (⟨first, second, rfl, rfl, ordered⟩ | ⟨first, second, has, has', ordered⟩)
    · exact ⟨.inl ⟨rfl, rfl⟩, .number (decide_eq_true ordered)⟩
    · cases compareOfLessAndEq_eq_eq_iff.mp ordered
      exact ⟨.inr ⟨has.isString, has'.isString⟩, .text has has'⟩
  · rintro ⟨ranks, same⟩
    cases same with
    | number same => exact .inl ⟨_, _, rfl, rfl, of_decide_eq_true same⟩
    | text has has' => exact .inr ⟨_, _, has, has', compareOfLessAndEq_eq_eq_iff.mpr rfl⟩
    | block strings leads leads' =>
        rcases ranks with ⟨number, -⟩ | ⟨string, string'⟩
        · cases one <;> cases number
          cases leads
        · rw [string, string'] at strings
          cases strings
    | _ => rcases ranks with ⟨impossible, -⟩ | ⟨impossible, -⟩ <;> cases impossible

/-- Genuine numbers and genuine strings stand in some order. -/
theorem Genuine.order?_isSome (genuine : env.Genuine one)
    (genuine' : env.Genuine two) (ranks : one.Ranks two) :
    ∃ ordering, env.order? one two = some ordering := by
  rcases ranks with ⟨number, number'⟩ | ⟨string, string'⟩
  · cases one with
    | number first =>
        cases two with
        | number second =>
            exact ⟨_, Number.order?_eq_some_iff.mpr
              ⟨⟨genuine.number _ rfl, genuine'.number _ rfl⟩, rfl⟩⟩
        | _ => cases number'
    | _ => cases number
  · obtain ⟨first, has⟩ := genuine.hasText string
    obtain ⟨second, has'⟩ := genuine'.hasText string'
    exact ⟨_, order?_of_texts has has'⟩

/-- Less is transitive also among values. -/
theorem Less.trans (less : env.Less one two) (less' : env.Less two three) :
    env.Less one three := by
  cases less with
  | number less =>
      cases less' with
      | number less' => exact .number (Number.order?_trans less less')
      | text has => cases has.isString
  | text has has' less =>
      have string := has'.isString
      cases less' with
      | number => cases string
      | text has'' has''' less' =>
          exact .text has has''' (String.lt_trans less (has'.unique has'' ▸ less'))

/-! ## What the operators answer -/

/-- The operator answers yes. -/
def Affirms (env : Environment) (op : BinaryOp) (one two : Value) : Prop :=
  applyBinary op one two env = (.ok (.boolean true), env)

/-- The operator answers no. -/
def Denies (env : Environment) (op : BinaryOp) (one two : Value) : Prop :=
  applyBinary op one two env = (.ok (.boolean false), env)

/-- An answer is what it is. -/
theorem boolean_eq_iff {truth answer : Bool} :
    (Except.ok (ε := Fault) (Value.boolean truth), env) =
      (.ok (.boolean answer), env) ↔ truth = answer := by
  constructor
  · intro same
    cases same
    rfl
  · rintro rfl
    rfl

theorem affirms_or_denies {op : BinaryOp} (compares : op.isComparison = true) (one two : Value) :
    env.Affirms op one two ∨ env.Denies op one two := by
  have answers : ∃ truth,
      applyBinary op one two env = (.ok (.boolean truth), env) := by
    cases op <;> cases compares <;> exact ⟨_, rfl⟩
  obtain ⟨_ | _, answers⟩ := answers
  · exact .inr answers
  · exact .inl answers

theorem not_affirms_iff {op : BinaryOp} (compares : op.isComparison = true) :
    ¬ env.Affirms op one two ↔ env.Denies op one two := by
  constructor
  · exact (affirms_or_denies compares one two).resolve_left
  · intro denies affirms
    cases denies.symm.trans affirms

/-- Equality is to be the same. -/
theorem affirms_eq_iff : env.Affirms .eq one two ↔ env.Same one two :=
  boolean_eq_iff.trans equals_eq_true_iff

/-- Inequality is the contrary. -/
theorem affirms_ne_iff : env.Affirms .ne one two ↔ env.Denies .eq one two :=
  boolean_eq_iff.trans ((Bool.not_eq_true' _).to_iff.trans boolean_eq_iff.symm)

theorem affirms_lt_iff : env.Affirms .lt one two ↔ env.Less one two :=
  boolean_eq_iff.trans (beq_iff_eq.trans order?_eq_lt_iff)

theorem affirms_gt_iff : env.Affirms .gt one two ↔ env.Less two one :=
  boolean_eq_iff.trans (beq_iff_eq.trans order?_eq_gt_iff)

theorem denies_eq_iff : env.Denies .eq one two ↔ ¬ env.Same one two := by
  rw [← affirms_eq_iff, not_affirms_iff rfl]

theorem denies_lt_iff : env.Denies .lt one two ↔ ¬ env.Less one two := by
  rw [← affirms_lt_iff, not_affirms_iff rfl]

theorem denies_gt_iff : env.Denies .gt one two ↔ ¬ env.Less two one := by
  rw [← affirms_gt_iff, not_affirms_iff rfl]

theorem any_ne_gt_iff {order : Option Ordering} :
    order.any (· != .gt) = true ↔ order = some .lt ∨ order = some .eq := by
  rcases order with _ | _ | _ | _ <;> decide

theorem any_ne_lt_iff {order : Option Ordering} :
    order.any (· != .lt) = true ↔ order = some .gt ∨ order = some .eq := by
  rcases order with _ | _ | _ | _ <;> decide

theorem affirms_le_iff (ranks : one.Ranks two) : env.Affirms .le one two ↔
    env.Affirms .lt one two ∨ env.Affirms .eq one two := by
  rw [affirms_lt_iff, affirms_eq_iff]
  refine boolean_eq_iff.trans (any_ne_gt_iff.trans ?_)
  rw [order?_eq_lt_iff, order?_eq_eq_iff, and_iff_right ranks]

theorem affirms_ge_iff (ranks : one.Ranks two) : env.Affirms .ge one two ↔
    env.Affirms .gt one two ∨ env.Affirms .eq one two := by
  rw [affirms_gt_iff, affirms_eq_iff]
  refine boolean_eq_iff.trans (any_ne_lt_iff.trans ?_)
  rw [order?_eq_gt_iff, order?_eq_eq_iff, and_iff_right ranks]

/-- Values that stand in no order are denied every one. -/
theorem denies_of_not_ranks (apart : ¬ one.Ranks two) :
    env.Denies .lt one two ∧ env.Denies .le one two ∧
      env.Denies .gt one two ∧ env.Denies .ge one two := by
  refine ⟨boolean_eq_iff.mpr ?_, boolean_eq_iff.mpr ?_, boolean_eq_iff.mpr ?_,
    boolean_eq_iff.mpr ?_⟩ <;>
  simp only [order?_of_not_ranks apart, Option.any_none, reduceCtorEq, beq_eq_false_iff_ne, ne_eq,
    not_false_eq_true]

/-- Of two genuine numbers, or two genuine strings, exactly one comes first, or they are the
same. -/
theorem Genuine.trichotomy (genuine : env.Genuine one)
    (genuine' : env.Genuine two) (ranks : one.Ranks two) :
    (env.Affirms .lt one two ∧ env.Denies .eq one two ∧
        env.Denies .gt one two) ∨
      (env.Denies .lt one two ∧ env.Affirms .eq one two ∧
        env.Denies .gt one two) ∨
      (env.Denies .lt one two ∧ env.Denies .eq one two ∧
        env.Affirms .gt one two) := by
  obtain ⟨ordering, ordered⟩ := genuine.order?_isSome genuine' ranks
  have same : env.Same one two ↔ ordering = .eq := by
    rw [← Option.some.injEq, ← ordered, order?_eq_eq_iff, and_iff_right ranks]
  have less : env.Less one two ↔ ordering = .lt := by
    rw [← Option.some.injEq, ← ordered, order?_eq_lt_iff]
  have more : env.Less two one ↔ ordering = .gt := by
    rw [← Option.some.injEq, ← ordered, order?_eq_gt_iff]
  simp only [affirms_lt_iff, affirms_eq_iff, affirms_gt_iff, denies_lt_iff, denies_eq_iff,
    denies_gt_iff, same, less, more]
  cases ordering <;> decide

/-- The comparison operators are consistent. Among genuine values equality is symmetric and
transitive, every value but the one that is not a number equals itself, and the operator for
inequality says the opposite. Two numbers, or two strings, are either equal or one comes before the
other, transitively, and the other two relational operators follow from this; to all other pairs the
four relational operators say no. -/
theorem comparisons_consistent (genuine : env.Genuine one)
    (genuine' : env.Genuine two) (genuine'' : env.Genuine three) :
    (∀ op : BinaryOp, op.isComparison = true →
      env.Affirms op one two ∨ env.Denies op one two) ∧
    (env.Affirms .eq one two → env.Affirms .eq two one) ∧
    (env.Affirms .eq one two → env.Affirms .eq two three →
      env.Affirms .eq one three) ∧
    (env.Affirms .eq one one ↔ one ≠ .nan) ∧
    (env.Affirms .ne one two ↔ env.Denies .eq one two) ∧
    (one.Ranks two →
      ((env.Affirms .lt one two ∧ env.Denies .eq one two ∧
          env.Denies .gt one two) ∨
        (env.Denies .lt one two ∧ env.Affirms .eq one two ∧
          env.Denies .gt one two) ∨
        (env.Denies .lt one two ∧ env.Denies .eq one two ∧
          env.Affirms .gt one two)) ∧
      (env.Affirms .le one two ↔
        env.Affirms .lt one two ∨ env.Affirms .eq one two) ∧
      (env.Affirms .ge one two ↔
        env.Affirms .gt one two ∨ env.Affirms .eq one two)) ∧
    (env.Affirms .lt one two → env.Affirms .lt two three →
      env.Affirms .lt one three) ∧
    (¬ one.Ranks two →
      env.Denies .lt one two ∧ env.Denies .le one two ∧
        env.Denies .gt one two ∧ env.Denies .ge one two) := by
  refine ⟨fun _ compares => affirms_or_denies compares one two, ?_, ?_, ?_, affirms_ne_iff,
    fun ranks => ⟨genuine.trichotomy genuine' ranks, affirms_le_iff ranks, affirms_ge_iff ranks⟩,
    ?_, denies_of_not_ranks⟩
  · rw [affirms_eq_iff, affirms_eq_iff]
    exact Same.symm
  · rw [affirms_eq_iff, affirms_eq_iff, affirms_eq_iff]
    exact Same.trans genuine genuine' genuine''
  · rw [affirms_eq_iff]
    exact same_self_iff genuine
  · rw [affirms_lt_iff, affirms_lt_iff, affirms_lt_iff]
    exact Less.trans

/-- A shelf with two equal texts, one of them the host's, and one that comes after them. -/
def shelf : Environment where
  config := {}
  heap.blocks := ⟨[⟨16, #[⟨1, 2, 0, some (.text "a")⟩, ⟨2, 2, 0, some (.foreign "a" 7)⟩,
    ⟨1, 2, 0, some (.text "b")⟩], []⟩]⟩

/-- Texts of two kinds of strings are compared as texts. -/
theorem comparisons_consistent_texts :
    shelf.Genuine (.string ⟨0, 0, 0⟩) ∧ shelf.Genuine (.foreign ⟨0, 0, 1⟩) ∧
      shelf.Genuine (.string ⟨0, 0, 2⟩) ∧
      shelf.Affirms .eq (.foreign ⟨0, 0, 1⟩) (.string ⟨0, 0, 0⟩) ∧
      (shelf.Affirms .le (.foreign ⟨0, 0, 1⟩) (.string ⟨0, 0, 2⟩)) := by
  have first : shelf.Genuine (.string ⟨0, 0, 0⟩) :=
    ⟨fun _ leads => by cases leads; exact ⟨.text, rfl, trivial⟩, nofun, nofun⟩
  have second : shelf.Genuine (.foreign ⟨0, 0, 1⟩) :=
    ⟨fun _ leads => by cases leads; exact ⟨.foreign, rfl, trivial⟩, nofun, nofun⟩
  have third : shelf.Genuine (.string ⟨0, 0, 2⟩) :=
    ⟨fun _ leads => by cases leads; exact ⟨.text, rfl, trivial⟩, nofun, nofun⟩
  obtain ⟨-, symmetric, -⟩ := comparisons_consistent first second third
  obtain ⟨-, -, -, -, -, ordered, -, -⟩ := comparisons_consistent second third third
  refine ⟨first, second, third, symmetric (affirms_eq_iff.mpr (.text rfl rfl)), ?_⟩
  refine (ordered (.inr ⟨rfl, rfl⟩)).2.1.mpr (.inl ?_)
  exact affirms_lt_iff.mpr (.text rfl rfl (by decide))

end Environment

end PocketScript
