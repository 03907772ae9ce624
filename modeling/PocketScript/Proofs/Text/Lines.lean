import Mathlib.Data.List.Induction
import PocketScript.Source

/-!
# Lines of a text

The table of line starts agrees with counting newlines: the line with a number is what stands in the
text between that many newlines less one and the next newline or the end of the text, and both of its
ends are found in the table (`IsLine.lineStart`, `IsLine.lineEnd`). No line is looked up outside of the
table, whatever its number is (`Source.finds`).
-/

namespace PocketScript

open Ascii

/-! ## Lines -/

/-- In front of a line the text starts, or the line before it has ended. -/
def EndsLine (before : List UInt8) : Prop := before = [] ∨ ∃ front, before = front ++ [newline]

/-- Some bytes of a text are the line with this number. -/
structure IsLine (number : Nat) (before line behind : List UInt8) : Prop where
  number : number = before.count newline + 1
  starts : EndsLine before
  inLine : newline ∉ line
  stops : behind = [] ∨ ∃ rest, behind = newline :: rest

/-- A line without one carriage return at its end. -/
def withoutReturn (line : List UInt8) : List UInt8 :=
  if line.getLast? = some carriageReturn then line.dropLast else line

theorem front_withoutReturn (line : List UInt8) : withoutReturn line <+: line := by
  unfold withoutReturn
  split
  · exact List.dropLast_prefix line
  · exact List.prefix_refl line

/-- The place behind some bytes is on a line that starts in these bytes or right behind them. -/
theorem exists_lineStart (front : List UInt8) :
    ∃ before inside, front = before ++ inside ∧ EndsLine before ∧ newline ∉ inside := by
  induction front using List.reverseRecOn with
  | nil => exact ⟨[], [], rfl, .inl rfl, List.not_mem_nil⟩
  | append_singleton front byte ih =>
      by_cases ends : byte = newline
      · subst ends
        exact ⟨front ++ [newline], [], (List.append_nil _).symm, .inr ⟨front, rfl⟩, List.not_mem_nil⟩
      · obtain ⟨before, inside, rfl, starts, inLine⟩ := ih
        refine ⟨before, inside ++ [byte], List.append_assoc .., starts, fun member => ?_⟩
        rcases List.mem_append.mp member with member | member
        · exact inLine member
        · exact ends (List.mem_singleton.mp member).symm

/-- Some bytes last up to a newline or to the end of the text. -/
theorem exists_lineStop (rest : List UInt8) :
    ∃ inside behind, rest = inside ++ behind ∧ newline ∉ inside ∧
      (behind = [] ∨ ∃ rest, behind = newline :: rest) := by
  induction rest with
  | nil => exact ⟨[], [], rfl, List.not_mem_nil, .inl rfl⟩
  | cons byte rest ih =>
      by_cases ends : byte = newline
      · subst ends
        exact ⟨[], _, rfl, List.not_mem_nil, .inr ⟨rest, rfl⟩⟩
      · obtain ⟨inside, behind, rfl, inLine, stops⟩ := ih
        refine ⟨byte :: inside, behind, rfl, fun member => ?_, stops⟩
        rcases List.mem_cons.mp member with same | member
        · exact ends same.symm
        · exact inLine member

/-- Every place of a text is on a line of it, whose number is one more than that of the newlines in
front of the place. -/
theorem exists_isLine (front rest : List UInt8) :
    ∃ before inside line behind, front = before ++ inside ∧ inside <+: line ∧
      front ++ rest = before ++ line ++ behind ∧
      IsLine (front.count newline + 1) before line behind := by
  obtain ⟨before, inside, rfl, starts, here⟩ := exists_lineStart front
  obtain ⟨more, behind, rfl, there, stops⟩ := exists_lineStop rest
  refine ⟨before, inside, inside ++ more, behind, rfl, List.prefix_append _ _, by simp, ?_, starts,
    ?_, stops⟩
  · rw [List.count_append, List.count_eq_zero.mpr here, Nat.add_zero]
  · exact fun member => (List.mem_append.mp member).elim here there

/-- There is a place behind every number of newlines that a text holds. -/
theorem exists_behind_newlines {bytes : List UInt8} {number : Nat}
    (enough : number ≤ bytes.count newline) :
    ∃ front rest, bytes = front ++ rest ∧ front.count newline = number := by
  induction bytes generalizing number with
  | nil => exact ⟨[], [], rfl, (Nat.le_zero.mp enough).symm⟩
  | cons byte rest ih =>
      by_cases ends : byte = newline
      · subst ends
        cases number with
        | zero => exact ⟨[], _, rfl, rfl⟩
        | succ number =>
            rw [List.count_cons_self] at enough
            obtain ⟨front, rest, rfl, count⟩ := ih (Nat.le_of_succ_le_succ enough)
            exact ⟨newline :: front, rest, rfl, by rw [List.count_cons_self, count]⟩
      · rw [List.count_cons_of_ne ends] at enough
        obtain ⟨front, rest, rfl, count⟩ := ih enough
        exact ⟨byte :: front, rest, rfl, by rw [List.count_cons_of_ne ends, count]⟩

/-- A text has one more line than newlines. -/
theorem exists_isLine_numbered {bytes : List UInt8} {number : Nat} (positive : 0 < number)
    (exists_ : number ≤ bytes.count newline + 1) :
    ∃ before line behind, bytes = before ++ line ++ behind ∧ IsLine number before line behind := by
  obtain ⟨front, rest, rfl, count⟩ := exists_behind_newlines (Nat.sub_le_of_le_add exists_)
  obtain ⟨before, -, line, behind, -, -, whole, isLine⟩ := exists_isLine front rest
  rw [count, Nat.sub_add_cancel positive] at isLine
  exact ⟨before, line, behind, whole, isLine⟩

/-! ## The table -/

namespace Source

/-- Offsets behind the newlines, for bytes that start at an offset. -/
def startsFrom (offset : Nat) : List UInt8 → List Nat
  | [] => []
  | byte :: rest =>
      if byte = newline then (offset + 1) :: startsFrom (offset + 1) rest
      else startsFrom (offset + 1) rest

theorem startsBehindNewlines_eq (starts : List Nat) (offset : Nat) (bytes : List UInt8) :
    startsBehindNewlines starts offset bytes = (startsFrom offset bytes).reverse ++ starts := by
  induction bytes generalizing starts offset with
  | nil => rfl
  | cons byte rest ih =>
      rw [startsBehindNewlines, startsFrom, ih]
      split
      · rw [List.reverse_cons, List.append_assoc]
        rfl
      · rfl

theorem lineStarts_eq (source : Source) : source.lineStarts = 0 :: startsFrom 0 source.bytes := by
  rw [lineStarts, startsBehindNewlines_eq, List.append_nil, List.reverse_reverse]

theorem length_startsFrom (offset : Nat) (bytes : List UInt8) :
    (startsFrom offset bytes).length = bytes.count newline := by
  induction bytes generalizing offset with
  | nil => rfl
  | cons byte rest ih =>
      rw [startsFrom]
      split
      · rename_i ends
        rw [List.length_cons, ih, ends, List.count_cons_self]
      · rename_i other
        rw [ih, List.count_cons_of_ne other]

theorem length_lineStarts (source : Source) :
    source.lineStarts.length = source.bytes.count newline + 1 := by
  rw [lineStarts_eq, List.length_cons, length_startsFrom]

theorem startsFrom_append (offset : Nat) (one two : List UInt8) :
    startsFrom offset (one ++ two) =
      startsFrom offset one ++ startsFrom (offset + one.length) two := by
  induction one generalizing offset with
  | nil => rfl
  | cons byte rest ih =>
      rw [List.cons_append, startsFrom, startsFrom, ih, List.length_cons, Nat.add_right_comm,
        Nat.add_assoc]
      split <;> rfl

theorem startsFrom_inLine {offset : Nat} {bytes : List UInt8} (inLine : newline ∉ bytes) :
    startsFrom offset bytes = [] := by
  rw [← List.length_eq_zero_iff, length_startsFrom, List.count_eq_zero.mpr inLine]

end Source

theorem last_of_line {bytes before line behind : List UInt8}
    (whole : bytes = before ++ line ++ behind) (some : line ≠ []) :
    bytes[before.length + line.length - 1]? = line.getLast? := by
  have positive := List.length_pos_iff.mpr some
  rw [whole, List.append_assoc, List.getElem?_append_right (by omega),
    List.getElem?_append_left (by omega), List.getLast?_eq_getElem?]
  congr 1
  omega

namespace IsLine

variable {source : Source} {number : Nat} {before line behind : List UInt8}
  (isLine : IsLine number before line behind) (whole : source.bytes = before ++ line ++ behind)

include isLine whole

theorem starts_at : source.lineStarts[number - 1]? = some before.length := by
  rw [isLine.number, Nat.add_sub_cancel, source.lineStarts_eq, whole]
  rcases isLine.starts with rfl | ⟨front, rfl⟩
  · rfl
  · rw [List.count_append, List.count_singleton_self, List.getElem?_cons_succ, List.append_assoc,
      List.append_assoc, Source.startsFrom_append,
      List.getElem?_append_right (Nat.le_of_eq (Source.length_startsFrom ..)),
      Source.length_startsFrom, Nat.sub_self]
    simp [Source.startsFrom]

theorem stops_at : source.lineStarts[number]? =
    if behind = [] then none else some (before.length + line.length + 1) := by
  rw [isLine.number, source.lineStarts_eq, whole, List.getElem?_cons_succ,
    Source.startsFrom_append, Source.startsFrom_append, Source.startsFrom_inLine isLine.inLine,
    List.append_nil, List.getElem?_append_right (Nat.le_of_eq (Source.length_startsFrom ..)),
    Source.length_startsFrom, Nat.sub_self, List.length_append, Nat.zero_add]
  rcases isLine.stops with rfl | ⟨rest, rfl⟩
  · rfl
  · simp [Source.startsFrom]

theorem lineStart : source.lineStart number = before.length := by
  have start := isLine.starts_at whole
  have short := (List.getElem?_eq_some_iff.mp start).1
  have positive : number ≠ 0 := by
    rw [isLine.number]
    exact Nat.succ_ne_zero _
  rw [Source.lineStart, if_neg positive]
  dsimp only
  rw [Nat.min_eq_left (by omega), List.getD_eq_getElem?_getD, start]
  rfl

theorem lineEnd : source.lineEnd number = before.length + (withoutReturn line).length := by
  have positive : number ≠ 0 := by
    rw [isLine.number]
    exact Nat.succ_ne_zero _
  -- the carriage return is looked for in front of the newline, but not in front of the line
  have trimmed (stop : Nat) (same : stop = before.length + line.length) :
      (if source.lineStart number < stop ∧ source.bytes[stop - 1]? = some carriageReturn
        then stop - 1 else stop) = before.length + (withoutReturn line).length := by
    subst same
    rw [isLine.lineStart whole, withoutReturn]
    by_cases none : line = []
    · subst none
      rw [if_neg (fun longer => absurd longer.1 (Nat.lt_irrefl _))]
      rfl
    · have longer := List.length_pos_iff.mpr none
      have longer : before.length < before.length + line.length := Nat.lt_add_of_pos_right longer
      simp only [longer, true_and, last_of_line whole none]
      split
      · rw [List.length_dropLast]
        omega
      · rfl
  unfold Source.lineEnd
  dsimp only
  rw [if_neg positive, isLine.stops_at whole]
  refine trimmed _ ?_
  rcases isLine.stops with rfl | ⟨rest, rfl⟩
  · rw [if_pos rfl, whole, List.append_nil, List.length_append]
  · rfl

/-- The bytes that are shown of a line are all but one carriage return at its end. -/
theorem lineBytes : source.lineBytes number = withoutReturn line := by
  have front : withoutReturn line <+: line ++ behind :=
    (front_withoutReturn line).trans (List.prefix_append line behind)
  rw [Source.lineBytes, isLine.lineEnd whole, isLine.lineStart whole, Nat.add_sub_cancel_left, whole,
    List.append_assoc, List.drop_left]
  exact (List.prefix_iff_eq_take.mp front).symm

end IsLine

/-! ## Looking lines up -/

namespace Source

/-- A line of a text, and what the table says of the line with this number. -/
structure Finds (source : Source) (number : Nat) (before line behind : List UInt8) : Prop where
  whole : source.bytes = before ++ line ++ behind
  inTable : source.lineStarts[min number source.lineStarts.length - 1]? = some before.length
  lineStart : source.lineStart number = before.length
  lineEnd : source.lineEnd number = before.length + (withoutReturn line).length

/-- A number past the last line counts as that of the last one. -/
theorem lineStart_clamped (source : Source) (number : Nat) :
    source.lineStart (min number source.lineStarts.length) = source.lineStart number := by
  have positive : source.lineStarts.length ≠ 0 := by
    rw [length_lineStarts]
    exact Nat.succ_ne_zero _
  have zero : min number source.lineStarts.length = 0 ↔ number = 0 := by omega
  simp only [lineStart, zero, Nat.min_assoc, Nat.min_self]

theorem lineEnd_clamped (source : Source) (number : Nat) :
    source.lineEnd (min number source.lineStarts.length) = source.lineEnd number := by
  have positive : source.lineStarts.length ≠ 0 := by
    rw [length_lineStarts]
    exact Nat.succ_ne_zero _
  have zero : min number source.lineStarts.length = 0 ↔ number = 0 := by omega
  have next : source.lineStarts[min number source.lineStarts.length]? = source.lineStarts[number]? := by
    rcases Nat.le_total number source.lineStarts.length with short | long
    · rw [Nat.min_eq_left short]
    · rw [Nat.min_eq_right long, List.getElem?_eq_none long, List.getElem?_eq_none (Nat.le_refl _)]
  simp only [lineEnd, zero, next, lineStart_clamped]

/-- Every line number leads to a line of the text: to the one with this number, or to the last. -/
theorem finds (source : Source) {number : Nat} (positive : 0 < number) :
    ∃ before line behind, source.Finds number before line behind ∧
      IsLine (min number source.lineStarts.length) before line behind := by
  have clamped : min number source.lineStarts.length ≤ source.bytes.count newline + 1 := by
    rw [length_lineStarts]
    exact Nat.min_le_right _ _
  have positive : 0 < min number source.lineStarts.length := by
    rw [length_lineStarts]
    omega
  obtain ⟨before, line, behind, whole, isLine⟩ := exists_isLine_numbered positive clamped
  refine ⟨before, line, behind, ⟨whole, isLine.starts_at whole, ?_, ?_⟩, isLine⟩
  · rw [← lineStart_clamped, isLine.lineStart whole]
  · rw [← lineEnd_clamped, isLine.lineEnd whole]

end Source

end PocketScript
