import ScriptTidy.Proofs.Text.Solid

/-! Places of a text told by line and column: each one leads back to its offset, and they stand in the order of offsets. -/

set_option autoImplicit false

namespace ScriptTidy.Text

-- The offset at which a line begins, lines counted from zero.
def lineOffset : Text → Nat → Nat
  | _, 0 => 0
  | [], _ + 1 => 0
  | char :: rest, row + 1 => char.utf8Size + lineOffset rest (if char = '\n' then row else row + 1)

-- The offset of a line and a column as people count them, from one.
def offsetAt (text : Text) (line column : Nat) : Nat := text.lineOffset (line - 1) + (column - 1)

theorem line_offset_zero (text : Text) : lineOffset text 0 = 0 := by
  cases text <;> rfl

-- A line begins behind the line break in front of it.
theorem line_offset_break (lines rest : Text) :
    lineOffset (lines ++ '\n' :: rest) (lines.count '\n' + 1) = bytes lines + 1 := by
  induction lines with
  | nil =>
      rw [List.nil_append, List.count_nil, lineOffset, if_pos rfl, line_offset_zero]
      rfl
  | cons char more ih =>
      have next : (if char = '\n' then (char :: more).count '\n' else (char :: more).count '\n' + 1) = more.count '\n' + 1 := by
        by_cases same : char = '\n'
        · rw [if_pos same, same, List.count_cons_self]
        · rw [if_neg same, List.count_cons_of_ne same]
      rw [List.cons_append, lineOffset, next, ih, bytes_cons, Nat.add_assoc]

theorem count_last_line (text : Text) : (lastLine text).count '\n' = 0 := List.count_eq_zero.mpr (last_line_unbroken text)

theorem line_offset_row (text : Text) (offset : Nat) : text.lineOffset (text.row offset) = text.lineStart offset := by
  have parts := whole_lines_append_last_line (text.before offset)
  have whole := before_append_after text offset
  rw [← parts, List.append_assoc] at whole
  rw [row, lineStart, ← parts, List.count_append, count_last_line, Nat.add_zero, parts]
  rcases whole_lines_end (text.before offset) with none | ⟨lines, shape⟩
  · rw [none]
    exact line_offset_zero text
  · rw [shape, List.append_assoc] at whole
    rw [shape, List.count_append, bytes_append]
    conv => lhs; rw [← whole]
    exact line_offset_break lines _

section Offsets

variable (text : Text) (offset : Nat) (boundary : text.IsBoundary offset)

include boundary

-- A line and a column lead back to where they were taken.
theorem offset_at_position : text.offsetAt (text.position offset).1 (text.position offset).2 = offset := by
  have parts := congrArg bytes (whole_lines_append_last_line (text.before offset))
  rw [bytes_append, boundary] at parts
  rw [position, offsetAt, Nat.add_sub_cancel, Nat.add_sub_cancel, line_offset_row]
  exact parts

-- Of two offsets the first one comes first by line and column.
theorem position_increases (later : Nat) (ending : text.IsBoundary later) (before : offset < later) :
    (text.position offset).1 < (text.position later).1 ∨
      (text.position offset).1 = (text.position later).1 ∧ (text.position offset).2 < (text.position later).2 := by
  have ordered := Nat.le_of_lt before
  have size := bytes_between text offset later boundary ending ordered
  have shape := before_append_between text offset later boundary ending ordered
  have rows : text.row later = text.row offset + (text.between offset later).count '\n' := by
    rw [row, row, ← shape, List.count_append]
  by_cases broken : '\n' ∈ text.between offset later
  · have some := List.count_pos_iff.mpr broken
    exact .inl (by simp only [position]; omega)
  · have none := List.count_eq_zero.mpr broken
    have columns : text.column later = text.column offset + bytes (text.between offset later) := by
      rw [column, column, ← shape, last_line_append _ _ broken, bytes_append]
    exact .inr (by simp only [position]; omega)

end Offsets

end ScriptTidy.Text
