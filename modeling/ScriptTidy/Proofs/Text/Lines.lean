import ScriptTidy.Proofs.Text.Solid

/-! The lines of a text: the one that ends it, the one that begins it, and blank ones. -/

set_option autoImplicit false

namespace ScriptTidy.Text

def firstLine (text : Text) : Text := text.takeWhile (· != '\n')

-- What follows the first line.
def restLines (text : Text) : Text := (text.dropWhile (· != '\n')).drop 1

-- The line that ends with the last character, a line break.
def lineAbove (text : Text) : Text := lastLine text.dropLast

theorem last_line_behind (front rest : Text) (whole : WholeLines front) : lastLine (front ++ rest) = lastLine rest := by
  rcases whole with rfl | ⟨lines, rfl⟩
  · rfl
  · have stops : List.takeWhile (· != '\n') ((lines ++ ['\n']).reverse) = [] := by
      rw [List.reverse_append, List.reverse_singleton, List.singleton_append]
      exact List.takeWhile_cons_of_neg (by decide)
    rw [lastLine, lastLine, endWhile, endWhile, List.reverse_append, List.takeWhile_append, stops, List.append_nil]
    split
    next all =>
      have whole := List.takeWhile_append_dropWhile (p := (· != '\n')) (l := rest.reverse)
      have size := congrArg List.length whole
      rw [List.length_append] at size
      have none : List.dropWhile (· != '\n') rest.reverse = [] := List.length_eq_zero_iff.mp (by omega)
      rw [none, List.append_nil] at whole
      rw [whole]
    next => rfl

theorem line_above_behind (front rest : Text) (whole : WholeLines front) (some : rest ≠ []) :
    lineAbove (front ++ rest) = lineAbove rest := by
  rw [lineAbove, lineAbove, List.dropLast_append_of_ne_nil some, last_line_behind front _ whole]

theorem line_above_break (front : Text) : lineAbove (front ++ ['\n']) = lastLine front := by
  rw [lineAbove, List.dropLast_concat]

theorem whole_lines_behind (front rest : Text) (whole : WholeLines (front ++ rest)) (some : rest ≠ []) : ∃ lines,
    rest = lines ++ ['\n'] := by
  rcases whole with empty | ⟨lines, shape⟩
  · exact absurd (List.append_eq_nil_iff.mp empty).2 some
  · rcases List.eq_nil_or_concat rest with none | ⟨more, last, concat⟩
    · exact absurd none some
    · rw [List.concat_eq_append] at concat
      rw [concat, ← List.append_assoc] at shape
      obtain ⟨_, final⟩ := List.append_inj' shape rfl
      exact ⟨more, by rw [concat, final]⟩

theorem first_line_append (lines rest : Text) (broken : '\n' ∈ lines) : firstLine (lines ++ rest) = firstLine lines := by
  induction lines with
  | nil => cases broken
  | cons char more ih =>
      by_cases same : char = '\n'
      · rw [same]
        rfl
      · have later := ih ((List.mem_cons.mp broken).resolve_left fun equal => same equal.symm)
        have kept : (char != '\n') = true := by simp [same]
        rw [firstLine, firstLine, List.cons_append, List.takeWhile_cons_of_pos (l := more ++ rest) (p := (· != '\n')) kept,
          List.takeWhile_cons_of_pos (l := more) (p := (· != '\n')) kept]
        exact congrArg _ later

section Horizontal

variable (text : Text)

-- If only spaces stand on the last line, no more than they are trimmed.
theorem trim_last_line (spaces : (lastLine text).all isHorizontal = true) :
    text.trimEndWhile isHorizontal = wholeLines text ∧ text.endWhile isHorizontal = lastLine text := by
  have parts := whole_lines_append_last_line text
  have stops : List.dropWhile isHorizontal (wholeLines text).reverse = (wholeLines text).reverse := by
    rcases whole_lines_end text with none | ⟨lines, shape⟩
    · rw [none]
      rfl
    · rw [shape, List.reverse_append, List.reverse_singleton, List.singleton_append]
      exact List.dropWhile_cons_of_neg (by decide)
  have trimmed : text.trimEndWhile isHorizontal = wholeLines text := by
    conv => lhs; rw [← parts]
    rw [trimEndWhile, List.reverse_append, List.dropWhile_append_of_pos, stops, List.reverse_reverse]
    exact fun char member => List.all_eq_true.mp spaces char (List.mem_reverse.mp member)
  refine ⟨trimmed, ?_⟩
  have ends := trim_append_end isHorizontal text
  rw [trimmed] at ends
  exact List.append_cancel_left (ends.trans parts.symm)

-- If only spaces stand on the first line, they are followed by its break.
theorem drop_first_line (spaces : (firstLine text).all isHorizontal = true) :
    text.takeWhile isHorizontal = firstLine text ∧ text.dropWhile isHorizontal = text.dropWhile (· != '\n') := by
  induction text with
  | nil => exact ⟨rfl, rfl⟩
  | cons char rest ih =>
      by_cases same : char = '\n'
      · rw [same]
        exact ⟨rfl, rfl⟩
      · have kept : (char != '\n') = true := by simp [same]
        have shape : firstLine (char :: rest) = char :: firstLine rest := List.takeWhile_cons_of_pos kept
        rw [shape, List.all_cons, Bool.and_eq_true] at spaces
        obtain ⟨taken, dropped⟩ := ih spaces.2
        rw [List.takeWhile_cons_of_pos spaces.1, List.dropWhile_cons_of_pos spaces.1, List.dropWhile_cons_of_pos (p := (· != '\n')) kept,
          taken, dropped, shape]
        exact ⟨rfl, rfl⟩

theorem drop_to_break : text.dropWhile (· != '\n') = [] ∨ text.dropWhile (· != '\n') = '\n' :: restLines text := by
  cases shape : text.dropWhile (· != '\n') with
  | nil => exact .inl rfl
  | cons char rest =>
      have stopped := List.head?_dropWhile_not (· != '\n') text
      rw [shape] at stopped
      have same : char = '\n' := by simpa using stopped
      exact .inr (by rw [restLines, shape, same]; rfl)

end Horizontal

end ScriptTidy.Text
