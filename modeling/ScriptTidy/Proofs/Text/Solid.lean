import Mathlib.Data.List.TakeWhile
import ScriptTidy.Proofs.Text.Offset

/-! Ends of statements and comments: what stands there keeps blanks around it apart. -/

set_option autoImplicit false

namespace ScriptTidy.Text

def StartsSolid (text : Text) (offset : Nat) : Prop := (text.after offset).head?.any (fun char => !isBlank char) = true

-- The character in front of the offset is no blank.
def EndsVisible (text : Text) (offset : Nat) : Prop := (text.before offset).getLast?.any (fun char => !isBlank char) = true

-- Something stands in front of the offset on its line.
def EndsShown (text : Text) (offset : Nat) : Prop := (text.lineBefore offset).any (fun char => !isBlank char) = true

def isLineEnd (char : Char) : Bool := char == '\n' || char == '\u2028' || char == '\u2029'

-- A line comment may end with blanks; then its line ends there.
def EndsSolid (text : Text) (offset : Nat) : Prop :=
  text.EndsShown offset ∧
    (text.EndsVisible offset ∨
      ((text.after offset).dropWhile (· == '\r')).head?.all isLineEnd = true)

-- Nothing but a line break, if anything, follows on the line.
def EndsLine (text : Text) (offset : Nat) : Prop := (text.after offset).head?.all (· == '\n') = true

-- The two forms of a text that does not end inside a line.
def WholeLines (text : Text) : Prop := text = [] ∨ ∃ lines, text = lines ++ ['\n']

instance (text : Text) (offset : Nat) : Decidable (text.StartsSolid offset) := inferInstanceAs (Decidable (_ = _))

instance (text : Text) (offset : Nat) : Decidable (text.EndsVisible offset) := inferInstanceAs (Decidable (_ = _))

instance (text : Text) (offset : Nat) : Decidable (text.EndsShown offset) := inferInstanceAs (Decidable (_ = _))

instance (text : Text) (offset : Nat) : Decidable (text.EndsLine offset) := inferInstanceAs (Decidable (_ = _))

instance (text : Text) (offset : Nat) : Decidable (text.EndsSolid offset) := inferInstanceAs (Decidable (_ ∧ _))

theorem horizontal_blank (char : Char) (horizontal : isHorizontal char = true) : isBlank char = true := by
  simp only [isHorizontal, Bool.or_eq_true, beq_iff_eq] at horizontal
  rcases horizontal with (rfl | rfl) | rfl <;> decide

theorem indent_blank (char : Char) (indent : isIndent char = true) : isBlank char = true := by
  simp only [isIndent, Bool.or_eq_true, beq_iff_eq] at indent
  rcases indent with rfl | rfl <;> decide

theorem horizontal_not_break (char : Char) (horizontal : isHorizontal char = true) : char ≠ '\n' := by
  rintro rfl
  exact absurd horizontal (by decide)

theorem indent_not_break (char : Char) (indent : isIndent char = true) : char ≠ '\n' := by
  rintro rfl
  exact absurd indent (by decide)

theorem trim_append_end (keep : Char → Bool) (text : Text) : text.trimEndWhile keep ++ text.endWhile keep = text := by
  rw [trimEndWhile, endWhile, ← List.reverse_append, List.takeWhile_append_dropWhile, List.reverse_reverse]

theorem end_while_all (keep : Char → Bool) (text : Text) : (text.endWhile keep).all keep = true := by
  rw [endWhile, List.all_reverse]
  exact List.all_takeWhile

theorem starts_solid_cons (text : Text) (offset : Nat) (solid : text.StartsSolid offset) :
    ∃ char rest, text.after offset = char :: rest ∧ isBlank char = false := by
  unfold StartsSolid at solid
  cases shape : text.after offset with
  | nil => simp [shape] at solid
  | cons char rest => exact ⟨char, rest, rfl, by simpa [shape] using solid⟩

theorem starts_solid_lt (text : Text) (offset : Nat) (boundary : text.IsBoundary offset) (solid : text.StartsSolid offset) :
    offset < bytes text := by
  obtain ⟨char, rest, shape, _⟩ := starts_solid_cons text offset solid
  have size := Char.utf8Size_pos char
  have whole := congrArg bytes (before_append_after text offset)
  rw [bytes_append, boundary, shape, bytes_cons] at whole
  omega

-- A solid start is never between blanks.
theorem not_blank_of_solid (text : Text) (start offset stop : Nat) (first : text.IsBoundary start)
    (middle : text.IsBoundary offset) (last : text.IsBoundary stop) (lower : start ≤ offset) (upper : offset < stop)
    (solid : text.StartsSolid offset) : (text.between start stop).all isBlank = false := by
  obtain ⟨char, rest, shape, visible⟩ := starts_solid_cons text offset solid
  have right := between_append_after text offset stop middle last (by omega)
  have size := bytes_between text offset stop middle last (by omega)
  rw [← between_append text start offset stop first middle last lower (by omega), List.all_append]
  cases inner : text.between offset stop with
  | nil => simp only [inner, bytes_nil] at size; omega
  | cons head tail =>
      rw [inner, shape, List.cons_append, List.cons.injEq] at right
      simp [right.1, visible]

theorem last_line_append (front line : Text) (unbroken : '\n' ∉ line) : lastLine (front ++ line) = lastLine front ++ line := by
  have free : ∀ item ∈ line.reverse, (item != '\n') = true := by
    intro item member
    simpa using ne_of_mem_of_not_mem (List.mem_reverse.mp member) unbroken
  rw [lastLine, endWhile, List.reverse_append, List.takeWhile_append_of_pos free, List.reverse_append, List.reverse_reverse,
    lastLine, endWhile]

theorem last_line_break (front : Text) : lastLine (front ++ ['\n']) = [] := by
  simp [lastLine, endWhile]

theorem last_line_suffix (text : Text) : lastLine text <:+ text := ⟨wholeLines text, whole_lines_append_last_line text⟩

theorem last_line_unbroken (text : Text) : '\n' ∉ lastLine text := by
  intro member
  have kept := List.mem_takeWhile_imp (List.mem_reverse.mp member)
  simp at kept

theorem whole_lines_end (text : Text) : WholeLines (wholeLines text) := by
  cases shape : text.reverse.dropWhile (· != '\n') with
  | nil => exact .inl (by rw [wholeLines, trimEndWhile, shape, List.reverse_nil])
  | cons char rest =>
      have stopped := List.head?_dropWhile_not (· != '\n') text.reverse
      rw [shape] at stopped
      have same : char = '\n' := by simpa using stopped
      exact .inr ⟨rest.reverse, by rw [wholeLines, trimEndWhile, shape, same, List.reverse_cons]⟩

-- The last line of a text that goes on after whole lines lies in what follows them.
theorem last_line_of_whole (front rest : Text) (whole : WholeLines front) :
    ∀ char ∈ lastLine (front ++ rest), char ∈ rest := by
  intro char member
  have parts := whole_lines_append_last_line rest
  rcases whole_lines_end rest with empty | ⟨lines, shape⟩
  · rw [empty, List.nil_append] at parts
    have unbroken : '\n' ∉ rest := parts ▸ last_line_unbroken rest
    rw [last_line_append front rest unbroken] at member
    rcases whole with rfl | ⟨lines, rfl⟩
    · simpa [lastLine, endWhile] using member
    · simpa [last_line_break] using member
  · rw [← parts, shape, ← List.append_assoc, ← List.append_assoc,
      last_line_append _ _ (last_line_unbroken rest), last_line_break, List.nil_append] at member
    exact (last_line_suffix rest).subset member

theorem line_start_boundary (text : Text) (offset : Nat) : text.IsBoundary (text.lineStart offset) := by
  have whole := before_append_after text offset
  rw [← whole_lines_append_last_line (text.before offset), List.append_assoc] at whole
  rw [lineStart]
  conv => arg 1; rw [← whole]
  exact boundary_append _ _

theorem line_start_between (text : Text) (offset : Nat) (boundary : text.IsBoundary offset) :
    text.lineStart offset ≤ offset ∧ text.between (text.lineStart offset) offset = text.lineBefore offset := by
  have parts := whole_lines_append_last_line (text.before offset)
  have size : bytes (text.before offset) = offset := boundary
  have ordered : text.lineStart offset ≤ offset := by
    rw [← parts, bytes_append] at size
    rw [lineStart]
    omega
  refine ⟨ordered, ?_⟩
  have cut := before_append_between text _ _ (line_start_boundary text offset) boundary ordered
  have front : text.before (text.lineStart offset) = wholeLines (text.before offset) := by
    have whole := before_append_after text offset
    rw [← parts, List.append_assoc] at whole
    rw [lineStart]
    conv => lhs; arg 1; rw [← whole]
    exact before_append _ _
  rw [front] at cut
  exact List.append_cancel_left (cut.trans parts.symm)

theorem next_line_start_spec (text : Text) (offset : Nat) (boundary : text.IsBoundary offset) :
    text.IsBoundary (text.nextLineStart offset) ∧ offset ≤ text.nextLineStart offset ∧
      text.between offset (text.nextLineStart offset) =
        (text.after offset).takeWhile (· != '\n') ++ ((text.after offset).dropWhile (· != '\n')).take 1 := by
  have parts := List.takeWhile_append_dropWhile (p := (· != '\n')) (l := text.after offset)
  have cut := boundary_within text offset (bytes text) ((text.after offset).takeWhile (· != '\n') ++
      ((text.after offset).dropWhile (· != '\n')).take 1) (((text.after offset).dropWhile (· != '\n')).drop 1) boundary
    (boundary_bytes text) (boundary_le text offset boundary) (by
      rw [between_bytes, List.append_assoc, List.take_append_drop, parts])
  rw [bytes_append, ← Nat.add_assoc] at cut
  exact ⟨cut.1, by rw [nextLineStart]; omega, cut.2.1⟩

-- Of a line that ends at an offset only the line break is left.
theorem ends_line_blank (text : Text) (offset : Nat) (boundary : text.IsBoundary offset) (ends : text.EndsLine offset) :
    (text.between offset (text.nextLineStart offset)).all isBlank = true := by
  rw [(next_line_start_spec text offset boundary).2.2]
  rw [EndsLine] at ends
  cases shape : text.after offset with
  | nil => rfl
  | cons char rest =>
      have same : char = '\n' := by simpa [shape] using ends
      subst same
      simp [isBlank, blankRanges]

theorem next_line_break (text : Text) (offset : Nat) (boundary : text.IsBoundary offset) (ends : text.EndsLine offset)
    (some : text.between offset (text.nextLineStart offset) ≠ []) :
    text.between offset (text.nextLineStart offset) = ['\n'] := by
  rw [(next_line_start_spec text offset boundary).2.2] at some ⊢
  rw [EndsLine] at ends
  cases shape : text.after offset with
  | nil => simp [shape] at some
  | cons char rest =>
      have same : char = '\n' := by simpa [shape] using ends
      subst same
      rfl

theorem line_start_if_indented_spec (text : Text) (offset : Nat) (boundary : text.IsBoundary offset) :
    text.IsBoundary (text.lineStartIfIndented offset) ∧ text.lineStartIfIndented offset ≤ offset ∧
      (text.between (text.lineStartIfIndented offset) offset).all isIndent = true := by
  unfold lineStartIfIndented
  by_cases indented : (text.lineBefore offset).all isIndent = true
  · rw [if_pos indented]
    have bounds := line_start_between text offset boundary
    exact ⟨line_start_boundary text offset, bounds.1, bounds.2 ▸ indented⟩
  · rw [if_neg indented]
    exact ⟨boundary, Nat.le_refl offset, by rw [between_self text offset boundary]; rfl⟩

-- Going back over indentation stops at any offset with something else in front of it or behind it.
theorem le_line_start_if_indented (text : Text) (offset limit : Nat) (boundary : text.IsBoundary offset)
    (limitBoundary : text.IsBoundary limit) (ordered : limit ≤ offset)
    (stops : (∃ char ∈ (text.before limit).getLast?, isIndent char = false) ∨
      ∃ char ∈ text.between limit offset, isIndent char = false) : limit ≤ text.lineStartIfIndented offset := by
  obtain ⟨start, early, indented⟩ := line_start_if_indented_spec text offset boundary
  apply Classical.byContradiction
  intro inside
  have lower : text.lineStartIfIndented offset ≤ limit := by omega
  rw [← between_append text _ limit offset start limitBoundary boundary lower ordered, List.all_append,
    Bool.and_eq_true, List.all_eq_true, List.all_eq_true] at indented
  rcases stops with ⟨char, final, other⟩ | ⟨char, member, other⟩
  · have size := bytes_between text _ limit start limitBoundary lower
    have joined := before_append_between text _ limit start limitBoundary lower
    rcases List.eq_nil_or_concat (text.between (text.lineStartIfIndented offset) limit) with shape | ⟨front, back, shape⟩
    · simp only [shape, bytes_nil] at size
      omega
    · rw [List.concat_eq_append] at shape
      rw [← joined, shape, ← List.append_assoc, List.getLast?_concat] at final
      have same : back = char := by simpa using final
      have blank := indented.1 back (by simp [shape])
      rw [same, other] at blank
      exact Bool.noConfusion blank
  · exact Bool.noConfusion (other.symm.trans (indented.2 char member))

theorem shown_le_line_start (text : Text) (stop start : Nat) (last : text.IsBoundary stop) (first : text.IsBoundary start)
    (ordered : stop ≤ start) (shown : text.EndsShown stop) : stop ≤ text.lineStartIfIndented start := by
  by_cases broken : '\n' ∈ text.between stop start
  · exact le_line_start_if_indented text start stop first last ordered (.inr ⟨'\n', broken, by decide⟩)
  · have line : text.lineBefore start = text.lineBefore stop ++ text.between stop start := by
      rw [lineBefore, ← before_append_between text stop start last first ordered, last_line_append _ _ broken, lineBefore]
    obtain ⟨char, member, visible⟩ := List.any_eq_true.mp shown
    have other : ¬ (text.lineBefore start).all isIndent = true := by
      intro indented
      have blank := indent_blank char (List.all_eq_true.mp indented char (line ▸ List.mem_append_left _ member))
      simp [blank] at visible
    rw [lineStartIfIndented, if_neg other]
    exact ordered

theorem ends_visible_concat (text : Text) (offset : Nat) (ends : text.EndsVisible offset) :
    ∃ front char, text.before offset = front ++ [char] ∧ isBlank char = false := by
  unfold EndsVisible at ends
  rcases List.eq_nil_or_concat (text.before offset) with none | ⟨front, char, shape⟩
  · simp [none] at ends
  · rw [List.concat_eq_append] at shape
    rw [shape, List.getLast?_concat] at ends
    exact ⟨front, char, shape, by simpa using ends⟩

theorem ends_visible_shown (text : Text) (offset : Nat) (ends : text.EndsVisible offset) : text.EndsShown offset := by
  obtain ⟨front, char, shape, visible⟩ := ends_visible_concat text offset ends
  have unbroken : '\n' ∉ [char] := by
    intro member
    obtain rfl := List.mem_singleton.mp member
    exact absurd visible (by decide)
  rw [EndsShown, lineBefore, shape, last_line_append front [char] unbroken]
  simp [visible]

-- Blanks are cut off only behind the last character that is none.
theorem trim_end_append (front : Text) (char : Char) (back : Text) (visible : isBlank char = false) :
    trimEnd (front ++ char :: back) = front ++ char :: trimEnd back := by
  have stops : List.dropWhile isBlank (char :: front.reverse) = char :: front.reverse :=
    List.dropWhile_cons_of_neg (by simp [visible])
  have shape : (front ++ char :: back).reverse = back.reverse ++ char :: front.reverse := by simp
  rw [trimEnd, trimEndWhile, shape, List.dropWhile_append, trimEnd, trimEndWhile]
  split
  next none => simp [stops, List.isEmpty_iff.mp none]
  next => simp

theorem trim_end_parts (text : Text) : ∃ blanks, text = trimEnd text ++ blanks ∧ blanks.all isBlank = true :=
  ⟨text.endWhile isBlank, (trim_append_end isBlank text).symm, end_while_all isBlank text⟩

-- What ends with a visible character is not trimmed.
theorem trim_between (text : Text) (start middle stop : Nat) (first : text.IsBoundary start) (second : text.IsBoundary middle)
    (last : text.IsBoundary stop) (ordered : start ≤ middle) (later : middle ≤ stop) (ends : text.EndsVisible middle) :
    trimEnd (text.between start stop) = text.between start middle ++ trimEnd (text.between middle stop) := by
  obtain ⟨front, char, shape, visible⟩ := ends_visible_concat text middle ends
  have whole := before_append_between text start middle first second ordered
  rw [← between_append text start middle stop first second last ordered later]
  rcases List.eq_nil_or_concat (text.between start middle) with none | ⟨more, other, concat⟩
  · rw [none, List.nil_append, List.nil_append]
  · rw [List.concat_eq_append] at concat
    rw [concat, shape, ← List.append_assoc] at whole
    obtain rfl := List.singleton_inj.mp (List.append_inj' whole rfl).2
    rw [concat, List.append_assoc, List.append_assoc, List.singleton_append, List.singleton_append]
    exact trim_end_append more other _ visible

end ScriptTidy.Text
