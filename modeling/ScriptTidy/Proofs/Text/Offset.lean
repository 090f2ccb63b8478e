import ScriptTidy.Text.Basic

/-! Cutting a text at offsets between its characters. -/

set_option autoImplicit false

namespace ScriptTidy.Text

theorem before_append_add (front back : Text) (more : Nat) :
    before (front ++ back) (bytes front + more) = front ++ before back more := by
  induction front with
  | nil => simp
  | cons char rest ih =>
      have fits : char.utf8Size ≤ char.utf8Size + bytes rest + more := by omega
      have left : char.utf8Size + bytes rest + more - char.utf8Size = bytes rest + more := by omega
      simp only [List.cons_append, bytes_cons, before, if_pos fits, left, ih]

theorem after_append_add (front back : Text) (more : Nat) :
    after (front ++ back) (bytes front + more) = after back more := by
  induction front with
  | nil => simp
  | cons char rest ih =>
      have fits : char.utf8Size ≤ char.utf8Size + bytes rest + more := by omega
      have left : char.utf8Size + bytes rest + more - char.utf8Size = bytes rest + more := by omega
      simp only [List.cons_append, bytes_cons, after, if_pos fits, left, ih]

theorem before_zero (text : Text) : before text 0 = [] := by
  cases text with
  | nil => rfl
  | cons char rest =>
      have size := Char.utf8Size_pos char
      rw [before, if_neg (by omega)]

theorem after_zero (text : Text) : after text 0 = text := by
  have whole := before_append_after text 0
  rwa [before_zero, List.nil_append] at whole

theorem before_append (front back : Text) : before (front ++ back) (bytes front) = front := by
  simpa [before_zero] using before_append_add front back 0

theorem after_append (front back : Text) : after (front ++ back) (bytes front) = back := by
  simpa [after_zero] using after_append_add front back 0

theorem before_bytes (text : Text) : before text (bytes text) = text := by
  simpa using before_append text []

theorem boundary_append (front back : Text) : IsBoundary (front ++ back) (bytes front) := by
  rw [IsBoundary, before_append]

theorem boundary_zero (text : Text) : IsBoundary text 0 := by
  rw [IsBoundary, before_zero, bytes_nil]

theorem boundary_bytes (text : Text) : IsBoundary text (bytes text) := by
  rw [IsBoundary, before_bytes]

theorem boundary_split (text : Text) (offset : Nat) (boundary : IsBoundary text offset) :
    ∃ front back, text = front ++ back ∧ bytes front = offset :=
  ⟨before text offset, after text offset, (before_append_after text offset).symm, boundary⟩

theorem boundary_le (text : Text) (offset : Nat) (boundary : IsBoundary text offset) : offset ≤ bytes text := by
  obtain ⟨front, back, rfl, rfl⟩ := boundary_split text offset boundary
  simp

-- Every fact about two offsets in order is read off the three parts of the text that they make.
theorem boundary_parts (text : Text) (start stop : Nat) (first : IsBoundary text start) (last : IsBoundary text stop)
    (ordered : start ≤ stop) : ∃ front middle back, text = front ++ (middle ++ back) ∧
      bytes front = start ∧ bytes front + bytes middle = stop := by
  obtain ⟨front, back, rfl, rfl⟩ := boundary_split text start first
  obtain ⟨more, rfl⟩ := Nat.exists_eq_add_of_le ordered
  rw [IsBoundary, before_append_add, bytes_append] at last
  refine ⟨front, before back more, after back more, ?_, rfl, last⟩
  rw [before_append_after]

theorem between_parts (front middle back : Text) :
    between (front ++ (middle ++ back)) (bytes front) (bytes front + bytes middle) = middle := by
  rw [between, before_append_add, before_append, after_append]

theorem boundary_middle (front middle back : Text) :
    IsBoundary (front ++ (middle ++ back)) (bytes front + bytes middle) := by
  rw [← bytes_append, ← List.append_assoc]
  exact boundary_append _ _

theorem bytes_between (text : Text) (start stop : Nat) (first : IsBoundary text start) (last : IsBoundary text stop)
    (ordered : start ≤ stop) : start + bytes (text.between start stop) = stop := by
  obtain ⟨front, middle, back, rfl, rfl, rfl⟩ := boundary_parts text start stop first last ordered
  rw [between_parts]

theorem between_append (text : Text) (start middle stop : Nat) (first : IsBoundary text start)
    (second : IsBoundary text middle) (last : IsBoundary text stop) (ordered : start ≤ middle) (later : middle ≤ stop) :
    text.between start middle ++ text.between middle stop = text.between start stop := by
  obtain ⟨front, one, back, rfl, rfl, rfl⟩ := boundary_parts text start middle first second ordered
  obtain ⟨more, rfl⟩ := Nat.exists_eq_add_of_le later
  have inner : IsBoundary back more := by
    rw [IsBoundary, ← List.append_assoc, ← bytes_append, before_append_add, bytes_append] at last
    exact Nat.add_left_cancel last
  obtain ⟨two, rest, rfl, rfl⟩ := boundary_split back more inner
  have whole := between_parts front (one ++ two) rest
  have right := between_parts (front ++ one) two rest
  simp only [bytes_append, List.append_assoc, ← Nat.add_assoc] at whole right ⊢
  rw [between_parts, whole, right]

theorem before_append_between (text : Text) (start stop : Nat) (first : IsBoundary text start)
    (last : IsBoundary text stop) (ordered : start ≤ stop) :
    text.before start ++ text.between start stop = text.before stop := by
  obtain ⟨front, middle, back, rfl, rfl, rfl⟩ := boundary_parts text start stop first last ordered
  rw [between_parts, before_append, before_append_add, before_append]

theorem between_append_after (text : Text) (start stop : Nat) (first : IsBoundary text start)
    (last : IsBoundary text stop) (ordered : start ≤ stop) :
    text.between start stop ++ text.after stop = text.after start := by
  obtain ⟨front, middle, back, rfl, rfl, rfl⟩ := boundary_parts text start stop first last ordered
  rw [between_parts, after_append, after_append_add, after_append]

theorem between_self (text : Text) (offset : Nat) (boundary : IsBoundary text offset) : text.between offset offset = [] := by
  obtain ⟨front, back, rfl, rfl⟩ := boundary_split text offset boundary
  simpa using between_parts front [] back

theorem between_bytes (text : Text) (start : Nat) : text.between start (bytes text) = text.after start := by
  rw [between, before_bytes]

theorem between_zero (text : Text) (stop : Nat) : text.between 0 stop = text.before stop := by
  rw [between, after_zero]

-- A piece of a text may be cut again: its own pieces stand at the offsets counted from its start.
theorem boundary_within (text : Text) (start stop : Nat) (front back : Text) (first : IsBoundary text start)
    (last : IsBoundary text stop) (ordered : start ≤ stop) (parts : text.between start stop = front ++ back) :
    IsBoundary text (start + bytes front) ∧ text.between start (start + bytes front) = front ∧
      text.between (start + bytes front) stop = back := by
  obtain ⟨head, middle, tail, rfl, rfl, rfl⟩ := boundary_parts text start stop first last ordered
  rw [between_parts] at parts
  subst middle
  have left := between_parts head front (back ++ tail)
  have right := between_parts (head ++ front) back tail
  have boundary := boundary_middle head front (back ++ tail)
  simp only [List.append_assoc, bytes_append, ← Nat.add_assoc] at left right boundary ⊢
  exact ⟨boundary, left, right⟩

theorem slice_of_boundaries (text : Text) (start stop : Nat) (first : IsBoundary text start)
    (last : IsBoundary text stop) (ordered : start ≤ stop) : text.slice? start stop = some (text.between start stop) := by
  rw [slice?, if_pos ⟨ordered, first, last⟩]

-- Characters of one byte each.
def IsNarrow (text : Text) : Prop := text.all (·.utf8Size == 1) = true

instance (text : Text) : Decidable text.IsNarrow := inferInstanceAs (Decidable (_ = true))

theorem bytes_narrow (text : Text) (narrow : text.IsNarrow) : bytes text = text.length := by
  induction text with
  | nil => rfl
  | cons char rest ih =>
      obtain ⟨one, others⟩ := Bool.and_eq_true_iff.mp narrow
      rw [bytes_cons, ih others, List.length_cons, beq_iff_eq.mp one, Nat.add_comm]

theorem boundary_narrow (text : Text) (narrow : text.IsNarrow) (offset : Nat) (within : offset ≤ text.length) :
    IsBoundary text offset := by
  have front : IsNarrow (text.take offset) :=
    List.all_eq_true.mpr fun char member => List.all_eq_true.mp narrow char (List.mem_of_mem_take member)
  have size := bytes_narrow _ front
  rw [List.length_take, Nat.min_eq_left within] at size
  have whole := boundary_append (text.take offset) (text.drop offset)
  rwa [List.take_append_drop, size] at whole

end ScriptTidy.Text
