import ScriptTidy.Proofs.Text.Solid

/-! Pieces of a text that stand one behind another, and what is left of it outside some offsets. -/

set_option autoImplicit false

namespace ScriptTidy.Text

-- The pieces stand in the text in this order, and no two of them share a character.
def InTurn : List Text → Text → Prop
  | [], _ => True
  | piece :: rest, text => ∃ front back, text = front ++ piece ++ back ∧ InTurn rest back

-- The characters whose offsets are not covered. The text begins at `offset`.
def outside (covered : Nat → Bool) (offset : Nat) : Text → Text
  | [] => []
  | char :: rest =>
      if covered offset then outside covered (offset + char.utf8Size) rest
      else char :: outside covered (offset + char.utf8Size) rest

def visible (text : Text) : Text := text.filter fun char => !isBlank char

-- What stands between the nodes of a tree, comments apart: blanks, and marks that take no room.
def isSkipped (char : Char) : Bool := isBlank char || char == '\uFEFF' || char == '\u200B' || char == '\u2060'

def StartsShown (text : Text) (offset : Nat) : Prop := (text.after offset).head?.any (fun char => !isSkipped char) = true

def shown (text : Text) : Text := text.filter fun char => !isSkipped char

instance (text : Text) (offset : Nat) : Decidable (text.StartsShown offset) := inferInstanceAs (Decidable (_ = true))

theorem skipped_of_blank (char : Char) (blank : isBlank char = true) : isSkipped char = true := by
  simp [isSkipped, blank]

theorem starts_solid_of_shown (text : Text) (offset : Nat) (starts : text.StartsShown offset) : text.StartsSolid offset := by
  unfold StartsShown at starts
  unfold StartsSolid
  cases head : (text.after offset).head? with
  | none => rw [head] at starts; cases starts
  | some char =>
      rw [head] at starts
      cases blank : isBlank char with
      | false => simp [blank]
      | true => simp [skipped_of_blank char blank] at starts

theorem shown_visible (text : Text) : (shown text).Sublist (visible text) := by
  have same : shown text = (visible text).filter fun char => !isSkipped char := by
    rw [shown, visible, List.filter_filter]
    refine List.filter_congr fun char _ => ?_
    cases blank : isBlank char with
    | false => simp
    | true => simp [skipped_of_blank char blank]
  exact same ▸ List.filter_sublist

theorem in_turn_append_left (pieces : List Text) (front text : Text) (placed : InTurn pieces text) :
    InTurn pieces (front ++ text) := by
  cases pieces with
  | nil => trivial
  | cons piece rest =>
      obtain ⟨head, back, rfl, later⟩ := placed
      exact ⟨front ++ head, back, by simp, later⟩

theorem outside_append (covered : Nat → Bool) (offset : Nat) (front back : Text) :
    outside covered offset (front ++ back) = outside covered offset front ++ outside covered (offset + bytes front) back := by
  induction front generalizing offset with
  | nil => rfl
  | cons char rest ih =>
      rw [List.cons_append, outside, outside, ih, bytes_cons, Nat.add_assoc]
      split <;> rfl

theorem outside_sublist (covered : Nat → Bool) (offset : Nat) (text : Text) : (outside covered offset text).Sublist text := by
  induction text generalizing offset with
  | nil => exact .slnil
  | cons char rest ih =>
      rw [outside]
      split
      · exact (ih _).cons char
      · exact (ih _).cons_cons char

theorem outside_all (covered : Nat → Bool) (wanted : Char → Bool) (offset : Nat) (text : Text)
    (all : ∀ front char back, text = front ++ char :: back → wanted char = true → covered (offset + bytes front) = true) :
    (outside covered offset text).filter wanted = [] := by
  induction text generalizing offset with
  | nil => rfl
  | cons char rest ih =>
      have later := ih (offset + char.utf8Size) fun front item back shape shown => by
        have inside := all (char :: front) item back (by rw [shape]; rfl) shown
        rwa [bytes_cons, ← Nat.add_assoc] at inside
      rw [outside]
      split
      next => exact later
      next out =>
        have hidden : ¬ wanted char = true := fun shown => out (all [] char rest rfl shown)
        rw [List.filter_cons_of_neg hidden, later]

theorem all_between (text : Text) (wanted : Char → Bool) (start stop : Nat) (first : text.IsBoundary start)
    (last : text.IsBoundary stop) (ordered : start ≤ stop)
    (each : ∀ offset, text.IsBoundary offset → start ≤ offset → offset < stop → ∀ char ∈ (text.after offset).head?,
      wanted char = true) : (text.between start stop).all wanted = true := by
  obtain ⟨front, middle, back, rfl, rfl, rfl⟩ := boundary_parts text start stop first last ordered
  rw [between_parts, List.all_eq_true]
  intro char member
  obtain ⟨head, tail, rfl⟩ := List.append_of_mem member
  have size := Char.utf8Size_pos char
  have shape : front ++ ((head ++ char :: tail) ++ back) = front ++ head ++ char :: (tail ++ back) := by simp
  refine each (bytes front + bytes head) ?_ (Nat.le_add_right _ _) ?_ char ?_
  · rw [shape, ← bytes_append]
    exact boundary_append _ _
  · rw [bytes_append, bytes_cons]
    omega
  · rw [shape, ← bytes_append, after_append]
    rfl

-- Between two offsets either all is blank, or something stands there.
theorem solid_between (text : Text) (start stop : Nat) (first : text.IsBoundary start) (last : text.IsBoundary stop)
    (ordered : start ≤ stop) (shown : ¬ (text.between start stop).all isBlank = true) :
    ∃ offset, text.IsBoundary offset ∧ text.StartsSolid offset ∧ start ≤ offset ∧ offset < stop := by
  apply Classical.byContradiction
  intro missing
  refine shown (all_between text isBlank start stop first last ordered fun offset boundary lower upper char head => ?_)
  cases blank : isBlank char with
  | true => rfl
  | false =>
      have shape : (text.after offset).head? = some char := head
      exact absurd ⟨offset, boundary, by simp [StartsSolid, shape, blank], lower, upper⟩ missing

theorem char_within (text : Text) (start stop : Nat) (first : text.IsBoundary start) (last : text.IsBoundary stop)
    (ordered : start ≤ stop) (front : Text) (char : Char) (back : Text) (shape : text.between start stop = front ++ char :: back) :
    text.IsBoundary (start + bytes front) ∧ (text.after (start + bytes front)).head? = some char ∧
      start + bytes front < stop := by
  obtain ⟨boundary, _, right⟩ := boundary_within text start stop front (char :: back) first last ordered shape
  have size := bytes_between text start stop first last ordered
  have width := Char.utf8Size_pos char
  rw [shape, bytes_append, bytes_cons] at size
  have upper : start + bytes front < stop := by omega
  refine ⟨boundary, ?_, upper⟩
  rw [← between_append_after text _ stop boundary last (by omega), right]
  rfl

theorem between_shown (text : Text) (start stop : Nat) (first : text.IsBoundary start) (last : text.IsBoundary stop)
    (wide : start < stop) (starts : text.StartsShown start) :
    ∃ char rest, text.between start stop = char :: rest ∧ isSkipped char = false := by
  have whole := between_append_after text start stop first last (Nat.le_of_lt wide)
  have size := bytes_between text start stop first last (Nat.le_of_lt wide)
  rw [StartsShown, ← whole] at starts
  cases shape : text.between start stop with
  | nil => rw [shape, bytes_nil] at size; omega
  | cons char rest =>
      rw [shape] at starts
      exact ⟨char, rest, rfl, by simpa using starts⟩

-- What is shown between two offsets is covered, if no more than skipped characters are left uncovered there.
theorem covered_between (covered : Nat → Bool) (text : Text) (start stop : Nat) (first : text.IsBoundary start)
    (last : text.IsBoundary stop) (gaps : (outside covered start (text.between start stop)).all isSkipped = true) (offset : Nat)
    (boundary : text.IsBoundary offset) (lower : start ≤ offset) (upper : offset < stop) (starts : text.StartsShown offset) :
    covered offset = true := by
  have parts := between_append text start offset stop first boundary last lower (Nat.le_of_lt upper)
  have size := bytes_between text start offset first boundary lower
  obtain ⟨char, rest, shape, visible⟩ := between_shown text offset stop boundary last upper starts
  rw [← parts, outside_append, size, shape, List.all_append, Bool.and_eq_true, outside] at gaps
  by_cases inside : covered offset = true
  · exact inside
  · rw [if_neg inside, List.all_cons, visible] at gaps
    exact absurd gaps.2 (by simp)

theorem solid_within (text : Text) (start stop : Nat) (first : text.IsBoundary start) (last : text.IsBoundary stop)
    (ordered : start ≤ stop) (front : Text) (char : Char) (back : Text) (shape : text.between start stop = front ++ char :: back)
    (shown : (!isBlank char) = true) :
    text.IsBoundary (start + bytes front) ∧ text.StartsSolid (start + bytes front) ∧ start + bytes front < stop := by
  obtain ⟨boundary, head, upper⟩ := char_within text start stop first last ordered front char back shape
  exact ⟨boundary, by rw [StartsSolid, head]; exact shown, upper⟩

end ScriptTidy.Text
