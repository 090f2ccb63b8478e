import ScriptTidy.Proofs.Edit.Reach

/-! Removals after they have grown: where they begin and end in the text. -/

set_option autoImplicit false

namespace ScriptTidy.Edit

open Text

def InText (text : Text) (edit : Edit) : Prop :=
  edit.start ≤ edit.stop ∧ text.IsBoundary edit.start ∧ text.IsBoundary edit.stop

-- An edit that has no byte in common with a range.
def ClearOf (edit : Edit) (start stop : Nat) : Prop := stop ≤ edit.start ∨ edit.stop ≤ start

theorem widened_splice (text : Text) (edit : Edit) (splice : edit.kind = .splice) : edit.widened text = edit := by
  rw [widened, splice]

theorem widened_text (text : Text) (edit : Edit) : (edit.widened text).text = edit.text := by
  obtain ⟨start, stop, fresh, kind⟩ := edit
  cases kind <;> rfl

theorem widened_kind (text : Text) (edit : Edit) : (edit.widened text).kind = edit.kind := by
  obtain ⟨start, stop, fresh, kind⟩ := edit
  cases kind <;> rfl

theorem widened_removal (text : Text) (edit : Edit) (removal : edit.kind = .removal) :
    edit.widened text = { edit with
      start := edit.start - bytes (Reach.of (text.before edit.start) (text.after edit.stop)).left
      stop := edit.stop + bytes (Reach.of (text.before edit.start) (text.after edit.stop)).right } := by
  rw [widened, removal]

theorem widened_left (text : Text) (edit : Edit) (removal : edit.kind = .removal) (valid : edit.InText text) :
    text.IsBoundary (edit.widened text).start ∧ (edit.widened text).start ≤ edit.start ∧
      text.between (edit.widened text).start edit.start =
        (Reach.of (text.before edit.start) (text.after edit.stop)).left := by
  obtain ⟨front, parts, _, _⟩ := reach_left_shape (text.before edit.start) (text.after edit.stop)
  rw [widened_removal text edit removal]
  generalize (Reach.of (text.before edit.start) (text.after edit.stop)).left = left at parts ⊢
  have cut := boundary_within text 0 edit.start front left (boundary_zero text) valid.2.1 (Nat.zero_le _)
    ((between_zero text edit.start).trans parts)
  have size : bytes (text.before edit.start) = edit.start := valid.2.1
  rw [parts, bytes_append] at size
  have start : edit.start - bytes left = 0 + bytes front := by omega
  rw [start]
  refine ⟨cut.1, ?_, cut.2.2⟩
  show 0 + bytes front ≤ edit.start
  omega

theorem widened_right (text : Text) (edit : Edit) (removal : edit.kind = .removal) (valid : edit.InText text) :
    text.IsBoundary (edit.widened text).stop ∧ edit.stop ≤ (edit.widened text).stop ∧
      text.between edit.stop (edit.widened text).stop =
        (Reach.of (text.before edit.start) (text.after edit.stop)).right := by
  obtain ⟨rest, parts, _, _⟩ := reach_right_shape (text.before edit.start) (text.after edit.stop)
  rw [widened_removal text edit removal]
  generalize (Reach.of (text.before edit.start) (text.after edit.stop)).right = right at parts ⊢
  have cut := boundary_within text edit.stop (bytes text) right rest valid.2.2 (boundary_bytes text)
    (boundary_le text edit.stop valid.2.2) ((between_bytes text edit.stop).trans parts)
  exact ⟨cut.1, Nat.le_add_right _ _, cut.2.1⟩

theorem widened_in_text (text : Text) (edit : Edit) (valid : edit.InText text) : (edit.widened text).InText text := by
  cases kind : edit.kind with
  | splice => rwa [widened_splice text edit kind]
  | removal =>
      have left := widened_left text edit kind valid
      have right := widened_right text edit kind valid
      exact ⟨Nat.le_trans left.2.1 (Nat.le_trans valid.1 right.2.1), left.1, right.1⟩

-- A solid start inside a grown removal lies in the removal as it was recorded.
theorem widened_covers_solid (text : Text) (edit : Edit) (valid : edit.InText text) (offset : Nat)
    (boundary : text.IsBoundary offset) (solid : text.StartsSolid offset) (lower : (edit.widened text).start ≤ offset)
    (upper : offset < (edit.widened text).stop) : edit.start ≤ offset ∧ offset < edit.stop := by
  cases kind : edit.kind with
  | splice =>
      rw [widened_splice text edit kind] at lower upper
      exact ⟨lower, upper⟩
  | removal =>
      have left := widened_left text edit kind valid
      have right := widened_right text edit kind valid
      obtain ⟨_, _, leftBlank, _⟩ := reach_left_shape (text.before edit.start) (text.after edit.stop)
      obtain ⟨_, _, rightBlank, _⟩ := reach_right_shape (text.before edit.start) (text.after edit.stop)
      constructor
      · apply Nat.le_of_not_lt
        intro inside
        have visible := not_blank_of_solid text _ offset edit.start left.1 boundary valid.2.1 lower inside solid
        rw [left.2.2, leftBlank] at visible
        exact Bool.noConfusion visible
      · apply Nat.lt_of_not_le
        intro inside
        have visible := not_blank_of_solid text edit.stop offset _ valid.2.2 boundary right.1 inside upper solid
        rw [right.2.2, rightBlank] at visible
        exact Bool.noConfusion visible

theorem widened_stop_le_solid (text : Text) (edit : Edit) (valid : edit.InText text) (offset : Nat)
    (boundary : text.IsBoundary offset) (solid : text.StartsSolid offset) (ordered : edit.stop ≤ offset) :
    (edit.widened text).stop ≤ offset := by
  apply Nat.le_of_not_lt
  intro inside
  have started : (edit.widened text).start ≤ offset := by
    cases kind : edit.kind with
    | splice =>
        rw [widened_splice text edit kind]
        exact Nat.le_trans valid.1 ordered
    | removal => exact Nat.le_trans (widened_left text edit kind valid).2.1 (Nat.le_trans valid.1 ordered)
  have covered := widened_covers_solid text edit valid offset boundary solid started inside
  omega

theorem solid_lt_widened_start (text : Text) (edit : Edit) (valid : edit.InText text) (offset : Nat)
    (boundary : text.IsBoundary offset) (solid : text.StartsSolid offset) (ordered : offset < edit.start) :
    offset < (edit.widened text).start := by
  apply Nat.lt_of_not_le
  intro inside
  have upper : offset < (edit.widened text).stop := by
    cases kind : edit.kind with
    | splice =>
        rw [widened_splice text edit kind]
        exact Nat.lt_of_lt_of_le ordered valid.1
    | removal =>
        exact Nat.lt_of_lt_of_le ordered (Nat.le_trans valid.1 (widened_right text edit kind valid).2.1)
  have covered := widened_covers_solid text edit valid offset boundary solid inside upper
  omega

theorem start_le_widened_start (text : Text) (edit : Edit) (removal : edit.kind = .removal) (valid : edit.InText text)
    (limit : Nat) (boundary : text.IsBoundary limit) (ordered : limit ≤ edit.start)
    (taken : (Reach.of (text.before edit.start) (text.after edit.stop)).left <:+ text.between limit edit.start) :
    limit ≤ (edit.widened text).start := by
  have left := widened_left text edit removal valid
  have size := bytes_between text _ edit.start left.1 valid.2.1 left.2.1
  have whole := bytes_between text limit edit.start boundary valid.2.1 ordered
  obtain ⟨kept, shape⟩ := taken
  rw [← shape, bytes_append] at whole
  rw [left.2.2] at size
  omega

theorem solid_le_widened_start (text : Text) (edit : Edit) (removal : edit.kind = .removal) (valid : edit.InText text)
    (limit : Nat) (boundary : text.IsBoundary limit) (ordered : limit ≤ edit.start) (ends : text.EndsSolid limit)
    (starts : text.StartsSolid edit.start) : limit ≤ (edit.widened text).start := by
  apply start_le_widened_start text edit removal valid limit boundary ordered
  obtain ⟨front, parts, blank, form⟩ := reach_left_shape (text.before edit.start) (text.after edit.stop)
  generalize (Reach.of (text.before edit.start) (text.after edit.stop)).left = left at parts blank form ⊢
  rw [← before_append_between text limit edit.start boundary valid.2.1 ordered] at parts
  rcases form with horizontal | whole
  · obtain ⟨char, behind, shape, visible⟩ := starts_solid_cons text edit.start starts
    have ending := ends.2
    rw [← between_append_after text limit edit.start boundary valid.2.1 ordered, shape] at ending
    exact horizontal_front_le front left horizontal _ _ char behind visible ending parts
  · exact shown_front_le front left whole blank _ _ ends.1 parts

-- A line that holds something, with its line break, stays out of every removal behind it.
theorem line_le_widened_start (text : Text) (edit : Edit) (removal : edit.kind = .removal) (valid : edit.InText text)
    (limit : Nat) (boundary : text.IsBoundary limit) (ordered : limit ≤ edit.start) (line : Text)
    (shape : text.before limit = line ++ ['\n']) (shown : (lastLine line).any (fun char => !isBlank char) = true) :
    limit ≤ (edit.widened text).start := by
  apply start_le_widened_start text edit removal valid limit boundary ordered
  obtain ⟨front, parts, blank, form⟩ := reach_left_shape (text.before edit.start) (text.after edit.stop)
  generalize (Reach.of (text.before edit.start) (text.after edit.stop)).left = left at parts blank form ⊢
  rw [← before_append_between text limit edit.start boundary valid.2.1 ordered, shape] at parts
  exact line_front_le front left blank form line _ shown parts

-- The place in front of the indentation of a solid start is not reached by a removal that ends above it.
theorem widened_stop_le_line_start (text : Text) (edit : Edit) (removal : edit.kind = .removal) (valid : edit.InText text)
    (offset : Nat) (boundary : text.IsBoundary offset) (solid : text.StartsSolid offset) (ordered : edit.stop ≤ offset)
    (ends : text.EndsShown edit.stop) : (edit.widened text).stop ≤ text.lineStartIfIndented offset := by
  obtain ⟨anchorBoundary, early, indented⟩ := line_start_if_indented_spec text offset boundary
  have started := shown_le_line_start text edit.stop offset valid.2.2 boundary ordered ends
  have reached := widened_stop_le_solid text edit valid offset boundary solid ordered
  have right := widened_right text edit removal valid
  apply Nat.le_of_not_lt
  intro inside
  have gap := between_append text edit.stop _ (edit.widened text).stop valid.2.2 anchorBoundary right.1 started (by omega)
  have piece := between_append text _ (edit.widened text).stop offset anchorBoundary right.1 boundary (by omega) reached
  rw [← piece, List.all_append, Bool.and_eq_true] at indented
  have size := bytes_between text _ (edit.widened text).stop anchorBoundary right.1 (by omega)
  obtain ⟨_, _, _, form⟩ := reach_right_shape (text.before edit.start) (text.after edit.stop)
  rw [← right.2.2, ← gap] at form
  generalize text.between (text.lineStartIfIndented offset) (edit.widened text).stop = excess at form size indented
  rcases List.eq_nil_or_concat excess with none | ⟨front, char, shape⟩
  · simp only [none, bytes_nil] at size
    omega
  · rw [List.concat_eq_append] at shape
    have indent : isIndent char = true := List.all_eq_true.mp indented.1 char (by rw [shape]; simp)
    rcases form with horizontal | ⟨lines, shape'⟩
    · have split : text.lineStartIfIndented offset = text.lineStart offset := by
        unfold lineStartIfIndented
        split
        · rfl
        · next other =>
            exfalso
            have same : text.lineStartIfIndented offset = offset := by rw [lineStartIfIndented, if_neg other]
            omega
      rcases whole_lines_end (text.before offset) with first | ⟨lines, shape'⟩
      · have zero : text.lineStartIfIndented offset = 0 := by rw [split, lineStart, first, bytes_nil]
        have none : edit.stop = 0 := by omega
        have empty := ends
        rw [none, EndsShown, lineBefore, before_zero] at empty
        simp [lastLine, endWhile] at empty
      · have anchor : text.before (text.lineStartIfIndented offset) = lines ++ ['\n'] := by
          have parts := before_append_between text _ offset anchorBoundary boundary early
          have line := line_start_between text offset boundary
          rw [split, line.2, lineBefore] at parts
          have whole := whole_lines_append_last_line (text.before offset)
          rw [split]
          exact (List.append_cancel_right (parts.trans whole.symm)).trans shape'
        rcases List.eq_nil_or_concat (text.between edit.stop (text.lineStartIfIndented offset)) with none | ⟨more, last, shape''⟩
        · have same := bytes_between text edit.stop _ valid.2.2 anchorBoundary started
          rw [none, bytes_nil, Nat.add_zero] at same
          have empty := ends
          rw [EndsShown, lineBefore, same, anchor, last_line_break] at empty
          simp at empty
        · rw [List.concat_eq_append] at shape''
          have joined := before_append_between text edit.stop _ valid.2.2 anchorBoundary started
          rw [shape'', anchor, ← List.append_assoc] at joined
          obtain ⟨_, final⟩ := List.append_inj' joined rfl
          have broken : '\n' ∈ text.between edit.stop (text.lineStartIfIndented offset) := by
            rw [shape'', final]
            simp
          exact horizontal_unbroken _ horizontal (List.mem_append_left _ broken)
    · rw [shape, ← List.append_assoc] at shape'
      obtain ⟨_, final⟩ := List.append_inj' shape' rfl
      have same : char = '\n' := by simpa using final
      exact indent_not_break char indent same

end ScriptTidy.Edit
