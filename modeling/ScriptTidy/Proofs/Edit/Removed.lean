import ScriptTidy.Proofs.Edit.Replaced

/-! Removals take what was asked for, and beyond it nothing but blanks. -/

set_option autoImplicit false

namespace ScriptTidy

namespace Text

-- Taking more offsets leaves less of a text; if they hold only blanks, what is visible stays.
theorem outside_more (fewer more : Nat → Bool) (text : Text) : ∀ offset,
    (∀ place, fewer place = true → more place = true) →
      (outside more offset text).Sublist (outside fewer offset text) := by
  induction text with
  | nil => exact fun _ _ => .slnil
  | cons char rest ih =>
      intro offset taken
      have later := ih (offset + char.utf8Size) taken
      rw [outside, outside]
      by_cases asked : fewer offset = true
      · rw [if_pos asked, if_pos (taken offset asked)]
        exact later
      · rw [if_neg asked]
        split
        · exact later.cons char
        · exact later.cons_cons char

theorem visible_outside_more (fewer more : Nat → Bool) (text : Text) : ∀ offset,
    (∀ place, fewer place = true → more place = true) →
      (∀ front char back, text = front ++ char :: back → isBlank char = false → more (offset + bytes front) = true →
        fewer (offset + bytes front) = true) →
        visible (outside more offset text) = visible (outside fewer offset text) := by
  induction text with
  | nil => exact fun _ _ _ => rfl
  | cons char rest ih =>
      intro offset taken blank
      have later := ih (offset + char.utf8Size) taken fun front other back shape shown given => by
        have inside := blank (char :: front) other back (by rw [shape]; rfl) shown
        rw [bytes_cons, ← Nat.add_assoc] at inside
        exact inside given
      rw [outside, outside]
      by_cases asked : fewer offset = true
      · rw [if_pos asked, if_pos (taken offset asked)]
        exact later
      · rw [if_neg asked]
        by_cases also : more offset = true
        · have hidden : isBlank char = true := by
            cases shown : isBlank char with
            | true => rfl
            | false => exact absurd (blank [] char rest rfl shown also) asked
          have dropped : visible (char :: outside fewer (offset + char.utf8Size) rest) =
              visible (outside fewer (offset + char.utf8Size) rest) := by
            simp [visible, hidden]
          rw [if_pos also, dropped, later]
        · rw [if_neg also, visible, visible, List.filter_cons, List.filter_cons, ← visible, ← visible, later]

end Text

namespace Edits

open Text Edit

-- Removals of statements, as they are recorded.
def removals (ranges : List (Nat × Nat)) : Edits := ranges.map fun range => ⟨range.1, range.2, [], .removal⟩

-- Edits that put nothing in leave what they do not cover.
theorem replaced_empty (edits : Edits) (empty : ∀ edit ∈ edits, edit.text = []) (text : Text) : ∀ offset,
    replaced edits offset text = outside (covers edits) offset text := by
  have nothing (wanted : Edit → Bool) : (edits.filter wanted).flatMap (·.text) = [] := by
    refine List.flatMap_eq_nil_iff.mpr fun edit member => empty edit (List.mem_filter.mp member).1
  induction text with
  | nil => exact fun offset => nothing _
  | cons char rest ih =>
      intro offset
      rw [replaced, insertedAt, replacedAt, nothing, nothing, ih, outside]
      split <;> rfl

section Recorded

variable (text : Text) (ranges : List (Nat × Nat))

theorem mem_removals_iff (edit : Edit) : edit ∈ removals ranges ↔ ∃ range ∈ ranges, ⟨range.1, range.2, [], .removal⟩ = edit :=
  List.mem_map

theorem removals_recorded (edit : Edit) (member : edit ∈ removals ranges) : edit.kind = .removal ∧ edit.text = [] := by
  obtain ⟨range, _, rfl⟩ := (mem_removals_iff ranges edit).mp member
  exact ⟨rfl, rfl⟩

variable (valid : ∀ range ∈ ranges, range.1 ≤ range.2 ∧ text.IsBoundary range.1 ∧ text.IsBoundary range.2)

include valid

-- Removals can always be applied together: those that meet are merged.
theorem removals_sound : Sound text (removals ranges) where
  valid := fun edit member => by
    obtain ⟨range, listed, rfl⟩ := (mem_removals_iff ranges edit).mp member
    exact valid range listed
  empty := fun edit member _ => (removals_recorded ranges edit member).2
  compatible := List.pairwise_of_forall_mem_list fun first one second other =>
    .inl ⟨(removals_recorded ranges first one).1, (removals_recorded ranges second other).1⟩
  fenced := fun edit member splice =>
    EditKind.noConfusion (splice.symm.trans (removals_recorded ranges edit member).1)

theorem merged_runs (joined : Edit) (member : joined ∈ merged text (sorted (removals ranges))) :
    Run text (removals ranges) joined := by
  have sound := removals_sound text ranges valid
  refine (merged_settled text _ sound.valid sound.empty joined member).resolve_left fun splice => ?_
  exact EditKind.noConfusion (splice.1.symm.trans (removals_recorded ranges joined splice.2).1)

theorem removals_applied : apply text (removals ranges) =
    .ok (outside (covers (prepared text (removals ranges))) 0 text) := by
  have sound := removals_sound text ranges valid
  have empty : ∀ edit ∈ prepared text (removals ranges), edit.text = [] := fun edit member => by
    obtain ⟨joined, present, rfl⟩ := List.mem_map.mp member
    rw [widened_text, (merged_runs text ranges valid joined present).empty]
  rw [apply_ok text _ sound, spliced_replaced text _ 0 (boundary_zero text) (prepared_in_order text _ sound), after_zero,
    replaced_empty _ empty]

theorem requested_taken (offset : Nat) (asked : covers (removals ranges) offset = true) :
    covers (prepared text (removals ranges)) offset = true :=
  have sound := removals_sound text ranges valid
  recorded_covered text _ sound.valid sound.empty offset asked

theorem taken_requested (front : Text) (char : Char) (back : Text) (shape : text = front ++ char :: back)
    (shown : isBlank char = false) (taken : covers (prepared text (removals ranges)) (0 + bytes front) = true) :
    covers (removals ranges) (0 + bytes front) = true :=
  have sound := removals_sound text ranges valid
  covered_recorded text _ sound.valid sound.empty front char back shape shown taken

end Recorded

-- A removal grows over blanks only.
theorem widened_over_blanks (text : Text) (edit : Edit) (removal : edit.kind = .removal) (valid : edit.InText text) :
    ((edit.widened text).start ≤ edit.start ∧ (text.between (edit.widened text).start edit.start).all isBlank = true) ∧
      edit.stop ≤ (edit.widened text).stop ∧ (text.between edit.stop (edit.widened text).stop).all isBlank = true := by
  obtain ⟨_, left, before⟩ := widened_left text edit removal valid
  obtain ⟨_, right, behind⟩ := widened_right text edit removal valid
  obtain ⟨_, _, leftBlank, _⟩ := reach_left_shape (text.before edit.start) (text.after edit.stop)
  obtain ⟨_, _, rightBlank, _⟩ := reach_right_shape (text.before edit.start) (text.after edit.stop)
  exact ⟨⟨left, before ▸ leftBlank⟩, right, behind ▸ rightBlank⟩

-- Removals can always be applied, whatever their ranges. Nothing in a requested range is left, and all that is visible
-- outside of them. As they are applied, the removals stand clear of each other, and each is a merged request that has
-- grown over blanks.
theorem removals_take_only_blanks (text : Text) (ranges : List (Nat × Nat))
    (valid : ∀ range ∈ ranges, range.1 ≤ range.2 ∧ text.IsBoundary range.1 ∧ text.IsBoundary range.2) :
    (∃ out, apply text (removals ranges) = .ok out ∧ out = outside (covers (prepared text (removals ranges))) 0 text ∧
        out.Sublist (outside (covers (removals ranges)) 0 text) ∧
        visible out = visible (outside (covers (removals ranges)) 0 text)) ∧
      ((prepared text (removals ranges)).Pairwise fun first second => first.stop ≤ second.start) ∧
      (∀ edit ∈ prepared text (removals ranges), edit.InText text ∧ edit.stop ≤ text.bytes) ∧
      ∀ joined ∈ merged text (sorted (removals ranges)), Run text (removals ranges) joined ∧
        ((joined.widened text).start ≤ joined.start ∧
          (text.between (joined.widened text).start joined.start).all isBlank = true) ∧
        joined.stop ≤ (joined.widened text).stop ∧
          (text.between joined.stop (joined.widened text).stop).all isBlank = true := by
  have sound := removals_sound text ranges valid
  have ordered := prepared_in_order text _ sound
  have taken := requested_taken text ranges valid
  refine ⟨⟨_, removals_applied text ranges valid, rfl, outside_more _ _ text 0 taken,
    visible_outside_more _ _ text 0 taken (taken_requested text ranges valid)⟩, in_order_pairwise text _ 0 ordered,
    fun edit member => ?_, fun joined member => ?_⟩
  · have inText := (in_order_bounds text _ 0 ordered edit member).2
    exact ⟨inText, boundary_le text edit.stop inText.2.2⟩
  · have run := merged_runs text ranges valid joined member
    have inText := merged_in_text text _ sound.valid sound.empty joined member
    exact ⟨run, widened_over_blanks text joined run.removal inText⟩

-- Ranges out of order, one in another, one twice, two that a wide blank keeps apart and an empty one behind a line break.
def scatteredText : Text := "a;\nb;\n \u2003c;\nd; e;\n".toList

def scatteredRanges : List (Nat × Nat) := [(16, 18), (3, 5), (3, 4), (10, 12), (16, 18), (13, 13)]

theorem scattered_ranges_removed :
    (∀ range ∈ scatteredRanges, range.1 ≤ range.2 ∧ scatteredText.IsBoundary range.1 ∧ scatteredText.IsBoundary range.2) ∧
      apply scatteredText (removals scatteredRanges) = .ok "a;\nd;\n".toList ∧
      visible "a;\nd;\n".toList = visible (outside (covers (removals scatteredRanges)) 0 scatteredText) := by
  have valid : ∀ range ∈ scatteredRanges, range.1 ≤ range.2 ∧ scatteredText.IsBoundary range.1 ∧
      scatteredText.IsBoundary range.2 := by decide +kernel
  obtain ⟨⟨out, done, shape, _, shown⟩, _⟩ := removals_take_only_blanks scatteredText scatteredRanges valid
  have left : outside (covers (prepared scatteredText (removals scatteredRanges))) 0 scatteredText = "a;\nd;\n".toList := by
    decide +kernel
  rw [← left, ← shape]
  exact ⟨valid, done, shown⟩

end Edits

end ScriptTidy
