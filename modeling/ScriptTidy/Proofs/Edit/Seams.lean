import ScriptTidy.Proofs.Edit.Removed
import ScriptTidy.Proofs.Text.Lines

/-! The seams that removed lines leave, and the blank lines that are doubled, first or last in the text there. -/

set_option autoImplicit false

namespace ScriptTidy

open Text

-- No blank line is doubled where two texts meet, nor does one come to stand first or last in the text.
structure TidySeam (front back : Text) : Prop where
  doubled : front ≠ [] → back ≠ [] → ¬ ((lineAbove front).all isBlank = true ∧ (firstLine back).all isBlank = true)
  first : front = [] → back ≠ [] → ¬ (firstLine back).all isBlank = true
  last : back = [] → front ≠ [] → ¬ (lineAbove front).all isBlank = true

-- Lines whose removal leaves a stray blank line between those above and below. An empty line was seen above them, but the
-- blank lines taken below are the last ones of the text; or the line above them is blank without being seen as empty.
inductive LeavesStray (above below : Text) : Prop where
  | ended (seen : Reach.endsWithEmptyLine above = true) (some : below ≠ []) (blank : below.all isBlank = true)
      (left : above ≠ [] ∨ lastLine below ≠ []) : LeavesStray above below
  | unseen (missed : Reach.endsWithEmptyLine above = false) (some : below ≠ [])
      (blankAbove : (lineAbove above).all isBlank = true) (blankBelow : (firstLine below).all isBlank = true) :
      LeavesStray above below

instance (front back : Text) : Decidable (TidySeam front back) :=
  decidable_of_iff ((front ≠ [] → back ≠ [] → ¬ ((lineAbove front).all isBlank = true ∧ (firstLine back).all isBlank = true)) ∧
      (front = [] → back ≠ [] → ¬ (firstLine back).all isBlank = true) ∧
      (back = [] → front ≠ [] → ¬ (lineAbove front).all isBlank = true))
    ⟨fun given => ⟨given.1, given.2.1, given.2.2⟩, fun seam => ⟨seam.doubled, seam.first, seam.last⟩⟩

instance (above below : Text) : Decidable (LeavesStray above below) :=
  decidable_of_iff (below ≠ [] ∧ ((Reach.endsWithEmptyLine above = true ∧ below.all isBlank = true ∧ (above ≠ [] ∨ lastLine below ≠ [])) ∨
      (Reach.endsWithEmptyLine above = false ∧ (lineAbove above).all isBlank = true ∧ (firstLine below).all isBlank = true)))
    ⟨fun given => given.2.elim (fun ended => .ended ended.1 given.1 ended.2.1 ended.2.2)
        fun unseen => .unseen unseen.1 given.1 unseen.2.1 unseen.2.2,
      fun stray => by
        cases stray with
        | ended seen some blank left => exact ⟨some, .inl ⟨seen, blank, left⟩⟩
        | unseen missed some blankAbove blankBelow => exact ⟨some, .inr ⟨missed, blankAbove, blankBelow⟩⟩⟩

-- A seam is told from the two lines that meet there.
theorem tidy_seam_congr {front back above below : Text} (front_nil : front = [] ↔ above = []) (line : lineAbove front = lineAbove above)
    (back_nil : back = [] ↔ below = []) (next : firstLine back = firstLine below) : TidySeam front back ↔ TidySeam above below := by
  constructor
  · intro seam
    exact ⟨fun some other => line ▸ next ▸ seam.doubled (mt front_nil.mp some) (mt back_nil.mp other),
      fun none other => next ▸ seam.first (front_nil.mpr none) (mt back_nil.mp other),
      fun none other => line ▸ seam.last (back_nil.mpr none) (mt front_nil.mp other)⟩
  · intro seam
    exact ⟨fun some other => line.symm ▸ next.symm ▸ seam.doubled (mt front_nil.mpr some) (mt back_nil.mpr other),
      fun none other => next.symm ▸ seam.first (front_nil.mp none) (mt back_nil.mpr other),
      fun none other => line.symm ▸ seam.last (back_nil.mp none) (mt front_nil.mpr other)⟩

theorem empty_line_blank (above : Text) (seen : Reach.endsWithEmptyLine above = true) : (lineAbove above).all isBlank = true := by
  simp only [Reach.endsWithEmptyLine, Bool.or_eq_true, List.isEmpty_iff, List.isSuffixOf_iff_suffix] at seen
  rcases seen with (rfl | ⟨front, rfl⟩) | ⟨front, rfl⟩
  · rfl
  · have shape : front ++ ['\n', '\n'] = (front ++ ['\n']) ++ ['\n'] := by simp
    rw [shape, line_above_break, last_line_break]
    rfl
  · have shape : front ++ ['\n', '\r', '\n'] = (front ++ ['\n'] ++ ['\r']) ++ ['\n'] := by simp
    rw [shape, line_above_break, last_line_behind _ _ (.inr ⟨front, rfl⟩)]
    decide

-- The blank lines in front of lines that end the text are taken up to the last line that is not blank.
theorem last_seam (above front : Text) (whole : WholeLines above) (parts : above = front ++ Reach.blankLinesBefore above) :
    TidySeam front [] := by
  refine ⟨fun _ none => absurd rfl none, fun _ none => absurd rfl none, fun _ some blank => ?_⟩
  rcases blank_lines_before_cases above whole with ⟨all, _⟩ | ⟨shown, char, spaces, shape, visible, unbroken, _⟩
  · rw [all] at parts
    exact some (List.self_eq_append_left.mp parts)
  · have ends : above = (shown ++ char :: spaces ++ ['\n']) ++ Reach.blankLinesBefore above := by simpa using shape
    have same := List.append_cancel_right (parts.symm.trans ends)
    have line : lineAbove front = lastLine shown ++ char :: spaces := by
      rw [same, line_above_break]
      refine last_line_append shown (char :: spaces) fun member => ?_
      rcases List.mem_cons.mp member with equal | later
      · rw [← equal] at visible
        exact absurd visible (by decide)
      · exact unbroken later
    rw [line, List.all_append, List.all_cons, visible] at blank
    simp at blank

-- Behind an empty line, the blank lines are taken as far as they end with a break.
theorem seen_seam (above below back : Text) (seen : Reach.endsWithEmptyLine above = true) (some : below ≠ [])
    (parts : below = Reach.blankLinesAfter below ++ back) : TidySeam above back ↔ ¬ LeavesStray above below := by
  have split := List.takeWhile_append_dropWhile (p := isBlank) (l := below)
  have blank : (below.takeWhile isBlank).all isBlank = true := List.all_takeWhile
  have lines := whole_lines_append_last_line (below.takeWhile isBlank)
  have rest : back = lastLine (below.takeWhile isBlank) ++ below.dropWhile isBlank := by
    rw [Reach.blankLinesAfter] at parts
    refine List.append_cancel_left (parts.symm.trans ?_)
    rw [← List.append_assoc, lines, split]
  have lineBlank := empty_line_blank above seen
  cases shown : below.dropWhile isBlank with
  | nil =>
      rw [shown, List.append_nil] at split rest
      rw [split] at blank rest
      have rested : back.all isBlank = true := by
        rw [rest]
        exact List.all_eq_true.mpr fun char member =>
          List.all_eq_true.mp blank char ((last_line_suffix below).subset member)
      have firstBlank : (firstLine back).all isBlank = true :=
        List.all_eq_true.mpr fun char member => List.all_eq_true.mp rested char ((List.takeWhile_sublist _).subset member)
      constructor
      · intro tidy stray
        cases stray with
        | ended _ _ _ left =>
            by_cases front : above = []
            · exact tidy.first front (rest ▸ left.resolve_left fun other => other front) firstBlank
            · by_cases none : back = []
              · exact tidy.last none front lineBlank
              · exact tidy.doubled front none ⟨lineBlank, firstBlank⟩
        | unseen missed => exact Bool.noConfusion (seen.symm.trans missed)
      · intro clean
        have none : above = [] ∧ back = [] := by
          refine ⟨Decidable.byContradiction fun front => clean (.ended seen some blank (.inl front)),
            Decidable.byContradiction fun other => clean (.ended seen some blank (.inr (rest ▸ other)))⟩
        exact ⟨fun front => absurd none.1 front, fun _ other => absurd none.2 other, fun _ front => absurd none.1 front⟩
  | cons char more =>
      have visible : isBlank char = false := by
        have stopped := List.head?_dropWhile_not isBlank below
        rw [shown] at stopped
        simpa using stopped
      have firstShown : ¬ (firstLine back).all isBlank = true := by
        have kept (next : Char) (member : next ∈ lastLine (below.takeWhile isBlank)) : (next != '\n') = true := by
          have unbroken := last_line_unbroken (below.takeWhile isBlank)
          simpa using fun equal : next = '\n' => unbroken (equal ▸ member)
        have other : (char != '\n') = true := by
          by_cases same : char = '\n'
          · rw [same] at visible
            exact absurd visible (by decide)
          · simpa using same
        intro all
        rw [rest, shown, firstLine, List.takeWhile_append_of_pos kept, List.takeWhile_cons_of_pos (p := (· != '\n')) other, List.all_append, List.all_cons,
          visible] at all
        simp at all
      have filled : back ≠ [] := by rw [rest, shown]; simp
      refine iff_of_true ⟨fun _ _ both => firstShown both.2, fun _ _ => firstShown, fun none => absurd none filled⟩ fun stray => ?_
      cases stray with
      | ended _ _ all =>
          rw [← split, shown, List.all_append, List.all_cons, visible] at all
          simp at all
      | unseen missed => exact Bool.noConfusion (seen.symm.trans missed)

-- What whole lines take of the blank lines next to them leaves the seam tidy, but in those two cases.
theorem of_lines_seam (above below front back : Text) (whole : WholeLines above)
    (left : above = front ++ (Reach.ofLines above below).left) (right : below = (Reach.ofLines above below).right ++ back) :
    TidySeam front back ↔ ¬ LeavesStray above below := by
  unfold Reach.ofLines at left right
  by_cases last : below = []
  · rw [if_pos last] at left right
    have none : back = [] := right.symm.trans last
    rw [none]
    refine iff_of_true (last_seam above front whole left) fun stray => ?_
    cases stray with
    | ended _ some => exact some last
    | unseen _ some => exact some last
  · rw [if_neg last] at left right
    by_cases seen : Reach.endsWithEmptyLine above = true
    · rw [if_pos seen] at left right
      have same : above = front := left.trans (List.append_nil _)
      exact same ▸ seen_seam above below back seen last right
    · rw [if_neg seen] at left right
      have same : above = front := left.trans (List.append_nil _)
      have below : below = back := right
      subst same below
      have filled : above ≠ [] := by
        rintro rfl
        exact seen rfl
      constructor
      · intro tidy stray
        cases stray with
        | ended found => exact seen found
        | unseen _ _ blankAbove blankBelow => exact tidy.doubled filled last ⟨blankAbove, blankBelow⟩
      · intro clean
        exact ⟨fun _ _ both => clean (.unseen (by simpa using seen) last both.1 both.2), fun none => absurd none filled,
          fun none => absurd none last⟩

-- What a removal takes that has its lines for itself.
theorem reach_of_lines (before after : Text) (first : (lastLine before).all isHorizontal = true)
    (last : (firstLine after).all isHorizontal = true) :
    Reach.of before after = ⟨(Reach.ofLines (wholeLines before) (restLines after)).left ++ lastLine before,
      firstLine after ++ (after.dropWhile (· != '\n')).take 1 ++ (Reach.ofLines (wholeLines before) (restLines after)).right⟩ := by
  obtain ⟨above, indent⟩ := trim_last_line before first
  obtain ⟨gap, behind⟩ := drop_first_line after last
  have ownsStart : ((wholeLines before).isEmpty || (wholeLines before).getLast? == some '\n') = true := by
    rcases whole_lines_end before with none | ⟨lines, shape⟩
    · rw [none]
      rfl
    · rw [shape]
      simp
  have ownsEnd : ((after.dropWhile (· != '\n')).isEmpty || (after.dropWhile (· != '\n')).head? == some '\n') = true := by
    rcases drop_to_break after with none | shape
    · rw [none]
      rfl
    · rw [shape]
      rfl
  unfold Reach.of
  dsimp only
  rw [above, indent, gap, behind, ownsStart, ownsEnd]
  rfl

namespace Edit

-- Nothing but spaces stands on the first line of a removal in front of it, and on its last line behind it.
def OwnsLines (text : Text) (edit : Edit) : Prop :=
  (text.lineBefore edit.start).all isHorizontal = true ∧ (firstLine (text.after edit.stop)).all isHorizontal = true

instance (text : Text) (edit : Edit) : Decidable (edit.OwnsLines text) :=
  inferInstanceAs (Decidable (_ ∧ _))

def linesAbove (text : Text) (edit : Edit) : Text := wholeLines (text.before edit.start)

def linesBelow (text : Text) (edit : Edit) : Text := restLines (text.after edit.stop)

section Owned

variable (text : Text) (edit : Edit) (removal : edit.kind = .removal) (valid : edit.InText text) (owns : edit.OwnsLines text)

include removal valid owns

theorem owned_above : edit.linesAbove text = text.before (edit.widened text).start ++
      (Reach.ofLines (edit.linesAbove text) (edit.linesBelow text)).left ∧
    WholeLines (text.before (edit.widened text).start) := by
  obtain ⟨boundary, early, left⟩ := widened_left text edit removal valid
  have parts := before_append_between text _ edit.start boundary valid.2.1 early
  rw [left, reach_of_lines _ _ owns.1 owns.2, ← List.append_assoc] at parts
  have whole := whole_lines_append_last_line (text.before edit.start)
  have above := List.append_cancel_right (parts.trans whole.symm)
  refine ⟨above.symm, ?_⟩
  obtain ⟨front, shape, _, lines⟩ := of_lines_left_shape (edit.linesAbove text) (edit.linesBelow text) (whole_lines_end _)
  exact List.append_cancel_right (above.trans shape) ▸ lines

theorem owned_below : edit.linesBelow text =
      (Reach.ofLines (edit.linesAbove text) (edit.linesBelow text)).right ++ text.after (edit.widened text).stop ∧
    (WholeLines (text.before (edit.widened text).stop) ∨ text.after (edit.widened text).stop = []) := by
  obtain ⟨boundary, late, right⟩ := widened_right text edit removal valid
  have front := before_append_between text edit.stop _ valid.2.2 boundary late
  have parts := between_append_after text edit.stop _ valid.2.2 boundary late
  rw [right, reach_of_lines _ _ owns.1 owns.2] at parts front
  have whole := List.takeWhile_append_dropWhile (p := (· != '\n')) (l := text.after edit.stop)
  rw [List.append_assoc, List.append_assoc] at parts
  have behind := List.append_cancel_left (parts.trans whole.symm)
  rcases drop_to_break (text.after edit.stop) with none | shape
  · rw [none, List.take_nil, List.nil_append] at behind
    have below : edit.linesBelow text = [] := by rw [linesBelow, restLines, none]; rfl
    exact ⟨below.trans behind.symm, .inr (List.append_eq_nil_iff.mp behind).2⟩
  · rw [shape, List.take_succ_cons, List.take_zero, List.singleton_append] at behind
    refine ⟨(List.cons.inj behind).2.symm, .inl ?_⟩
    obtain ⟨_, _, _, lines⟩ := of_lines_right_shape (edit.linesAbove text) (edit.linesBelow text)
    rw [← front, shape, List.take_succ_cons, List.take_zero]
    rcases lines with none | ⟨more, ending⟩
    · rw [show (Reach.ofLines (wholeLines (text.before edit.start)) (restLines (text.after edit.stop))).right = [] from none]
      exact .inr ⟨text.before edit.stop ++ firstLine (text.after edit.stop), by simp⟩
    · rw [show (Reach.ofLines (wholeLines (text.before edit.start)) (restLines (text.after edit.stop))).right = more ++ ['\n'] from ending]
      exact .inr ⟨text.before edit.stop ++ firstLine (text.after edit.stop) ++ '\n' :: more, by simp⟩

end Owned

end Edit

namespace Edits

open Edit

-- What stands in a text in front of one of the edits, and behind it, once they are applied.
def textBefore (text : Text) (first : Edits) (edit : Edit) : Text :=
  spliced text (edit.widened text).start 0 (first.map (·.widened text))

def textBehind (text : Text) (edit : Edit) (second : Edits) : Text :=
  spliced text text.bytes (edit.widened text).stop (second.map (·.widened text))

section Seams

variable (text : Text) (ranges : List (Nat × Nat))
  (valid : ∀ range ∈ ranges, range.1 ≤ range.2 ∧ text.IsBoundary range.1 ∧ text.IsBoundary range.2)
  (owns : ∀ joined ∈ merged text (sorted (removals ranges)), joined.OwnsLines text)

include valid owns

-- Whole lines stay between two removals.
theorem gap_lines (first : Edits) (edit next : Edit) (second : Edits)
    (shape : merged text (sorted (removals ranges)) = first ++ edit :: next :: second) :
    WholeLines (text.before (edit.widened text).stop) ∧ edit.text = [] ∧ next.text = [] ∧
      ∃ lines, text.between (edit.widened text).stop (next.widened text).start = lines ++ ['\n'] ∧
        text.before (next.widened text).start = text.before (edit.widened text).stop ++ (lines ++ ['\n']) ∧
        text.after (edit.widened text).stop = lines ++ ['\n'] ++ text.after (next.widened text).start := by
  have sound := removals_sound text ranges valid
  have editMember : edit ∈ merged text (sorted (removals ranges)) := by simp [shape]
  have nextMember : next ∈ merged text (sorted (removals ranges)) := by simp [shape]
  have editValid := merged_in_text text _ sound.valid sound.empty edit editMember
  have nextValid := merged_in_text text _ sound.valid sound.empty next nextMember
  have editRun := merged_runs text ranges valid edit editMember
  have nextRun := merged_runs text ranges valid next nextMember
  have chain := merged_linked text _ sound
  rw [shape] at chain
  have linked := (List.isChain_cons_cons.mp (List.isChain_append.mp chain).2.1).1
  have apart := linked_removals text edit next editValid nextValid linked ⟨editRun.removal, nextRun.removal⟩
  have front := (widened_in_text text edit editValid).2.2
  have back := (widened_in_text text next nextValid).2.1
  have size := bytes_between text _ _ front back (Nat.le_of_lt apart)
  have filled : text.between (edit.widened text).stop (next.widened text).start ≠ [] := by
    intro none
    rw [none, bytes_nil] at size
    omega
  have before := before_append_between text _ _ front back (Nat.le_of_lt apart)
  have behind := between_append_after text _ _ front back (Nat.le_of_lt apart)
  have whole := (owned_above text next nextRun.removal nextValid (owns next nextMember)).2
  rw [← before] at whole
  obtain ⟨lines, ending⟩ := whole_lines_behind _ _ whole filled
  rw [ending] at before behind
  have above := (owned_below text edit editRun.removal editValid (owns edit editMember)).2.resolve_right fun none => by
    rw [none] at behind
    simp at behind
  exact ⟨above, editRun.empty, nextRun.empty, lines, ending, before.symm, behind.symm⟩

-- In front of a removal a text ends as it did, with the lines that stay behind the removal before.
theorem text_before_cases (first : Edits) (edit : Edit) (second : Edits)
    (shape : merged text (sorted (removals ranges)) = first ++ edit :: second) :
    textBefore text first edit = text.before (edit.widened text).start ∨
      ∃ others last lines, first = others ++ [last] ∧ textBefore text first edit = textBefore text others last ++ (lines ++ ['\n']) ∧
        text.before (edit.widened text).start = text.before (last.widened text).stop ++ (lines ++ ['\n']) ∧
        WholeLines (text.before (last.widened text).stop) := by
  rcases List.eq_nil_or_concat first with none | ⟨others, last, concat⟩
  · subst none
    exact .inl (between_zero text _)
  · rw [List.concat_eq_append] at concat
    subst concat
    rw [List.append_assoc, List.singleton_append] at shape
    obtain ⟨whole, empty, _, lines, gap, before, _⟩ := gap_lines text ranges valid owns others last edit second shape
    refine .inr ⟨others, last, lines, rfl, ?_, before, whole⟩
    rw [textBefore, List.map_append, List.map_cons, List.map_nil, spliced_append, widened_text, empty, List.append_nil, spliced, gap,
      textBefore]

theorem text_before_whole (first : Edits) (edit : Edit) (second : Edits)
    (shape : merged text (sorted (removals ranges)) = first ++ edit :: second) : WholeLines (textBefore text first edit) := by
  rcases text_before_cases text ranges valid owns first edit second shape with same | ⟨others, last, lines, _, same, _⟩
  · have sound := removals_sound text ranges valid
    have member : edit ∈ merged text (sorted (removals ranges)) := by simp [shape]
    rw [same]
    exact (owned_above text edit (merged_runs text ranges valid edit member).removal
      (merged_in_text text _ sound.valid sound.empty edit member) (owns edit member)).2
  · rw [same, ← List.append_assoc]
    exact .inr ⟨_, rfl⟩

-- So the line above a seam is the line that stood there.
theorem text_before_line (first : Edits) (edit : Edit) (second : Edits)
    (shape : merged text (sorted (removals ranges)) = first ++ edit :: second) :
    (textBefore text first edit = [] ↔ text.before (edit.widened text).start = []) ∧
      lineAbove (textBefore text first edit) = lineAbove (text.before (edit.widened text).start) := by
  rcases text_before_cases text ranges valid owns first edit second shape with same | ⟨others, last, lines, split, same, before, whole⟩
  · rw [same]
    exact ⟨Iff.rfl, rfl⟩
  · rw [split, List.append_assoc, List.singleton_append] at shape
    have above := text_before_whole text ranges valid owns others last (edit :: second) shape
    have filled : lines ++ ['\n'] ≠ [] := by simp
    rw [same, before, line_above_behind _ _ above filled, line_above_behind _ _ whole filled]
    exact ⟨by simp, rfl⟩

-- And the line below it, too.
theorem text_behind_line (first : Edits) (edit : Edit) (second : Edits)
    (shape : merged text (sorted (removals ranges)) = first ++ edit :: second) :
    (textBehind text edit second = [] ↔ text.after (edit.widened text).stop = []) ∧
      firstLine (textBehind text edit second) = firstLine (text.after (edit.widened text).stop) := by
  cases second with
  | nil =>
      rw [textBehind, List.map_nil, spliced, between_bytes]
      exact ⟨Iff.rfl, rfl⟩
  | cons next rest =>
      obtain ⟨_, _, empty, lines, gap, _, behind⟩ := gap_lines text ranges valid owns first edit next rest shape
      have shape : textBehind text edit (next :: rest) = lines ++ ['\n'] ++ textBehind text next rest := by
        rw [textBehind, List.map_cons, spliced, widened_text, empty, List.append_nil, gap, textBehind]
      have broken : '\n' ∈ lines ++ ['\n'] := by simp
      rw [shape, behind, first_line_append _ (textBehind text next rest) broken, first_line_append _ (text.after _) broken]
      exact ⟨by simp, rfl⟩

end Seams

-- Removals that have their lines for themselves: at each seam, the text is tidy but in the two cases.
theorem removed_lines_seams (text : Text) (ranges : List (Nat × Nat))
    (valid : ∀ range ∈ ranges, range.1 ≤ range.2 ∧ text.IsBoundary range.1 ∧ text.IsBoundary range.2)
    (owns : ∀ joined ∈ merged text (sorted (removals ranges)), joined.OwnsLines text) :
    ∃ out, apply text (removals ranges) = .ok out ∧ ∀ first joined second,
      merged text (sorted (removals ranges)) = first ++ joined :: second →
        out = textBefore text first joined ++ textBehind text joined second ∧
          (TidySeam (textBefore text first joined) (textBehind text joined second) ↔
            ¬ LeavesStray (joined.linesAbove text) (joined.linesBelow text)) := by
  have sound := removals_sound text ranges valid
  refine ⟨_, apply_ok text _ sound, fun first joined second shape => ⟨?_, ?_⟩⟩
  · have empty := (merged_runs text ranges valid joined (by simp [shape])).empty
    rw [prepared, shape, List.map_append, List.map_cons, spliced_append, widened_text, empty, List.append_nil, textBefore, textBehind]
  · have member : joined ∈ merged text (sorted (removals ranges)) := by simp [shape]
    have removal := (merged_runs text ranges valid joined member).removal
    have inText := merged_in_text text _ sound.valid sound.empty joined member
    have above := owned_above text joined removal inText (owns joined member)
    have below := owned_below text joined removal inText (owns joined member)
    have seam := of_lines_seam _ _ _ _ (whole_lines_end (text.before joined.start)) above.1 below.1
    obtain ⟨front, line⟩ := text_before_line text ranges valid owns first joined second shape
    obtain ⟨back, next⟩ := text_behind_line text ranges valid owns first joined second shape
    exact (tidy_seam_congr front line back next).trans seam

-- Above the first of two removals stands an empty line; above the second one a line of spaces, which is not seen.
def strayText : Text := "a();\n\nb();\n\nc();\n  \nd();\n\ne();\n".toList

def strayRanges : List (Nat × Nat) := [(20, 24), (6, 10)]

theorem stray_lines_left :
    (∀ range ∈ strayRanges, range.1 ≤ range.2 ∧ strayText.IsBoundary range.1 ∧ strayText.IsBoundary range.2) ∧
      (∀ joined ∈ merged strayText (sorted (removals strayRanges)), joined.OwnsLines strayText) ∧
      apply strayText (removals strayRanges) = .ok "a();\n\nc();\n  \n\ne();\n".toList ∧
      ∃ one other, merged strayText (sorted (removals strayRanges)) = [one, other] ∧
        TidySeam (textBefore strayText [] one) (textBehind strayText one [other]) ∧
        ¬ TidySeam (textBefore strayText [one] other) (textBehind strayText other []) := by
  have valid : ∀ range ∈ strayRanges, range.1 ≤ range.2 ∧ strayText.IsBoundary range.1 ∧ strayText.IsBoundary range.2 := by
    decide +kernel
  have shape : merged strayText (sorted (removals strayRanges)) = [⟨6, 10, [], .removal⟩, ⟨20, 24, [], .removal⟩] := by
    decide +kernel
  have owns : ∀ joined ∈ merged strayText (sorted (removals strayRanges)), joined.OwnsLines strayText := by
    rw [shape]
    decide +kernel
  obtain ⟨out, done, seams⟩ := removed_lines_seams strayText strayRanges valid owns
  obtain ⟨parts, tidy⟩ := seams [] _ _ shape
  obtain ⟨_, stray⟩ := seams [_] _ [] shape
  have left : out = "a();\n\nc();\n  \n\ne();\n".toList := by
    rw [parts]
    decide +kernel
  refine ⟨valid, owns, left ▸ done, _, _, shape, tidy.mpr (by decide +kernel), fun seam => ?_⟩
  exact absurd (stray.mp seam) (by decide +kernel)

end Edits

end ScriptTidy
