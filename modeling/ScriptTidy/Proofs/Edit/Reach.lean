import ScriptTidy.Edit.Widen
import ScriptTidy.Proofs.Text.Solid

/-! What a removal takes of the text around it: blanks only, and never past something solid. -/

set_option autoImplicit false

namespace ScriptTidy

open Text

theorem whole_lines_of_owns_start (above : Text) (owns : (above.isEmpty || above.getLast? == some '\n') = true) :
    WholeLines above := by
  rcases List.eq_nil_or_concat above with empty | ⟨lines, char, shape⟩
  · exact .inl empty
  · rw [List.concat_eq_append] at shape
    subst shape
    have same : char = '\n' := by simpa using owns
    exact .inr ⟨lines, by rw [same]⟩

-- All of a blank text is taken, and else the blank lines behind the one that ends what is shown.
theorem blank_lines_before_cases (above : Text) (whole : WholeLines above) :
    Reach.blankLinesBefore above = above ∧ above.all isBlank = true ∨ ∃ front char spaces,
      above = front ++ char :: (spaces ++ '\n' :: Reach.blankLinesBefore above) ∧ isBlank char = false ∧ '\n' ∉ spaces ∧
        (Reach.blankLinesBefore above).all isBlank = true := by
  have parts := trim_append_end isBlank above
  have blank := end_while_all isBlank above
  unfold Reach.blankLinesBefore
  rcases List.eq_nil_or_concat (above.trimEndWhile isBlank) with none | ⟨front, char, shape⟩
  · rw [none, List.nil_append] at parts
    rw [parts, if_pos rfl]
    exact .inl ⟨rfl, parts ▸ blank⟩
  · rw [List.concat_eq_append] at shape
    have visible : isBlank char = false := by
      have stopped := List.head?_dropWhile_not isBlank above.reverse
      rw [← List.reverse_reverse (List.dropWhile isBlank above.reverse), ← trimEndWhile, shape, List.reverse_append] at stopped
      simpa using stopped
    have shorter : ¬ (above.endWhile isBlank).length = above.length := by
      intro same
      have size := congrArg List.length parts
      rw [shape] at size
      simp only [List.length_append, List.length_singleton] at size
      omega
    rw [if_neg shorter]
    generalize above.endWhile isBlank = blanks at parts blank shorter ⊢
    rw [shape, List.append_assoc, List.singleton_append] at parts
    have split := List.takeWhile_append_dropWhile (p := (· != '\n')) (l := blanks)
    have unbroken : '\n' ∉ blanks.takeWhile (· != '\n') := fun member => by simpa using List.mem_takeWhile_imp member
    cases rest : blanks.dropWhile (· != '\n') with
    | nil =>
        -- The text would end within its last line.
        exfalso
        rw [rest, List.append_nil] at split
        rw [split] at unbroken
        rcases whole with empty | ⟨lines, ending⟩
        · rw [empty] at parts
          exact absurd parts (by simp)
        · rw [ending, ← List.singleton_append, ← List.append_assoc] at parts
          rcases List.eq_nil_or_concat blanks with none | ⟨more, last, concat⟩
          · rw [none, List.append_nil] at parts
            obtain ⟨_, final⟩ := List.append_inj' parts rfl
            rw [List.singleton_inj.mp final] at visible
            exact absurd visible (by decide)
          · rw [List.concat_eq_append] at concat
            rw [concat, ← List.append_assoc] at parts
            obtain ⟨_, final⟩ := List.append_inj' parts rfl
            exact unbroken (by rw [concat, final]; simp)
    | cons other tail =>
        have stopped := List.head?_dropWhile_not (· != '\n') blanks
        rw [rest] at stopped
        have same : other = '\n' := by simpa using stopped
        rw [rest, same] at split
        rw [← split, List.all_append, List.all_cons, Bool.and_eq_true, Bool.and_eq_true] at blank
        exact .inr ⟨front, char, blanks.takeWhile (· != '\n'), by rw [List.drop_one, List.tail_cons, split, parts], visible, unbroken,
          blank.2.2⟩

theorem blank_lines_before_shape (above : Text) (whole : WholeLines above) :
    ∃ front, above = front ++ Reach.blankLinesBefore above ∧ (Reach.blankLinesBefore above).all isBlank = true ∧
      WholeLines front := by
  rcases blank_lines_before_cases above whole with ⟨all, blank⟩ | ⟨front, char, spaces, shape, _, _, blank⟩
  · exact ⟨[], all.symm, all.symm ▸ blank, .inl rfl⟩
  · exact ⟨front ++ char :: (spaces ++ ['\n']), by simpa using shape, blank, .inr ⟨front ++ char :: spaces, by simp⟩⟩

theorem horizontal_all_blank (text : Text) (horizontal : text.all isHorizontal = true) : text.all isBlank = true :=
  List.all_eq_true.mpr fun char member => horizontal_blank char (List.all_eq_true.mp horizontal char member)

theorem horizontal_unbroken (text : Text) (horizontal : text.all isHorizontal = true) : '\n' ∉ text :=
  fun member => horizontal_not_break '\n' (List.all_eq_true.mp horizontal '\n' member) rfl

-- All that a removal can take: whole lines with the blank ones next to them, the spaces on both sides, or only
-- the spaces behind it.
theorem reach_cases (before after : Text) :
    (WholeLines (before.trimEndWhile isHorizontal) ∧
        (after.dropWhile isHorizontal = [] ∨ ∃ tail, after.dropWhile isHorizontal = '\n' :: tail) ∧
        Reach.of before after =
          ⟨(Reach.ofLines (before.trimEndWhile isHorizontal) ((after.dropWhile isHorizontal).drop 1)).left ++
              before.endWhile isHorizontal,
            after.takeWhile isHorizontal ++ (after.dropWhile isHorizontal).take 1 ++
              (Reach.ofLines (before.trimEndWhile isHorizontal) ((after.dropWhile isHorizontal).drop 1)).right⟩) ∨
      Reach.of before after = ⟨before.endWhile isHorizontal, after.takeWhile isHorizontal⟩ ∨
      Reach.of before after = ⟨[], after.takeWhile isHorizontal⟩ := by
  unfold Reach.of
  dsimp only
  generalize ownsStart : (List.isEmpty (before.trimEndWhile isHorizontal) ||
    List.getLast? (before.trimEndWhile isHorizontal) == some '\n') = first
  generalize ownsEnd : (List.isEmpty (after.dropWhile isHorizontal) ||
    List.head? (after.dropWhile isHorizontal) == some '\n') = last
  cases last with
  | false => cases first <;> exact .inr (.inr rfl)
  | true =>
      cases first with
      | false => exact .inr (.inl rfl)
      | true =>
          refine .inl ⟨whole_lines_of_owns_start _ ownsStart, ?_, rfl⟩
          cases behind : after.dropWhile isHorizontal with
          | nil => exact .inl rfl
          | cons char tail =>
              rw [behind] at ownsEnd
              have same : char = '\n' := by simpa using ownsEnd
              exact .inr ⟨tail, by rw [same]⟩

theorem of_lines_left_shape (above below : Text) (whole : WholeLines above) :
    ∃ front, above = front ++ (Reach.ofLines above below).left ∧ (Reach.ofLines above below).left.all isBlank = true ∧
      WholeLines front := by
  unfold Reach.ofLines
  by_cases last : below = []
  · rw [if_pos last]
    exact blank_lines_before_shape above whole
  · rw [if_neg last]
    split <;> exact ⟨above, by simp, rfl, whole⟩

theorem of_lines_right_shape (above below : Text) :
    ∃ rest, below = (Reach.ofLines above below).right ++ rest ∧ (Reach.ofLines above below).right.all isBlank = true ∧
      WholeLines (Reach.ofLines above below).right := by
  unfold Reach.ofLines
  by_cases last : below = []
  · rw [if_pos last]
    exact ⟨below, rfl, rfl, .inl rfl⟩
  · rw [if_neg last]
    split
    · have whole := whole_lines_append_last_line (below.takeWhile isBlank)
      have blank : (below.takeWhile isBlank).all isBlank = true := List.all_takeWhile
      rw [← whole, List.all_append, Bool.and_eq_true] at blank
      refine ⟨lastLine (below.takeWhile isBlank) ++ below.dropWhile isBlank, ?_, blank.1, whole_lines_end _⟩
      show below = wholeLines (below.takeWhile isBlank) ++ _
      rw [← List.append_assoc, whole, List.takeWhile_append_dropWhile]
    · exact ⟨below, rfl, rfl, .inl rfl⟩

theorem reach_left_shape (before after : Text) :
    ∃ front, before = front ++ (Reach.of before after).left ∧ (Reach.of before after).left.all isBlank = true ∧
      ((Reach.of before after).left.all isHorizontal = true ∨ WholeLines front) := by
  have parts := trim_append_end isHorizontal before
  have indent := end_while_all isHorizontal before
  have blank := horizontal_all_blank _ indent
  rcases reach_cases before after with ⟨whole, _, shape⟩ | shape | shape
  · obtain ⟨front, lines, taken, starts⟩ := of_lines_left_shape _ ((after.dropWhile isHorizontal).drop 1) whole
    rw [shape]
    refine ⟨front, ?_, ?_, .inr starts⟩
    · rw [← List.append_assoc, ← lines, parts]
    · rw [List.all_append, taken, blank]
      rfl
  · rw [shape]
    exact ⟨before.trimEndWhile isHorizontal, parts.symm, blank, .inl indent⟩
  · rw [shape]
    exact ⟨before, (List.append_nil _).symm, rfl, .inl rfl⟩

theorem reach_right_shape (before after : Text) :
    ∃ rest, after = (Reach.of before after).right ++ rest ∧ (Reach.of before after).right.all isBlank = true ∧
      ((Reach.of before after).right.all isHorizontal = true ∨ ∃ lines, (Reach.of before after).right = lines ++ ['\n']) := by
  have parts := List.takeWhile_append_dropWhile (p := isHorizontal) (l := after)
  have gap : (after.takeWhile isHorizontal).all isHorizontal = true := List.all_takeWhile
  have blank := horizontal_all_blank _ gap
  rcases reach_cases before after with ⟨_, ending, shape⟩ | shape | shape
  · rw [shape]
    rcases ending with behind | ⟨tail, behind⟩
    · rw [behind] at parts ⊢
      have none : (Reach.ofLines (before.trimEndWhile isHorizontal) ([].drop 1)).right = [] := by
        simp [Reach.ofLines]
      rw [none, List.take_nil, List.append_nil, List.append_nil]
      exact ⟨[], parts.symm, blank, .inl gap⟩
    · rw [behind] at parts ⊢
      obtain ⟨rest, lines, taken, whole⟩ := of_lines_right_shape (before.trimEndWhile isHorizontal) tail
      refine ⟨rest, ?_, ?_, .inr ?_⟩
      · conv => lhs; rw [← parts, lines]
        simp
      · have broken : List.all ['\n'] isBlank = true := by decide
        simp only [List.take_succ_cons, List.take_zero, List.drop_one, List.tail_cons]
        rw [List.all_append, List.all_append, blank, broken, taken]
        rfl
      · rcases whole with none | ⟨more, last⟩
        · exact ⟨after.takeWhile isHorizontal, by simpa using none⟩
        · exact ⟨after.takeWhile isHorizontal ++ '\n' :: more, by simpa using last⟩
  · rw [shape]
    exact ⟨after.dropWhile isHorizontal, parts.symm, blank, .inl gap⟩
  · rw [shape]
    exact ⟨after.dropWhile isHorizontal, parts.symm, blank, .inl gap⟩

theorem line_end_blank (char : Char) (lineEnd : isLineEnd char = true) : isBlank char = true := by
  simp only [isLineEnd, Bool.or_eq_true, beq_iff_eq] at lineEnd
  rcases lineEnd with (rfl | rfl) | rfl <;> decide

theorem line_end_not_horizontal (char : Char) (lineEnd : isLineEnd char = true) : isHorizontal char = false := by
  simp only [isLineEnd, Bool.or_eq_true, beq_iff_eq] at lineEnd
  rcases lineEnd with (rfl | rfl) | rfl <;> decide

theorem spaces_no_line_end (spaces : Text) (char : Char) (behind : Text) (horizontal : spaces.all isHorizontal = true)
    (visible : isBlank char = false) :
    ¬ ((spaces ++ char :: behind).dropWhile (· == '\r')).head?.all isLineEnd = true := by
  intro ends
  induction spaces with
  | nil =>
      by_cases same : char = '\r'
      · exact absurd visible (by rw [same]; decide)
      · have lineEnd : isLineEnd char = true := by simpa [same] using ends
        rw [line_end_blank char lineEnd] at visible
        exact Bool.noConfusion visible
  | cons first rest ih =>
      rw [List.all_cons, Bool.and_eq_true] at horizontal
      by_cases same : first = '\r'
      · exact ih horizontal.2 (by simpa [same] using ends)
      · have lineEnd : isLineEnd first = true := by simpa [same] using ends
        rw [line_end_not_horizontal first lineEnd] at horizontal
        exact Bool.noConfusion horizontal.1

-- Blanks that follow whole lines do not begin in front of something on the same line.
theorem shown_front_le (front blanks : Text) (whole : WholeLines front) (blank : blanks.all isBlank = true) (limit rest : Text)
    (shown : (lastLine limit).any (fun char => !isBlank char) = true) (parts : limit ++ rest = front ++ blanks) :
    blanks <:+ rest := by
  rcases List.append_eq_append_iff.mp parts with ⟨middle, _, shape⟩ | ⟨middle, outer, shape⟩
  · exact ⟨middle, shape.symm⟩
  · obtain ⟨char, member, visible⟩ := List.any_eq_true.mp shown
    have inside := last_line_of_whole front middle whole char (outer ▸ member)
    have taken := List.all_eq_true.mp blank char (shape ▸ List.mem_append_left _ inside)
    simp [taken] at visible

-- Spaces do not begin in front of an end that something precedes, or at which the line ends.
theorem horizontal_front_le (front blanks : Text) (horizontal : blanks.all isHorizontal = true) (limit rest : Text)
    (char : Char) (behind : Text) (visible : isBlank char = false)
    (ends : limit.getLast?.any (fun char => !isBlank char) = true ∨
      ((rest ++ char :: behind).dropWhile (· == '\r')).head?.all isLineEnd = true)
    (parts : limit ++ rest = front ++ blanks) : blanks <:+ rest := by
  rcases List.append_eq_append_iff.mp parts with ⟨middle, _, shape⟩ | ⟨middle, outer, shape⟩
  · exact ⟨middle, shape.symm⟩
  · rcases List.eq_nil_or_concat middle with none | ⟨more, last, concat⟩
    · rw [none, List.nil_append] at shape
      exact shape ▸ List.suffix_refl _
    · rw [List.concat_eq_append] at concat
      exfalso
      rcases ends with solid | broken
      · have taken := List.all_eq_true.mp (horizontal_all_blank _ horizontal) last (by rw [shape, concat]; simp)
        rw [outer, concat, ← List.append_assoc, List.getLast?_concat] at solid
        simp [taken] at solid
      · have spaces : rest.all isHorizontal = true := by
          rw [shape, List.all_append, Bool.and_eq_true] at horizontal
          exact horizontal.2
        exact spaces_no_line_end rest char behind spaces visible broken

theorem line_front_le (front blanks : Text) (blank : blanks.all isBlank = true)
    (form : blanks.all isHorizontal = true ∨ WholeLines front) (line rest : Text)
    (shown : (lastLine line).any (fun char => !isBlank char) = true) (parts : line ++ ['\n'] ++ rest = front ++ blanks) :
    blanks <:+ rest := by
  rcases List.append_eq_append_iff.mp parts with ⟨middle, _, shape⟩ | ⟨middle, outer, shape⟩
  · exact ⟨middle, shape.symm⟩
  · rcases List.eq_nil_or_concat middle with none | ⟨more, last, concat⟩
    · rw [none, List.nil_append] at shape
      exact shape ▸ List.suffix_refl _
    · rw [List.concat_eq_append] at concat
      rw [concat, ← List.append_assoc] at outer
      obtain ⟨inner, final⟩ := List.append_inj' outer rfl
      have same : last = '\n' := by simpa using final.symm
      exfalso
      rcases form with horizontal | whole
      · exact horizontal_unbroken blanks horizontal (by rw [shape, concat, same]; simp)
      · obtain ⟨char, member, visible⟩ := List.any_eq_true.mp shown
        have inside := last_line_of_whole front more whole char (inner ▸ member)
        have taken := List.all_eq_true.mp blank char (by rw [shape, concat]; simp [inside])
        simp [taken] at visible

end ScriptTidy
