import ScriptTidy.Proofs.Edit.Prepared

/-! Removals with no more than blanks between them are merged into one, whatever else is recorded around them. -/

set_option autoImplicit false

namespace ScriptTidy

open Text Edit Edits

namespace Text

theorem blank_within (text : Text) (start stop first last : Nat) (one : text.IsBoundary start) (other : text.IsBoundary stop)
    (begins : text.IsBoundary first) (ends : text.IsBoundary last) (lower : start ≤ first) (ordered : first ≤ last)
    (upper : last ≤ stop) (blank : (text.between start stop).all isBlank = true) : (text.between first last).all isBlank = true := by
  rw [← between_append text start first stop one begins other lower (Nat.le_trans ordered upper),
    ← between_append text first last stop begins ends other ordered upper, List.all_append, List.all_append] at blank
  exact (Bool.and_eq_true_iff.mp (Bool.and_eq_true_iff.mp blank).2).1

end Text

namespace Edits

section Merged

variable (text : Text) (edits : Edits) (sound : Sound text edits)

omit edits in
theorem widened_wide (edit : Edit) (valid : edit.InText text) :
    (edit.widened text).start ≤ edit.start ∧ edit.stop ≤ (edit.widened text).stop := by
  cases kind : edit.kind with
  | splice => rw [widened_splice text edit kind]; exact ⟨Nat.le_refl _, Nat.le_refl _⟩
  | removal => exact ⟨(widened_left text edit kind valid).2.1, (widened_right text edit kind valid).2.1⟩

include sound

theorem merged_apart : (merged text edits.sorted).Pairwise fun first second => first.stop ≤ second.start := by
  have ordered := in_order_pairwise text _ 0 (prepared_in_order text edits sound)
  rw [prepared, List.pairwise_map] at ordered
  refine ordered.imp_of_mem fun {first second} one other apart => ?_
  have valid := merged_in_text text edits sound.valid sound.empty
  have wide := (widened_wide text first (valid first one)).2
  have early := (widened_wide text second (valid second other)).1
  omega

-- Between two removals that are not empty there are blanks only, and no splice reaches from one to the other.
theorem neighbours_join (first second : Edit) (one : first ∈ edits) (other : second ∈ edits)
    (kinds : first.kind = .removal ∧ second.kind = .removal) (wide : first.start < first.stop ∧ second.start < second.stop)
    (apart : first.stop ≤ second.start) (blank : (text.between first.stop second.start).all isBlank = true)
    (clear : ∀ edit ∈ edits, edit.kind = .splice → edit.ClearOf first.start second.stop) :
    ∃ joined ∈ merged text edits.sorted, joined.kind = .removal ∧ joined.start ≤ first.start ∧ second.stop ≤ joined.stop := by
  obtain ⟨left, leftMember, leftKind, leftStart, leftStop⟩ := (merged_covers text edits first one).2 kinds.1
  obtain ⟨right, rightMember, rightKind, rightStart, rightStop⟩ := (merged_covers text edits second other).2 kinds.2
  obtain ⟨front, rest, shape⟩ := List.append_of_mem leftMember
  have ordered := merged_apart text edits sound
  have chain := merged_linked text edits sound
  have valid := merged_in_text text edits sound.valid sound.empty
  rw [shape] at ordered chain rightMember valid
  obtain ⟨_, behind, ahead⟩ := List.pairwise_append.mp ordered
  rcases List.mem_append.mp rightMember with before | after
  · have early := ahead right before left List.mem_cons_self
    omega
  · rcases List.mem_cons.mp after with rfl | later
    · exact ⟨right, leftMember, leftKind, leftStart, rightStop⟩
    · cases rest with
      | nil => exact absurd later List.not_mem_nil
      | cons next more =>
          -- The next one in the merged list begins in the gap, so it would have been merged too.
          exfalso
          have linked : Linked text left next := (List.isChain_append.mp chain).2.1.rel
          have nextMember : next ∈ front ++ left :: next :: more := by simp
          have early : next.start ≤ right.start := by
            rcases List.mem_cons.mp later with rfl | far
            · exact Nat.le_refl _
            · have apart := (List.pairwise_cons.mp (List.pairwise_cons.mp behind).2).1 right far
              exact Nat.le_trans (valid next nextMember).1 apart
          rcases merged_settled text edits sound.valid sound.empty next (shape ▸ nextMember) with ⟨splice, recorded⟩ | run
          · have forward := (sound.valid next recorded).1
            have out := clear next recorded splice
            have gap := linked.1
            unfold ClearOf at out
            omega
          · have inside := blank_within text first.stop second.start left.stop next.start (sound.valid first one).2.2
              (sound.valid second other).2.1 (valid left (by simp)).2.2 (valid next nextMember).2.1 leftStop linked.1
              (Nat.le_trans early rightStart) blank
            have joined := (joins_iff text left next).mpr ⟨⟨leftKind, run.removal⟩, .inr inside⟩
            rw [linked.2] at joined
            exact Bool.noConfusion joined

end Merged

end Edits

end ScriptTidy
