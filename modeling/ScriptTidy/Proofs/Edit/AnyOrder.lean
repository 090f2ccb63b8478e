import ScriptTidy.Proofs.Edit.Replaced

/-! The order in which edits were recorded: only that of edits of one range is seen. -/

set_option autoImplicit false

namespace ScriptTidy.Edits

open Edit

-- The edits of one range, in the order in which they were recorded.
def ofRange (edits : Edits) (start stop : Nat) : Edits := edits.filter fun edit => edit.start == start && edit.stop == stop

-- The same edits, those of one range in the same order.
def Reordered (edits others : Edits) : Prop := ∀ start stop, edits.ofRange start stop = others.ofRange start stop

theorem mem_of_range (edits : Edits) (start stop : Nat) (edit : Edit) :
    edit ∈ edits.ofRange start stop ↔ edit ∈ edits ∧ edit.start = start ∧ edit.stop = stop := by
  simp [ofRange]

theorem of_range_head (edits : Edits) (first : Edit) :
    ofRange (first :: edits) first.start first.stop = first :: edits.ofRange first.start first.stop :=
  List.filter_cons_of_pos (by simp)

-- It is enough to look at the ranges that occur.
theorem reordered_of_members (edits others : Edits)
    (each : ∀ edit ∈ edits ++ others, edits.ofRange edit.start edit.stop = others.ofRange edit.start edit.stop) :
    Reordered edits others := by
  intro start stop
  by_cases found : ∃ edit ∈ edits ++ others, edit.start = start ∧ edit.stop = stop
  · obtain ⟨edit, member, rfl, rfl⟩ := found
    exact each edit member
  · have none : ∀ list : Edits, (∀ edit ∈ list, edit ∈ edits ++ others) → list.ofRange start stop = [] := by
      intro list listed
      refine List.eq_nil_iff_forall_not_mem.mpr fun edit member => found ?_
      obtain ⟨present, range⟩ := (mem_of_range list start stop edit).mp member
      exact ⟨edit, listed edit present, range⟩
    rw [none edits fun _ => List.mem_append_left _, none others fun _ => List.mem_append_right _]

instance (edits others : Edits) : Decidable (Reordered edits others) :=
  decidable_of_iff
    (∀ edit ∈ edits ++ others, edits.ofRange edit.start edit.stop = others.ofRange edit.start edit.stop)
    ⟨reordered_of_members edits others, fun same edit _ => same edit.start edit.stop⟩

theorem of_range_sorted (edits : Edits) (start stop : Nat) : edits.sorted.ofRange start stop = edits.ofRange start stop := by
  refine sorted_filter edits _ fun first second one other => ?_
  simp only [Bool.and_eq_true, beq_iff_eq] at one other
  rw [at_or_before_iff]
  omega

section Heads

variable (edits others : Edits) (edit other : Edit) (same : Reordered (edit :: edits) (other :: others))

include same

theorem head_member : edit ∈ other :: others := by
  have own : edit ∈ ofRange (other :: others) edit.start edit.stop := by
    rw [← same, of_range_head]
    exact List.mem_cons_self
  exact ((mem_of_range _ _ _ _).mp own).1

theorem tails_reordered (heads : edit = other) : Reordered edits others := by
  subst heads
  intro start stop
  have whole := same start stop
  simp only [ofRange, List.filter_cons] at whole ⊢
  split at whole
  · exact (List.cons.inj whole).2
  · exact whole

end Heads

theorem reordered_symm (edits others : Edits) (same : Reordered edits others) : Reordered others edits :=
  fun start stop => (same start stop).symm

-- Each of the two heads is in the other list, so neither comes before the other.
theorem heads_equal (edits others : Edits) (edit other : Edit) (same : Reordered (edit :: edits) (other :: others))
    (bounds : ∀ later ∈ edits, edit.atOrBefore later = true) (otherBounds : ∀ later ∈ others, other.atOrBefore later = true) :
    edit = other := by
  rcases List.mem_cons.mp (head_member edits others edit other same) with equal | behind
  · exact equal
  · rcases List.mem_cons.mp (head_member others edits other edit (reordered_symm _ _ same)) with equal | ahead
    · exact equal.symm
    · have near := (at_or_before_iff _ _).mp (otherBounds edit behind)
      have far := (at_or_before_iff _ _).mp (bounds other ahead)
      have level : other.start = edit.start ∧ other.stop = edit.stop := by omega
      have heads := same edit.start edit.stop
      rw [of_range_head, ← level.1, ← level.2, of_range_head] at heads
      exact (List.cons.inj heads).1

theorem ordered_unique (edits : Edits) : ∀ others : Edits, edits.Pairwise (fun a b => a.atOrBefore b = true) →
    others.Pairwise (fun a b => a.atOrBefore b = true) → Reordered edits others → edits = others := by
  induction edits with
  | nil =>
      intro others _ _ same
      cases others with
      | nil => rfl
      | cons other rest =>
          have nothing := same other.start other.stop
          rw [of_range_head] at nothing
          cases nothing
  | cons edit edits ih =>
      intro others ordered otherOrdered same
      cases others with
      | nil =>
          have nothing := same edit.start edit.stop
          rw [of_range_head] at nothing
          cases nothing
      | cons other others =>
          obtain ⟨bounds, later⟩ := List.pairwise_cons.mp ordered
          obtain ⟨otherBounds, otherLater⟩ := List.pairwise_cons.mp otherOrdered
          have heads := heads_equal edits others edit other same bounds otherBounds
          rw [ih others later otherLater (tails_reordered edits others edit other same heads), heads]

-- Sorting gives one list for all of them.
theorem sorted_reordered (edits others : Edits) (same : Reordered edits others) : edits.sorted = others.sorted :=
  ordered_unique _ _ (sorted_ordered edits) (sorted_ordered others) fun start stop => by
    rw [of_range_sorted, of_range_sorted, same]

-- Edits may be recorded in any order, if only those of one range keep theirs: the same text comes out, or the same fault.
theorem recording_order_unseen (text : Text) (edits others : Edits) (same : Reordered edits others) :
    edits.Perm others ∧ edits.apply text = others.apply text := by
  have sorted := sorted_reordered edits others same
  refine ⟨(sorted_perm edits).symm.trans (sorted ▸ sorted_perm others), ?_⟩
  rw [apply, apply, prepared, prepared, sorted]

-- Two insertions at one place, two removals that are merged, and a range behind them, recorded last things first.
def shuffledEdits : Edits :=
  [.replaceRange 15 16 "z".toList, ⟨10, 14, [], .removal⟩, .insert 0 "1".toList, ⟨5, 9, [], .removal⟩, .insert 0 "2".toList]

def documentEdits : Edits :=
  [.insert 0 "1".toList, .insert 0 "2".toList, ⟨5, 9, [], .removal⟩, ⟨10, 14, [], .removal⟩, .replaceRange 15 16 "z".toList]

-- With a range over the start of another one as well, both lists fail, and in the same way.
theorem shuffled_edits_apply :
    let text := "a();\nb();\nc();\nd();\n".toList
    let wide : Edit := .replaceRange 14 16 []
    Reordered shuffledEdits documentEdits ∧ shuffledEdits.apply text = documentEdits.apply text ∧
      (documentEdits.apply text).toOption = some "12a();\nz();\n".toList ∧
      apply text (wide :: shuffledEdits) = apply text (documentEdits ++ [wide]) ∧
      (apply text (documentEdits ++ [wide])).toOption = none := by
  intro text wide
  have same : Reordered shuffledEdits documentEdits := by decide +kernel
  have more : Reordered (wide :: shuffledEdits) (documentEdits ++ [wide]) := by decide +kernel
  exact ⟨same, (recording_order_unseen text _ _ same).2, by decide +kernel, (recording_order_unseen text _ _ more).2,
    by decide +kernel⟩

end ScriptTidy.Edits
