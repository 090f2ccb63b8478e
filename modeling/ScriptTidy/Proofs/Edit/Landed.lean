import ScriptTidy.Proofs.Edit.Spliced

/-! Where a range of the text comes to stand when edits that do not touch it are applied. -/

set_option autoImplicit false

namespace ScriptTidy.Edits

open Text Edit

def landed (text : Text) (edits : Edits) (offset : Nat) : Nat :=
  bytes (spliced text offset 0 (edits.filter fun edit => edit.stop ≤ offset))

section Ranges

variable (text : Text) (edits : Edits) (ordered : InOrder text 0 edits) (start stop : Nat) (first : text.IsBoundary start)
  (last : text.IsBoundary stop) (forward : start ≤ stop) (clear : ∀ edit ∈ edits, edit.ClearOf start stop)

include ordered first last forward clear

-- The range is found again, with its text.
theorem landed_text : ∃ front back, spliced text text.bytes 0 edits = front ++ (text.between start stop ++ back) ∧
    bytes front = landed text edits start ∧ bytes front + bytes (text.between start stop) = landed text edits start + (stop - start) := by
  obtain ⟨_, shape⟩ := spliced_around text text.bytes start stop edits first last (boundary_bytes text) forward
    (boundary_le text stop last) 0 (boundary_zero text) ordered (Nat.zero_le start) clear
  have size := bytes_between text start stop first last forward
  have width : bytes (text.between start stop) = stop - start := by omega
  exact ⟨_, _, by rw [shape, List.append_assoc], rfl, by rw [width]; rfl⟩

-- A range behind it lands behind it.
theorem landed_behind (next : Nat) (boundary : text.IsBoundary next) (behind : stop ≤ next) :
    landed text edits start + (stop - start) ≤ landed text edits next := by
  have fewer : ∀ edit ∈ edits.filter fun edit => edit.stop ≤ next, edit.ClearOf start stop :=
    fun edit member => clear edit (List.mem_filter.mp member).1
  obtain ⟨_, shape⟩ := spliced_around text next start stop _ first last boundary forward behind 0 (boundary_zero text)
    (in_order_filter text (fun edit => edit.stop ≤ next) edits 0 ordered) (Nat.zero_le start) fewer
  have same : (edits.filter fun edit => edit.stop ≤ next).filter (fun edit => edit.stop ≤ start) =
      edits.filter fun edit => edit.stop ≤ start := by
    rw [List.filter_filter]
    refine List.filter_congr fun edit _ => ?_
    rw [Bool.and_eq_left_iff_imp, decide_eq_true_iff, decide_eq_true_iff]
    omega
  have size := bytes_between text start stop first last forward
  rw [landed, landed, shape, same, bytes_append, bytes_append]
  omega

end Ranges

end ScriptTidy.Edits
