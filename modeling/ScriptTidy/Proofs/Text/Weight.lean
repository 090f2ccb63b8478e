import Mathlib.Algebra.Order.BigOperators.Group.List
import Mathlib.Algebra.Order.Ring.Nat
import ScriptTidy.Proofs.Text.Pieces

/-! How much of a text is visible. -/

set_option autoImplicit false

namespace ScriptTidy.Text

-- The number of visible characters.
def weight (text : Text) : Nat := (visible text).length

theorem visible_append (first second : Text) : visible (first ++ second) = visible first ++ visible second :=
  List.filter_append first second

theorem weight_append (first second : Text) : weight (first ++ second) = weight first + weight second := by
  rw [weight, visible_append, List.length_append, weight, weight]

theorem weight_blank (text : Text) (blank : text.all isBlank = true) : weight text = 0 := by
  rw [weight, List.length_eq_zero_iff, visible, List.filter_eq_nil_iff]
  exact fun char member => by simp [List.all_eq_true.mp blank char member]

theorem weight_sublist (fewer text : Text) (part : fewer.Sublist text) : weight fewer ≤ weight text :=
  (part.filter _).length_le

theorem weight_pos (text : Text) (shown : text.all isBlank = false) : 0 < weight text := by
  obtain ⟨char, member, visible⟩ := List.all_eq_false.mp shown
  exact List.length_pos_of_mem (List.mem_filter.mpr ⟨member, by simpa using visible⟩)

theorem weight_trim_end (text : Text) : weight (trimEnd text) = weight text := by
  obtain ⟨blanks, parts, blank⟩ := trim_end_parts text
  have whole := congrArg weight parts
  rw [weight_append, weight_blank blanks blank, Nat.add_zero] at whole
  exact whole.symm

theorem weight_flat_map {α : Type} (made : α → Text) (list : List α) :
    weight (list.flatMap made) = (list.map fun item => weight (made item)).sum := by
  induction list with
  | nil => rfl
  | cons first rest ih => rw [List.flatMap_cons, weight_append, ih, List.map_cons, List.sum_cons]

theorem weight_split (text : Text) (start middle stop : Nat) (first : text.IsBoundary start) (second : text.IsBoundary middle)
    (last : text.IsBoundary stop) (lower : start ≤ middle) (upper : middle ≤ stop) :
    weight (text.between start stop) = weight (text.between start middle) + weight (text.between middle stop) := by
  rw [← between_append text start middle stop first second last lower upper, weight_append]

section Between

variable (text : Text) (start stop : Nat) (first : text.IsBoundary start) (last : text.IsBoundary stop)

include first last

theorem weight_within (lower upper : Nat) (begins : text.IsBoundary lower) (ends : text.IsBoundary upper) (early : start ≤ lower)
    (ordered : lower ≤ upper) (late : upper ≤ stop) : weight (text.between lower upper) ≤ weight (text.between start stop) := by
  have outer := weight_split text start lower stop first begins last early (Nat.le_trans ordered late)
  have inner := weight_split text lower upper stop begins ends last ordered late
  omega

theorem weight_starts (wide : start < stop) (solid : text.StartsSolid start) : 0 < weight (text.between start stop) :=
  weight_pos _ (not_blank_of_solid text start start stop first first last (Nat.le_refl start) wide solid)

theorem weight_ends (wide : start < stop) (visible : text.EndsVisible stop) : 0 < weight (text.between start stop) := by
  obtain ⟨front, char, shape, shown⟩ := ends_visible_concat text stop visible
  rw [← before_append_between text start stop first last (Nat.le_of_lt wide)] at shape
  have size := bytes_between text start stop first last (Nat.le_of_lt wide)
  rcases List.eq_nil_or_concat (text.between start stop) with none | ⟨more, other, concat⟩
  · rw [none, bytes_nil] at size
    omega
  · rw [List.concat_eq_append] at concat
    rw [concat, ← List.append_assoc] at shape
    obtain rfl := List.singleton_inj.mp (List.append_inj' shape rfl).2
    exact weight_pos _ (by simp [concat, shown])

end Between

end ScriptTidy.Text
