import ScriptTidy.Proofs.Edit.Replaced
import ScriptTidy.Proofs.Text.Weight

/-! What is visible of a text to which edits were applied, and how much that is. -/

set_option autoImplicit false

namespace ScriptTidy

namespace Edits

open Text Edit

def isSplice (edit : Edit) : Bool := edit.kind == .splice

section Splices

variable (text : Text) (edits : Edits)

-- Merging and growing leave splices as they are, and in their order.
theorem merge_from_filter (rest : Edits) : ∀ last : Edit,
    (mergeFrom text last rest).filter isSplice = (last :: rest).filter isSplice := by
  induction rest with
  | nil => exact fun _ => rfl
  | cons next rest ih =>
      intro last
      rw [mergeFrom]
      split
      next joined =>
        obtain ⟨⟨lastKind, nextKind⟩, _⟩ := (joins_iff text last next).mp joined
        rw [ih]
        simp [isSplice, lastKind, nextKind]
      next => rw [List.filter_cons, ih next, List.filter_cons (x := last)]

theorem prepared_filter : (edits.prepared text).filter isSplice = edits.sorted.filter isSplice := by
  have kept : (merged text edits.sorted).filter isSplice = edits.sorted.filter isSplice := by
    cases shape : edits.sorted with
    | nil => rfl
    | cons first rest => exact merge_from_filter text rest first
  have same : isSplice ∘ (·.widened text) = isSplice := funext fun edit => by simp [isSplice, widened_kind]
  rw [prepared, List.filter_map, same, kept]
  calc (edits.sorted.filter isSplice).map (·.widened text) = (edits.sorted.filter isSplice).map id :=
        List.map_congr_left fun edit member => widened_splice text edit (by simpa [isSplice] using (List.mem_filter.mp member).2)
    _ = edits.sorted.filter isSplice := List.map_id _

-- Only splices put something in.
theorem texts_of_splices (empty : ∀ edit ∈ edits, edit.kind = .removal → edit.text = []) (wanted : Edit → Bool) :
    (edits.filter wanted).flatMap (·.text) = ((edits.filter isSplice).filter wanted).flatMap (·.text) := by
  induction edits with
  | nil => rfl
  | cons edit rest ih =>
      have later := ih fun other member => empty other (List.mem_cons_of_mem edit member)
      cases kind : edit.kind with
      | splice =>
          rw [List.filter_cons_of_pos (p := isSplice) (by simp [isSplice, kind]), List.filter_cons, List.filter_cons]
          split
          · rw [List.flatMap_cons, List.flatMap_cons, later]
          · exact later
      | removal =>
          rw [List.filter_cons_of_neg (p := isSplice) (by simp [isSplice, kind]), ← later, List.filter_cons]
          split
          · rw [List.flatMap_cons, empty edit List.mem_cons_self kind, List.nil_append]
          · rfl

theorem replaced_shown (others : Edits) (inserted : ∀ offset, insertedAt edits offset = insertedAt others offset)
    (fresh : ∀ offset, replacedAt edits offset = replacedAt others offset) : ∀ offset,
    (∀ front char back, text = front ++ char :: back → isBlank char = false →
      covers edits (offset + bytes front) = covers others (offset + bytes front)) →
      visible (replaced edits offset text) = visible (replaced others offset text) := by
  induction text with
  | nil => exact fun offset _ => congrArg visible (inserted offset)
  | cons char rest ih =>
      intro offset covered
      have later := ih (offset + char.utf8Size) fun front other back shape shown => by
        have inside := covered (char :: front) other back (by rw [shape]; rfl) shown
        rwa [bytes_cons, ← Nat.add_assoc] at inside
      have here : visible (if covers edits offset then [] else [char]) = visible (if covers others offset then [] else [char]) := by
        cases blank : isBlank char with
        | false => rw [show covers edits offset = covers others offset from covered [] char rest rfl blank]
        | true =>
            have nothing (inside : Bool) : visible (if inside then [] else [char]) = [] := by
              cases inside <;> simp [visible, blank]
            rw [nothing, nothing]
      rw [replaced, replaced, visible_append, visible_append, visible_append, visible_append, inserted, fresh, here, later]
      simp only [visible_append]

end Splices

-- All that no edit covers is kept.
theorem outside_replaced (edits : Edits) (text : Text) : ∀ offset,
    (outside (covers edits) offset text).Sublist (replaced edits offset text) := by
  induction text with
  | nil => exact fun offset => List.nil_sublist _
  | cons char rest ih =>
      intro offset
      have later := ih (offset + char.utf8Size)
      rw [outside, replaced]
      split
      · exact later.trans (List.sublist_append_right _ _)
      · exact (List.sublist_append_right _ [char]).append later

section Applied

variable (text : Text) (edits : Edits) (sound : Sound text edits)

include sound

theorem prepared_empty (edit : Edit) (member : edit ∈ edits.prepared text) (removal : edit.kind = .removal) : edit.text = [] := by
  rcases prepared_text text edits sound.valid sound.empty edit member with empty | recorded
  · exact empty
  · exact sound.empty edit recorded removal

theorem sorted_empty (edit : Edit) (member : edit ∈ edits.sorted) (removal : edit.kind = .removal) : edit.text = [] :=
  sound.empty edit ((sorted_perm edits).mem_iff.mp member) removal

theorem prepared_texts (wanted : Edit → Bool) :
    ((edits.prepared text).filter wanted).flatMap (·.text) = (edits.sorted.filter wanted).flatMap (·.text) := by
  rw [texts_of_splices _ (prepared_empty text edits sound) wanted, texts_of_splices _ (sorted_empty text edits sound) wanted,
    prepared_filter]

theorem replaced_at_prepared (offset : Nat) : replacedAt (edits.prepared text) offset = replacedAt edits offset := by
  have splices : (edits.filter isSplice).Pairwise Apart := by
    refine (sound.compatible.filter isSplice).imp_of_mem fun {first second} one _ compatible => ?_
    have kind : first.kind = .splice := by simpa [isSplice] using (List.mem_filter.mp one).2
    rcases compatible with ⟨removal, _⟩ | apart
    · exact EditKind.noConfusion (kind.symm.trans removal)
    · exact apart
  have same := replaced_at_perm _ _ ((sorted_perm edits).filter isSplice) splices offset
  rw [replacedAt, replacedAt] at same
  rw [replacedAt, replacedAt, prepared_texts text edits sound, texts_of_splices _ (sorted_empty text edits sound),
    texts_of_splices edits sound.empty, same]

-- Of what is visible, applying edits makes what replacing their ranges makes: growing takes blanks only.
theorem visible_applied : ∃ out, apply text edits = .ok out ∧ visible out = visible (replaced edits 0 text) := by
  have whole := spliced_replaced text _ 0 (boundary_zero text) (prepared_in_order text edits sound)
  refine ⟨_, apply_ok text edits sound, ?_⟩
  rw [whole, after_zero]
  refine replaced_shown text _ edits (fun offset => ?_) (replaced_at_prepared text edits sound) 0 fun front char back shape shown => ?_
  · rw [insertedAt, prepared_texts text edits sound]
    exact inserted_at_sorted edits offset
  · rw [Bool.eq_iff_iff]
    exact ⟨covered_recorded text edits sound.valid sound.empty front char back shape shown,
      recorded_covered text edits sound.valid sound.empty _⟩

end Applied

-- Ranges that stand one behind another weigh no more than the text around them.
theorem weight_ranges (text : Text) (stop : Nat) (ending : text.IsBoundary stop) (ranges : List (Nat × Nat)) : ∀ cursor,
    text.IsBoundary cursor → cursor ≤ stop → Ranges text stop cursor ranges →
      (ranges.map fun range => weight (text.between range.1 range.2)).sum ≤ weight (text.between cursor stop) := by
  induction ranges with
  | nil => exact fun _ _ _ _ => Nat.zero_le _
  | cons range rest ih =>
      intro cursor boundary early placed
      obtain ⟨ahead, forward, within, first, last, later⟩ := placed
      have behind := ih range.2 last within later
      have outer := weight_split text cursor range.1 stop boundary first ending ahead (Nat.le_trans forward within)
      have inner := weight_split text range.1 range.2 stop first last ending forward within
      rw [List.map_cons, List.sum_cons]
      omega

-- How much an edit takes, and how much it puts in.
def taken (text : Text) (edit : Edit) : Nat := weight (text.between edit.start edit.stop)

def put (edit : Edit) : Nat := weight edit.text

-- What is visible is what was, less what the edits take, and what they put in.
theorem spliced_balance (text : Text) (stop : Nat) (ending : text.IsBoundary stop) (edits : Edits) : ∀ cursor,
    text.IsBoundary cursor → cursor ≤ stop → InOrder text cursor edits → (∀ edit ∈ edits, edit.stop ≤ stop) →
      weight (spliced text stop cursor edits) + (edits.map (taken text)).sum =
        weight (text.between cursor stop) + (edits.map put).sum := by
  induction edits with
  | nil => exact fun _ _ _ _ _ => rfl
  | cons edit rest ih =>
      intro cursor boundary early ordered within
      obtain ⟨ahead, valid, later⟩ := ordered
      have inside := within edit List.mem_cons_self
      have behind := ih edit.stop valid.2.2 inside later fun other member => within other (List.mem_cons_of_mem edit member)
      have outer := weight_split text cursor edit.start stop boundary valid.2.1 ending ahead (Nat.le_trans valid.1 inside)
      have inner := weight_split text edit.start edit.stop stop valid.2.1 valid.2.2 ending valid.1 inside
      rw [spliced, List.map_cons, List.map_cons, List.sum_cons, List.sum_cons, weight_append, weight_append, taken, put]
      omega

-- Edits that are apart stand in order when they are sorted.
theorem sorted_in_order (text : Text) (edits : Edits) (valid : ∀ edit ∈ edits, edit.InText text)
    (apart : edits.Pairwise Apart) : InOrder text 0 edits.sorted := by
  have inText : ∀ edit ∈ edits.sorted, edit.InText text := fun edit member => valid edit ((sorted_perm edits).mem_iff.mp member)
  have clear := (sorted_perm edits).symm.pairwise apart fun given => given.symm
  refine in_order_of_pairwise text _ inText ?_
  refine (List.pairwise_and_iff.mpr ⟨sorted_ordered edits, clear⟩).imp_of_mem fun {first second} one other given => ?_
  have near := (at_or_before_iff first second).mp given.1
  have forward := (inText first one).1
  have onward := (inText second other).1
  rcases given.2 with before | after
  · exact before
  · omega

-- Removals that lie in others make no difference to what is visible.
theorem replaced_outermost (text : Text) (edits kept : Edits) (empty : ∀ edit ∈ edits, edit.kind = .removal → edit.text = [])
    (fewer : ∀ edit ∈ kept, edit ∈ edits) (splices : kept.filter isSplice = edits.filter isSplice)
    (covered : ∀ edit ∈ edits, ∃ outer ∈ kept, outer.start ≤ edit.start ∧ edit.stop ≤ outer.stop) :
    visible (replaced edits 0 text) = visible (replaced kept 0 text) := by
  have texts (wanted : Edit → Bool) : (edits.filter wanted).flatMap (·.text) = (kept.filter wanted).flatMap (·.text) := by
    rw [texts_of_splices edits empty, texts_of_splices kept fun edit member => empty edit (fewer edit member), splices]
  refine replaced_shown text edits kept (fun _ => texts _) (fun _ => texts _) 0 fun _ _ _ _ _ => ?_
  rw [Bool.eq_iff_iff, covers_iff, covers_iff]
  constructor
  · rintro ⟨edit, member, lower, upper⟩
    obtain ⟨outer, present, first, last⟩ := covered edit member
    exact ⟨outer, present, by omega, by omega⟩
  · rintro ⟨edit, member, inside⟩
    exact ⟨edit, fewer edit member, inside⟩

-- Of edits that are applied, those that lie in no other removal tell what is left of the text.
theorem applied_balance (text : Text) (edits kept : Edits) (sound : Sound text edits) (fewer : ∀ edit ∈ kept, edit ∈ edits)
    (splices : kept.filter isSplice = edits.filter isSplice)
    (covered : ∀ edit ∈ edits, ∃ outer ∈ kept, outer.start ≤ edit.start ∧ edit.stop ≤ outer.stop)
    (apart : kept.Pairwise Apart) : ∃ out, apply text edits = .ok out ∧
      weight out + (kept.map (taken text)).sum = weight text + (kept.map put).sum := by
  obtain ⟨out, done, same⟩ := visible_applied text edits sound
  have ordered := sorted_in_order text kept (fun edit member => sound.valid edit (fewer edit member)) apart
  have balance := spliced_balance text text.bytes (boundary_bytes text) kept.sorted 0 (boundary_zero text) (Nat.zero_le _) ordered
    fun edit member => boundary_le text edit.stop (in_order_bounds text _ 0 ordered edit member).2.2.2
  have sums (amount : Edit → Nat) : (kept.sorted.map amount).sum = (kept.map amount).sum :=
    ((sorted_perm kept).map amount).sum_nat
  rw [spliced_replaced text _ 0 (boundary_zero text) ordered, after_zero, replaced_sorted kept apart, between_zero, before_bytes,
    sums, sums] at balance
  exact ⟨out, done, by rw [weight, same, replaced_outermost text edits kept sound.empty fewer splices covered]; exact balance⟩

end Edits

end ScriptTidy
