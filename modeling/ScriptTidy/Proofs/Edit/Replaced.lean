import ScriptTidy.Proofs.Edit.Prepared

/-! Applying splices is replacing ranges: the result character by character, and when there is none. -/

set_option autoImplicit false

namespace ScriptTidy.Edits

open Text Edit

-- One of two edits ends where the other one starts, or in front of it.
def Apart (first second : Edit) : Prop := first.stop ≤ second.start ∨ second.stop ≤ first.start

instance (first second : Edit) : Decidable (Apart first second) := inferInstanceAs (Decidable (_ ∨ _))

instance (text : Text) (edit : Edit) : Decidable (edit.InText text) := inferInstanceAs (Decidable (_ ∧ _ ∧ _))

-- What is put in at an offset, in the order in which it was recorded.
def insertedAt (edits : Edits) (offset : Nat) : Text :=
  (edits.filter fun edit => edit.start == offset && edit.stop == offset).flatMap (·.text)

-- What stands for the range that begins at an offset.
def replacedAt (edits : Edits) (offset : Nat) : Text :=
  (edits.filter fun edit => edit.start == offset && offset < edit.stop).flatMap (·.text)

-- A text that begins at `offset` with its ranges replaced. At each place come first the insertions, then what stands
-- for a range that begins there, then the character, unless it lies in a range.
def replaced (edits : Edits) (offset : Nat) : Text → Text
  | [] => insertedAt edits offset
  | char :: rest =>
      insertedAt edits offset ++ replacedAt edits offset ++ (if covers edits offset then [] else [char]) ++
        replaced edits (offset + char.utf8Size) rest

theorem covers_iff (edits : Edits) (offset : Nat) : covers edits offset = true ↔
    ∃ edit ∈ edits, edit.start ≤ offset ∧ offset < edit.stop := by
  simp [covers]

section Prepared

variable (text : Text) (edits : Edits) (valid : ∀ edit ∈ edits, edit.InText text)
  (empty : ∀ edit ∈ edits, edit.kind = .removal → edit.text = [])

include valid empty

-- Edits as they are applied cover all that was recorded, and beyond it nothing visible.
theorem recorded_covered (offset : Nat) (asked : covers edits offset = true) : covers (edits.prepared text) offset = true := by
  obtain ⟨edit, member, lower, upper⟩ := (covers_iff _ offset).mp asked
  obtain ⟨wide, present, _, first, last⟩ := prepared_takes text edits valid empty edit member
  exact (covers_iff _ offset).mpr ⟨wide, present, Nat.le_trans first lower, Nat.lt_of_lt_of_le upper last⟩

theorem covered_recorded (front : Text) (char : Char) (back : Text) (shape : text = front ++ char :: back)
    (shown : isBlank char = false) (taken : covers (edits.prepared text) (0 + bytes front) = true) :
    covers edits (0 + bytes front) = true := by
  have inner := solid_within text 0 text.bytes (boundary_zero text) (boundary_bytes text) (Nat.zero_le _) front char back
    (by rw [between_bytes, after_zero, shape]) (by simp [shown])
  obtain ⟨edit, member, lower, upper⟩ := (covers_iff _ _).mp taken
  obtain ⟨recorded, asked, inside⟩ := prepared_covers_solid text edits valid empty edit member _ inner.1 inner.2.1 lower upper
  exact (covers_iff _ _).mpr ⟨recorded, asked, inside⟩

end Prepared

section Agreement

variable (edits others : Edits)

-- Two lists of edits say the same about an offset.
def Agree (offset : Nat) : Prop :=
  insertedAt edits offset = insertedAt others offset ∧ replacedAt edits offset = replacedAt others offset ∧
    covers edits offset = covers others offset

theorem replaced_congr (text : Text) : ∀ offset, (∀ later, offset ≤ later → Agree edits others later) →
    replaced edits offset text = replaced others offset text := by
  induction text with
  | nil => exact fun offset agree => (agree offset (Nat.le_refl _)).1
  | cons char rest ih =>
      intro offset agree
      obtain ⟨inserted, fresh, covered⟩ := agree offset (Nat.le_refl _)
      have behind := ih (offset + char.utf8Size) fun later bound => agree later (Nat.le_trans (Nat.le_add_right _ _) bound)
      rw [replaced, replaced, inserted, fresh, covered, behind]

theorem agree_behind (edit : Edit) (offset : Nat) (started : edit.start < offset) (ended : edit.stop ≤ offset) :
    Agree (edit :: edits) edits offset := by
  have other : (edit.start == offset) = false := by simpa using Nat.ne_of_lt started
  have past : ¬ offset < edit.stop := Nat.not_lt.mpr ended
  simp [Agree, insertedAt, replacedAt, covers, other, past]

theorem agree_in_front (offset : Nat) (ahead : ∀ edit ∈ edits, offset < edit.start) : Agree edits [] offset := by
  have inserted : edits.filter (fun edit => edit.start == offset && edit.stop == offset) = [] := by
    refine List.filter_eq_nil_iff.mpr fun edit member => ?_
    have far := Nat.ne_of_gt (ahead edit member)
    simp [far]
  have fresh : edits.filter (fun edit => edit.start == offset && decide (offset < edit.stop)) = [] := by
    refine List.filter_eq_nil_iff.mpr fun edit member => ?_
    have far := Nat.ne_of_gt (ahead edit member)
    simp [far]
  have covered : covers edits offset = false := by
    refine Bool.eq_false_iff.mpr fun inside => ?_
    obtain ⟨edit, member, lower, _⟩ := (covers_iff edits offset).mp inside
    exact Nat.not_lt.mpr lower (ahead edit member)
  exact ⟨by simp [insertedAt, inserted], by simp [replacedAt, fresh], covered⟩

end Agreement

theorem replaced_nothing (text : Text) (offset : Nat) : replaced [] offset text = text := by
  induction text generalizing offset with
  | nil => rfl
  | cons char rest ih => simp [replaced, insertedAt, replacedAt, covers, ih]

-- In front of all edits the text stays as it is.
theorem replaced_front (edits : Edits) (front back : Text) : ∀ offset,
    (∀ edit ∈ edits, offset + bytes front ≤ edit.start) →
      replaced edits offset (front ++ back) = front ++ replaced edits (offset + bytes front) back := by
  induction front with
  | nil => exact fun _ _ => rfl
  | cons char rest ih =>
      intro offset ahead
      have size := Char.utf8Size_pos char
      have before : ∀ edit ∈ edits, offset < edit.start := fun edit member => by
        have far := ahead edit member
        rw [bytes_cons] at far
        omega
      obtain ⟨inserted, fresh, covered⟩ := agree_in_front edits offset before
      have later := ih (offset + char.utf8Size) fun edit member => by
        have far := ahead edit member
        rw [bytes_cons] at far
        omega
      rw [List.cons_append, replaced, inserted, fresh, covered, later, bytes_cons, Nat.add_assoc]
      simp [insertedAt, replacedAt, covers]

-- An insertion that comes first in the list comes first at its place.
theorem replaced_insertion (edit : Edit) (rest : Edits) (text : Text) (empty : edit.stop = edit.start) :
    replaced (edit :: rest) edit.start text = edit.text ++ replaced rest edit.start text := by
  have inserted : insertedAt (edit :: rest) edit.start = edit.text ++ insertedAt rest edit.start := by
    simp [insertedAt, empty]
  cases text with
  | nil => exact inserted
  | cons char back =>
      have size := Char.utf8Size_pos char
      have fresh : replacedAt (edit :: rest) edit.start = replacedAt rest edit.start := by
        simp [replacedAt, empty]
      have covered : covers (edit :: rest) edit.start = covers rest edit.start := by
        simp [covers, empty]
      have behind := replaced_congr (edit :: rest) rest back (edit.start + char.utf8Size) fun later bound =>
        agree_behind rest edit later (by omega) (by omega)
      rw [replaced, replaced, inserted, fresh, covered, behind]
      simp only [List.append_assoc]

-- Behind its first character a range leaves nothing.
theorem replaced_inside (edit : Edit) (rest : Edits) (after : ∀ other ∈ rest, edit.stop ≤ other.start) (middle back : Text) :
    ∀ offset, edit.start < offset → offset + bytes middle = edit.stop →
      replaced (edit :: rest) offset (middle ++ back) = replaced rest edit.stop back := by
  induction middle with
  | nil =>
      intro offset started ending
      rw [bytes_nil, Nat.add_zero] at ending
      rw [← ending, List.nil_append]
      exact replaced_congr (edit :: rest) rest back offset fun later bound =>
        agree_behind rest edit later (by omega) (by omega)
  | cons char more ih =>
      intro offset started ending
      have size := Char.utf8Size_pos char
      rw [bytes_cons] at ending
      have other : (edit.start == offset) = false := by simpa using Nat.ne_of_lt started
      obtain ⟨inserted, fresh, _⟩ := agree_in_front rest offset fun later member => by
        have far := after later member
        omega
      have alone : insertedAt (edit :: rest) offset = [] ∧ replacedAt (edit :: rest) offset = [] := by
        constructor
        · rw [insertedAt, List.filter_cons, other]
          exact inserted
        · rw [replacedAt, List.filter_cons, other]
          exact fresh
      have covered : covers (edit :: rest) offset = true :=
        (covers_iff _ _).mpr ⟨edit, List.mem_cons_self, by omega, by omega⟩
      rw [List.cons_append, replaced, alone.1, alone.2, covered, ih (offset + char.utf8Size) (by omega) (by omega)]
      rfl

theorem replaced_range (edit : Edit) (rest : Edits) (after : ∀ other ∈ rest, edit.stop ≤ other.start) (middle back : Text)
    (wide : edit.start < edit.stop) (ending : edit.start + bytes middle = edit.stop) :
    replaced (edit :: rest) edit.start (middle ++ back) = edit.text ++ replaced rest edit.stop back := by
  cases middle with
  | nil =>
      rw [bytes_nil] at ending
      omega
  | cons char more =>
      have size := Char.utf8Size_pos char
      rw [bytes_cons] at ending
      obtain ⟨inserted, fresh, _⟩ := agree_in_front rest edit.start fun later member =>
        Nat.lt_of_lt_of_le wide (after later member)
      have other : (edit.stop == edit.start) = false := by simpa using Nat.ne_of_gt wide
      have none : insertedAt (edit :: rest) edit.start = [] := by
        rw [insertedAt, List.filter_cons, other, Bool.and_false]
        exact inserted
      have own : replacedAt (edit :: rest) edit.start = edit.text := by
        have nothing : replacedAt rest edit.start = [] := fresh
        simp only [replacedAt] at nothing
        simp [replacedAt, wide, nothing]
      have covered : covers (edit :: rest) edit.start = true :=
        (covers_iff _ _).mpr ⟨edit, List.mem_cons_self, Nat.le_refl _, wide⟩
      have inner := replaced_inside edit rest after more back (edit.start + char.utf8Size) (by omega) (by omega)
      rw [List.cons_append, replaced, none, own, covered, inner]
      simp

-- The two forms of a text with edits that stand in order: from edit to edit, and from character to character.
theorem spliced_replaced (text : Text) (edits : Edits) : ∀ cursor, text.IsBoundary cursor → InOrder text cursor edits →
    spliced text text.bytes cursor edits = replaced edits cursor (text.after cursor) := by
  induction edits with
  | nil =>
      intro cursor _ _
      rw [spliced, between_bytes, replaced_nothing]
  | cons edit rest ih =>
      intro cursor boundary ordered
      obtain ⟨early, valid, later⟩ := ordered
      have after : ∀ other ∈ rest, edit.stop ≤ other.start := fun other member =>
        (in_order_bounds text rest edit.stop later other member).1
      have ahead : ∀ other ∈ edit :: rest, edit.start ≤ other.start := fun other member => by
        by_cases same : other = edit
        · exact same ▸ Nat.le_refl _
        · exact Nat.le_trans valid.1 (after other (List.mem_of_ne_of_mem same member))
      have gap := between_append_after text cursor edit.start boundary valid.2.1 early
      have size := bytes_between text cursor edit.start boundary valid.2.1 early
      have front := replaced_front (edit :: rest) (text.between cursor edit.start) (text.after edit.start) cursor fun other member =>
        size.symm ▸ ahead other member
      rw [gap, size] at front
      rw [spliced, ih edit.stop valid.2.2 later, front, List.append_assoc]
      by_cases empty : edit.stop = edit.start
      · rw [replaced_insertion edit rest _ empty, empty]
      · have range := between_append_after text edit.start edit.stop valid.2.1 valid.2.2 valid.1
        have width := bytes_between text edit.start edit.stop valid.2.1 valid.2.2 valid.1
        have wide : edit.start < edit.stop := Nat.lt_of_le_of_ne valid.1 (Ne.symm empty)
        rw [← range, replaced_range edit rest after _ _ wide width]

section Splices

variable (text : Text) (edits : Edits)

theorem merge_from_splices (rest : Edits) : ∀ last : Edit, (∀ edit ∈ rest, edit.kind = .splice) →
    mergeFrom text last rest = last :: rest := by
  induction rest with
  | nil => exact fun _ _ => rfl
  | cons next rest ih =>
      intro last splices
      have kind := splices next List.mem_cons_self
      have alone : joins text last next = false := by simp [joins, kind]
      rw [mergeFrom, alone, ih next fun edit member => splices edit (List.mem_cons_of_mem next member)]
      rfl

variable (splices : ∀ edit ∈ edits, edit.kind = .splice)

include splices

-- Splices are applied as they were recorded, in their order.
theorem prepared_splices : edits.prepared text = edits.sorted := by
  have all : ∀ edit ∈ edits.sorted, edit.kind = .splice := fun edit member =>
    splices edit ((sorted_perm edits).mem_iff.mp member)
  have kept : merged text edits.sorted = edits.sorted := by
    cases shape : edits.sorted with
    | nil => rfl
    | cons first rest =>
        exact merge_from_splices text rest first fun edit member => all edit (shape ▸ List.mem_cons_of_mem first member)
  rw [prepared, kept]
  calc edits.sorted.map (·.widened text) = edits.sorted.map id :=
        List.map_congr_left fun edit member => widened_splice text edit (all edit member)
    _ = edits.sorted := List.map_id _

-- Applying splices is trying them in order.
theorem apply_splices : edits.apply text = spliceFrom text 0 edits.sorted := by
  rw [apply, prepared_splices text edits splices]

variable (valid : ∀ edit ∈ edits, edit.InText text)

include valid

theorem splices_sound (apart : edits.Pairwise Apart) : Sound text edits where
  valid := valid
  empty := fun edit member removal => EditKind.noConfusion ((splices edit member).symm.trans removal)
  compatible := apart.imp .inr
  fenced := fun edit _ _ run given => by
    obtain ⟨recorded, member, removal, _⟩ := given.first
    exact EditKind.noConfusion ((splices recorded member).symm.trans removal)

theorem apart_of_apply (out : Text) (done : edits.apply text = .ok out) : edits.Pairwise Apart := by
  have inText : ∀ edit ∈ edits.sorted, edit.InText text := fun edit member =>
    valid edit ((sorted_perm edits).mem_iff.mp member)
  rw [apply_splices text edits splices] at done
  have ordered := (in_order_of_splice text _ (fun edit member => (inText edit member).1) 0 out done).1
  have apart : edits.sorted.Pairwise Apart := (in_order_pairwise text _ 0 ordered).imp .inl
  exact (sorted_perm edits).pairwise apart fun given => given.symm

end Splices

section Order

variable (edits : Edits)

-- Sorting leaves edits of one range in the order in which they were recorded.
theorem place_filter (keep : Edit → Bool) (edit : Edit) (rest : Edits)
    (level : ∀ first second, keep first = true → keep second = true → first.atOrBefore second = true) :
    (place edit rest).filter keep = (edit :: rest).filter keep := by
  induction rest with
  | nil => rfl
  | cons first rest ih =>
      rw [place]
      by_cases near : edit.atOrBefore first = true
      · rw [if_pos near]
      · rw [if_neg near, List.filter_cons, ih]
        by_cases kept : keep edit = true
        · have dropped : ¬ keep first = true := fun other => near (level edit first kept other)
          simp [kept, dropped]
        · simp [List.filter_cons, kept]

theorem sorted_filter (keep : Edit → Bool)
    (level : ∀ first second, keep first = true → keep second = true → first.atOrBefore second = true) :
    edits.sorted.filter keep = edits.filter keep := by
  induction edits with
  | nil => rfl
  | cons edit rest ih => rw [sorted, place_filter keep edit (sorted rest) level, List.filter_cons, List.filter_cons, ih]

theorem inserted_at_sorted (offset : Nat) : insertedAt edits.sorted offset = insertedAt edits offset := by
  rw [insertedAt, insertedAt, sorted_filter]
  intro first second one other
  simp only [Bool.and_eq_true, beq_iff_eq] at one other
  rw [at_or_before_iff]
  omega

-- At most one range begins at an offset, so there is no order to keep.
theorem replaced_at_perm (others : Edits) (same : others.Perm edits) (apart : edits.Pairwise Apart) (offset : Nat) :
    replacedAt others offset = replacedAt edits offset := by
  have begun := same.filter fun edit => edit.start == offset && decide (offset < edit.stop)
  have alone := apart.filter fun edit => edit.start == offset && decide (offset < edit.stop)
  rw [replacedAt, replacedAt]
  cases shape : edits.filter fun edit => edit.start == offset && decide (offset < edit.stop) with
  | nil =>
      rw [shape] at begun
      rw [begun.eq_nil]
  | cons first rest =>
      rw [shape] at begun alone
      cases rest with
      | nil => rw [List.perm_singleton.mp begun]
      | cons second others =>
          have wide : ∀ edit ∈ first :: second :: others, edit.start = offset ∧ offset < edit.stop := fun edit member => by
            rw [← shape] at member
            simpa using (List.mem_filter.mp member).2
          have front := wide first List.mem_cons_self
          have back := wide second (List.mem_cons_of_mem _ List.mem_cons_self)
          have clear : Apart first second := (List.pairwise_cons.mp alone).1 second List.mem_cons_self
          unfold Apart at clear
          omega

theorem covers_sorted (offset : Nat) : covers edits.sorted offset = covers edits offset := by
  rw [Bool.eq_iff_iff, covers_iff, covers_iff]
  exact exists_congr fun edit => and_congr_left fun _ => (sorted_perm edits).mem_iff

theorem replaced_sorted (apart : edits.Pairwise Apart) (text : Text) (offset : Nat) :
    replaced edits.sorted offset text = replaced edits offset text :=
  replaced_congr edits.sorted edits text offset fun later _ =>
    ⟨inserted_at_sorted edits later, replaced_at_perm edits edits.sorted (sorted_perm edits) apart later, covers_sorted edits later⟩

end Order

theorem apply_replaced (text : Text) (edits : Edits) (splices : ∀ edit ∈ edits, edit.kind = .splice)
    (valid : ∀ edit ∈ edits, edit.InText text) (apart : edits.Pairwise Apart) :
    edits.apply text = .ok (replaced edits 0 text) := by
  have sound := splices_sound text edits splices valid apart
  rw [apply_ok text edits sound, spliced_replaced text _ 0 (boundary_zero text) (prepared_in_order text edits sound), after_zero,
    prepared_splices text edits splices, replaced_sorted edits apart]

-- Applying edits fails at the first one that starts in front of the end of the one before it.
theorem splice_from_error (text : Text) (edits : Edits) : ∀ cursor fault, text.IsBoundary cursor →
    (∀ edit ∈ edits, edit.InText text) → spliceFrom text cursor edits = .error fault →
      (∃ first rest, edits = first :: rest ∧ first.start < cursor) ∨
        ∃ front first second back, edits = front ++ first :: second :: back ∧ second.start < first.stop ∧
          fault = .overlappingEdits first.stop second.start := by
  induction edits with
  | nil =>
      intro cursor fault boundary _ failed
      rw [spliceFrom, copy_ok text cursor _ boundary (boundary_bytes text) (boundary_le text cursor boundary)] at failed
      cases failed
  | cons edit rest ih =>
      intro cursor fault boundary valid failed
      by_cases early : edit.start < cursor
      · exact .inl ⟨edit, rest, rfl, early⟩
      · have inText := valid edit List.mem_cons_self
        rw [spliceFrom, if_neg early, copy_ok text cursor edit.start boundary inText.2.1 (by omega)] at failed
        cases later : spliceFrom text edit.stop rest with
        | ok tail => rw [later] at failed; cases failed
        | error cause =>
            rw [later] at failed
            obtain rfl : cause = fault := Except.error.inj failed
            right
            cases ih edit.stop cause inText.2.2 (fun other member => valid other (List.mem_cons_of_mem _ member)) later with
            | inl head =>
                obtain ⟨first, others, shape, overlap⟩ := head
                rw [shape, spliceFrom, if_pos overlap] at later
                exact ⟨[], edit, first, others, by rw [shape]; rfl, overlap, (Except.error.inj later).symm⟩
            | inr deep =>
                obtain ⟨front, first, second, back, shape, overlap, same⟩ := deep
                exact ⟨edit :: front, first, second, back, by rw [shape]; rfl, overlap, same⟩

-- Edits of the text fail only because two of them overlap as they are applied.
theorem apply_error (text : Text) (edits : Edits) (valid : ∀ edit ∈ edits, edit.InText text)
    (empty : ∀ edit ∈ edits, edit.kind = .removal → edit.text = []) (fault : Fault) (failed : edits.apply text = .error fault) :
    ∃ first ∈ edits.prepared text, ∃ second ∈ edits.prepared text, second.start < first.stop ∧
      fault = .overlappingEdits first.stop second.start := by
  cases splice_from_error text _ 0 fault (boundary_zero text) (prepared_in_text text edits valid empty) failed with
  | inl head =>
      obtain ⟨first, _, _, overlap⟩ := head
      exact absurd overlap (Nat.not_lt_zero _)
  | inr pair =>
      obtain ⟨front, first, second, back, shape, overlap, same⟩ := pair
      rw [shape]
      exact ⟨first, by simp, second, by simp, overlap, same⟩

-- Two edits of the list that cannot both be applied.
theorem overlap_of_error (text : Text) (edits : Edits) (splices : ∀ edit ∈ edits, edit.kind = .splice)
    (valid : ∀ edit ∈ edits, edit.InText text) (fault : Fault) (failed : edits.apply text = .error fault) :
    ∃ first second rest, edits.Perm (first :: second :: rest) ∧ ¬ Apart first second ∧ second.start < first.stop ∧
      fault = .overlappingEdits first.stop second.start := by
  have inText : ∀ edit ∈ edits.sorted, edit.InText text := fun edit member =>
    valid edit ((sorted_perm edits).mem_iff.mp member)
  rw [apply_splices text edits splices] at failed
  cases splice_from_error text edits.sorted 0 fault (boundary_zero text) inText failed with
  | inl head =>
      obtain ⟨first, _, _, overlap⟩ := head
      exact absurd overlap (Nat.not_lt_zero _)
  | inr pair =>
      obtain ⟨front, first, second, back, shape, overlap, same⟩ := pair
      have listed : (front ++ first :: second :: back).Perm (first :: second :: (front ++ back)) :=
        List.perm_middle.trans (List.perm_middle.cons first)
      refine ⟨first, second, front ++ back, (sorted_perm edits).symm.trans (shape ▸ listed), fun apart => ?_, overlap, same⟩
      have order := sorted_ordered edits
      rw [shape] at order inText
      have near := (List.pairwise_cons.mp (List.pairwise_append.mp order).2.1).1 second List.mem_cons_self
      have forward := (inText second (by simp)).1
      rw [at_or_before_iff] at near
      unfold Apart at apart
      omega

-- Splices can be applied just if no two of them overlap. Then each range is replaced and all else is kept; if they
-- cannot be applied, two that overlap are named.
theorem splices_replace_ranges (text : Text) (edits : Edits) (splices : ∀ edit ∈ edits, edit.kind = .splice)
    (valid : ∀ edit ∈ edits, edit.InText text) :
    ((∃ out, edits.apply text = .ok out) ↔ edits.Pairwise Apart) ∧
      (∀ out, edits.apply text = .ok out → out = replaced edits 0 text) ∧
      ∀ fault, edits.apply text = .error fault → ∃ first second rest, edits.Perm (first :: second :: rest) ∧
        ¬ Apart first second ∧ second.start < first.stop ∧ fault = .overlappingEdits first.stop second.start := by
  have apart := apart_of_apply text edits splices valid
  refine ⟨⟨fun ⟨out, done⟩ => apart out done, fun clear => ?_⟩, fun out done => ?_,
    overlap_of_error text edits splices valid⟩
  · exact ⟨_, apply_ok text edits (splices_sound text edits splices valid clear)⟩
  · have sound := splices_sound text edits splices valid (apart out done)
    have whole : out = spliced text text.bytes 0 (edits.prepared text) :=
      Except.ok.inj (done.symm.trans (apply_ok text edits sound))
    rw [whole, spliced_replaced text _ 0 (boundary_zero text) (prepared_in_order text edits sound), after_zero,
      prepared_splices text edits splices, replaced_sorted edits (apart out done)]

-- Two ranges that touch, with insertions where they meet and where the first one begins, recorded out of order.
def meetingSplices : Edits :=
  [.insert 4 "B".toList, .replaceRange 1 4 "Q".toList, .insert 1 "1".toList, .insert 1 "2".toList,
    .replaceRange 4 5 "R".toList, .insert 5 "!".toList]

theorem meeting_splices_replace : (∀ edit ∈ meetingSplices, edit.kind = .splice) ∧
    (∀ edit ∈ meetingSplices, edit.InText "xyéz".toList) ∧ meetingSplices.Pairwise Apart ∧
    meetingSplices.apply "xyéz".toList = .ok "x12QBR!".toList ∧
    ¬ ∃ out, apply "xyéz".toList (.insert 2 "i".toList :: meetingSplices) = .ok out := by
  have splices : ∀ edit ∈ .insert 2 "i".toList :: meetingSplices, edit.kind = .splice := by decide
  have valid : ∀ edit ∈ .insert 2 "i".toList :: meetingSplices, edit.InText "xyéz".toList := by decide +kernel
  have apart : meetingSplices.Pairwise Apart := by decide
  have fewer := List.forall_mem_of_forall_mem_cons splices
  have within := List.forall_mem_of_forall_mem_cons valid
  obtain ⟨possible, result, _⟩ := splices_replace_ranges _ meetingSplices fewer within
  obtain ⟨out, done⟩ := possible.mpr apart
  have shape : replaced meetingSplices 0 "xyéz".toList = "x12QBR!".toList := by decide +kernel
  rw [← shape, ← result out done]
  refine ⟨fewer, within, apart, done, fun other => ?_⟩
  exact absurd ((splices_replace_ranges _ _ splices valid).1.mp other) (by decide)

end ScriptTidy.Edits
