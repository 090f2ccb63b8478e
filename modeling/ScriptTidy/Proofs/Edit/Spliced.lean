import ScriptTidy.Edit.Apply
import ScriptTidy.Proofs.Edit.Widened
import ScriptTidy.Proofs.Text.Pieces

/-! Applying edits that stand in order: what becomes of the text between them. -/

set_option autoImplicit false

namespace ScriptTidy.Edits

open Text Edit

def InOrder (text : Text) : Nat → Edits → Prop
  | _, [] => True
  | cursor, edit :: rest => cursor ≤ edit.start ∧ edit.InText text ∧ InOrder text edit.stop rest

-- The text from `cursor` to `stop` with edits applied that stand in order.
def spliced (text : Text) (stop : Nat) : Nat → Edits → Text
  | cursor, [] => text.between cursor stop
  | cursor, edit :: rest => text.between cursor edit.start ++ edit.text ++ spliced text stop edit.stop rest

def covers (edits : Edits) (offset : Nat) : Bool := edits.any fun edit => edit.start ≤ offset && offset < edit.stop

theorem copy_ok (text : Text) (start stop : Nat) (first : text.IsBoundary start) (last : text.IsBoundary stop)
    (ordered : start ≤ stop) : copy text start stop = .ok (text.between start stop) := by
  rw [copy, slice_of_boundaries text start stop first last ordered]

theorem copy_eq_ok (text : Text) (start stop : Nat) (piece : Text) (copied : copy text start stop = .ok piece) :
    start ≤ stop ∧ text.IsBoundary start ∧ text.IsBoundary stop ∧ piece = text.between start stop := by
  unfold copy Text.slice? at copied
  split at copied
  next given =>
    split at given
    next valid =>
      refine ⟨valid.1, valid.2.1, valid.2.2, ?_⟩
      rw [← Except.ok.inj copied]
      exact (Option.some.inj given).symm
    next => cases given
  next => cases copied

theorem splice_from_ok (text : Text) (edits : Edits) : ∀ cursor, text.IsBoundary cursor → InOrder text cursor edits →
    spliceFrom text cursor edits = .ok (spliced text text.bytes cursor edits) := by
  induction edits with
  | nil =>
      intro cursor boundary _
      exact copy_ok text cursor _ boundary (boundary_bytes text) (boundary_le text cursor boundary)
  | cons edit rest ih =>
      intro cursor boundary ordered
      obtain ⟨early, valid, later⟩ := ordered
      rw [spliceFrom, if_neg (by omega), copy_ok text cursor edit.start boundary valid.2.1 early, ih edit.stop valid.2.2 later]
      rfl

theorem splice_from_boundary (text : Text) (cursor : Nat) (edits : Edits) (out : Text)
    (done : spliceFrom text cursor edits = .ok out) : text.IsBoundary cursor := by
  cases edits with
  | nil => exact (copy_eq_ok text cursor _ out done).2.1
  | cons edit rest =>
      rw [spliceFrom] at done
      split at done
      next => cases done
      next =>
        cases front : copy text cursor edit.start with
        | error fault => rw [front] at done; cases done
        | ok kept => exact (copy_eq_ok text cursor edit.start kept front).2.1

theorem splice_from_cons (text : Text) (cursor : Nat) (edit : Edit) (rest : Edits) (out : Text)
    (done : spliceFrom text cursor (edit :: rest) = .ok out) :
    ∃ tail, cursor ≤ edit.start ∧ text.IsBoundary edit.start ∧ spliceFrom text edit.stop rest = .ok tail ∧
      out = text.between cursor edit.start ++ edit.text ++ tail := by
  rw [spliceFrom] at done
  split at done
  next => cases done
  next early =>
    cases front : copy text cursor edit.start with
    | error fault => rw [front] at done; cases done
    | ok kept =>
        cases back : spliceFrom text edit.stop rest with
        | error fault => rw [front, back] at done; cases done
        | ok tail =>
            rw [front, back] at done
            obtain ⟨_, _, boundary, same⟩ := copy_eq_ok text cursor edit.start kept front
            have whole : kept ++ edit.text ++ tail = out := Except.ok.inj done
            exact ⟨tail, by omega, boundary, rfl, by rw [← whole, same]⟩

-- Edits that could be applied stand in order.
theorem in_order_of_splice (text : Text) (edits : Edits) (forward : ∀ edit ∈ edits, edit.start ≤ edit.stop) :
    ∀ cursor out, spliceFrom text cursor edits = .ok out →
      InOrder text cursor edits ∧ out = spliced text text.bytes cursor edits := by
  induction edits with
  | nil => exact fun cursor out done => ⟨trivial, (copy_eq_ok text cursor _ out done).2.2.2⟩
  | cons edit rest ih =>
      intro cursor out done
      obtain ⟨tail, early, boundary, later, shape⟩ := splice_from_cons text cursor edit rest out done
      obtain ⟨ordered, same⟩ := ih (fun other member => forward other (List.mem_cons_of_mem _ member)) edit.stop tail later
      have valid : edit.InText text :=
        ⟨forward edit List.mem_cons_self, boundary, splice_from_boundary text edit.stop rest tail later⟩
      exact ⟨⟨early, valid, ordered⟩, by rw [shape, same, spliced]⟩

theorem in_order_append (text : Text) (first second : Edits) : ∀ cursor, InOrder text cursor (first ++ second) →
    InOrder text cursor first := by
  induction first with
  | nil => exact fun _ _ => trivial
  | cons edit rest ih => exact fun cursor ordered => ⟨ordered.1, ordered.2.1, ih edit.stop ordered.2.2⟩

theorem in_order_from (text : Text) (first : Edits) (edit : Edit) (second : Edits) : ∀ cursor,
    InOrder text cursor (first ++ edit :: second) → InOrder text edit.start (edit :: second) := by
  induction first with
  | nil => exact fun cursor ordered => ⟨Nat.le_refl _, ordered.2⟩
  | cons other rest ih => exact fun cursor ordered => ih other.stop ordered.2.2

theorem in_order_bounds (text : Text) (edits : Edits) : ∀ cursor, InOrder text cursor edits → ∀ edit ∈ edits,
    cursor ≤ edit.start ∧ edit.InText text := by
  induction edits with
  | nil => exact fun _ _ _ member => absurd member List.not_mem_nil
  | cons first rest ih =>
      intro cursor ordered edit member
      obtain ⟨early, valid, later⟩ := ordered
      rcases List.mem_cons.mp member with same | deep
      · exact same ▸ ⟨early, valid⟩
      · obtain ⟨after, inText⟩ := ih first.stop later edit deep
        exact ⟨Nat.le_trans early (Nat.le_trans valid.1 after), inText⟩

theorem in_order_pairwise (text : Text) (edits : Edits) : ∀ cursor, InOrder text cursor edits →
    edits.Pairwise fun first second => first.stop ≤ second.start := by
  induction edits with
  | nil => exact fun _ _ => .nil
  | cons edit rest ih =>
      rintro cursor ⟨_, _, later⟩
      exact List.pairwise_cons.mpr ⟨fun other member => (in_order_bounds text rest edit.stop later other member).1, ih _ later⟩

theorem in_order_sooner (text : Text) (edits : Edits) (cursor sooner : Nat) (early : sooner ≤ cursor)
    (ordered : InOrder text cursor edits) : InOrder text sooner edits := by
  cases edits with
  | nil => trivial
  | cons edit rest => exact ⟨Nat.le_trans early ordered.1, ordered.2⟩

theorem in_order_of_pairwise (text : Text) (edits : Edits) (valid : ∀ edit ∈ edits, edit.InText text)
    (apart : edits.Pairwise fun first second => first.stop ≤ second.start) : InOrder text 0 edits := by
  induction edits with
  | nil => trivial
  | cons edit rest ih =>
      obtain ⟨behind, others⟩ := List.pairwise_cons.mp apart
      have later := ih (fun other member => valid other (List.mem_cons_of_mem edit member)) others
      refine ⟨Nat.zero_le _, valid edit List.mem_cons_self, ?_⟩
      cases rest with
      | nil => trivial
      | cons next more => exact ⟨behind next List.mem_cons_self, later.2⟩

theorem in_order_before (text : Text) (first : Edits) (edit : Edit) (second : Edits) (cursor : Nat)
    (ordered : InOrder text cursor (first ++ edit :: second)) : ∀ other ∈ first, other.stop ≤ edit.start :=
  fun other member =>
    (List.pairwise_append.mp (in_order_pairwise text _ cursor ordered)).2.2 other member edit List.mem_cons_self

theorem spliced_append (text : Text) (stop : Nat) (first : Edits) (edit : Edit) (second : Edits) : ∀ cursor,
    spliced text stop cursor (first ++ edit :: second) =
      spliced text edit.start cursor first ++ edit.text ++ spliced text stop edit.stop second := by
  induction first with
  | nil => exact fun cursor => rfl
  | cons other rest ih =>
      intro cursor
      rw [List.cons_append, spliced, spliced, ih other.stop]
      simp only [List.append_assoc]

-- What stands in front of all edits is copied as it is.
theorem spliced_from (text : Text) (stop cursor middle : Nat) (edits : Edits) (first : text.IsBoundary cursor)
    (second : text.IsBoundary middle) (last : text.IsBoundary stop) (ordered : cursor ≤ middle) (within : middle ≤ stop)
    (placed : InOrder text middle edits) :
    spliced text stop cursor edits = text.between cursor middle ++ spliced text stop middle edits := by
  cases edits with
  | nil => exact (between_append text cursor middle stop first second last ordered within).symm
  | cons edit rest =>
      have front := between_append text cursor middle edit.start first second placed.2.1.2.1 ordered placed.1
      rw [spliced, spliced, ← front]
      simp only [List.append_assoc]

theorem in_order_filter (text : Text) (keep : Edit → Bool) (edits : Edits) : ∀ cursor, InOrder text cursor edits →
    InOrder text cursor (edits.filter keep) := by
  induction edits with
  | nil => exact fun _ _ => trivial
  | cons edit rest ih =>
      rintro cursor ⟨early, valid, later⟩
      have others := ih edit.stop later
      by_cases kept : keep edit = true
      · rw [List.filter_cons_of_pos kept]
        exact ⟨early, valid, others⟩
      · rw [List.filter_cons_of_neg kept]
        exact in_order_sooner text _ edit.stop cursor (Nat.le_trans early valid.1) others

-- A range that no edit touches is copied as it is. The edits up to its start stand in front of it, and the others go on
-- from its end.
theorem spliced_around (text : Text) (stop start finish : Nat) (edits : Edits) (first : text.IsBoundary start)
    (last : text.IsBoundary finish) (ending : text.IsBoundary stop) (forward : start ≤ finish) (within : finish ≤ stop) :
    ∀ cursor, text.IsBoundary cursor → InOrder text cursor edits → cursor ≤ start →
      (∀ edit ∈ edits, edit.ClearOf start finish) →
      InOrder text finish (edits.filter fun edit => start < edit.stop) ∧
        spliced text stop cursor edits = spliced text start cursor (edits.filter fun edit => edit.stop ≤ start) ++
          text.between start finish ++ spliced text stop finish (edits.filter fun edit => start < edit.stop) := by
  induction edits with
  | nil =>
      intro cursor boundary _ early _
      refine ⟨trivial, ?_⟩
      rw [List.filter_nil, List.filter_nil, spliced, spliced, spliced, between_append text cursor start finish boundary first last early
        forward, between_append text cursor finish stop boundary last ending (Nat.le_trans early forward) within]
  | cons edit rest ih =>
      intro cursor boundary ordered early clear
      obtain ⟨inFront, valid, later⟩ := ordered
      have others := fun other member => clear other (List.mem_cons_of_mem edit member)
      by_cases before : edit.stop ≤ start
      · obtain ⟨onward, shape⟩ := ih edit.stop valid.2.2 later before others
        have front : (edit :: rest).filter (fun other => other.stop ≤ start) = edit :: rest.filter fun other => other.stop ≤ start :=
          List.filter_cons_of_pos (by simpa using before)
        have back : (edit :: rest).filter (fun other => start < other.stop) = rest.filter fun other => start < other.stop :=
          List.filter_cons_of_neg (by simpa using before)
        rw [front, back]
        refine ⟨onward, ?_⟩
        rw [spliced, spliced, shape]
        simp only [List.append_assoc]
      -- No edit behind this one ends at the start of the range or sooner.
      · have after : finish ≤ edit.start := (clear edit List.mem_cons_self).resolve_right before
        have all : ∀ other ∈ edit :: rest, start < other.stop := by
          refine List.forall_mem_cons.mpr ⟨Nat.lt_of_not_le before, fun other member => ?_⟩
          obtain ⟨further, inText⟩ := in_order_bounds text rest edit.stop later other member
          exact Nat.lt_of_lt_of_le (Nat.lt_of_not_le before) (Nat.le_trans further inText.1)
        have none : (edit :: rest).filter (fun other => other.stop ≤ start) = [] :=
          List.filter_eq_nil_iff.mpr fun other member => by simpa using all other member
        have whole : (edit :: rest).filter (fun other => start < other.stop) = edit :: rest :=
          List.filter_eq_self.mpr fun other member => by simpa using all other member
        have placed : InOrder text finish (edit :: rest) := ⟨after, valid, later⟩
        rw [none, whole, spliced, between_append text cursor start finish boundary first last early forward]
        exact ⟨placed, spliced_from text stop cursor finish _ boundary last ending (Nat.le_trans early forward) within placed⟩

theorem spliced_at (text : Text) (stop start finish : Nat) (edits : Edits) (first : text.IsBoundary start)
    (last : text.IsBoundary finish) (ending : text.IsBoundary stop) (forward : start ≤ finish) (within : finish ≤ stop)
    (cursor : Nat) (boundary : text.IsBoundary cursor) (ordered : InOrder text cursor edits) (early : cursor ≤ start)
    (clear : ∀ edit ∈ edits, edit.ClearOf start finish) :
    ∃ head rest, (∀ edit ∈ rest, edit ∈ edits) ∧ InOrder text finish rest ∧
      spliced text stop cursor edits = head ++ text.between start finish ++ spliced text stop finish rest :=
  ⟨_, _, fun _ member => (List.mem_filter.mp member).1,
    spliced_around text stop start finish edits first last ending forward within cursor boundary ordered early clear⟩

-- Ranges of the text from `cursor` to `stop`, one behind another.
def Ranges (text : Text) (stop : Nat) : Nat → List (Nat × Nat) → Prop
  | _, [] => True
  | cursor, range :: rest => cursor ≤ range.1 ∧ range.1 ≤ range.2 ∧ range.2 ≤ stop ∧ text.IsBoundary range.1 ∧
      text.IsBoundary range.2 ∧ Ranges text stop range.2 rest

theorem spliced_in_turn (text : Text) (stop : Nat) (ending : text.IsBoundary stop) (ranges : List (Nat × Nat)) :
    ∀ cursor edits, text.IsBoundary cursor → InOrder text cursor edits → Ranges text stop cursor ranges →
      (∀ range ∈ ranges, ∀ edit ∈ edits, edit.ClearOf range.1 range.2) →
      InTurn (ranges.map fun range => text.between range.1 range.2) (spliced text stop cursor edits) := by
  induction ranges with
  | nil => exact fun _ _ _ _ _ _ => trivial
  | cons range rest ih =>
      intro cursor edits boundary ordered placed clear
      obtain ⟨early, forward, within, first, last, later⟩ := placed
      obtain ⟨head, others, fewer, onward, shape⟩ := spliced_at text stop range.1 range.2 edits first last ending forward within
        cursor boundary ordered early (clear range List.mem_cons_self)
      refine ⟨head, _, shape, ih range.2 others last onward later fun other member edit present => ?_⟩
      exact clear other (List.mem_cons_of_mem _ member) edit (fewer edit present)

-- What edits that put nothing in leave of a text.
theorem spliced_all (text : Text) (stop : Nat) (ending : text.IsBoundary stop) (wanted : Char → Bool) (edits : Edits) :
    ∀ cursor, text.IsBoundary cursor → cursor ≤ stop → InOrder text cursor edits → (∀ edit ∈ edits, edit.stop ≤ stop) →
      (∀ edit ∈ edits, edit.text = []) →
      (∀ offset, text.IsBoundary offset → cursor ≤ offset → offset < stop →
        (text.after offset).head?.any (fun char => !wanted char) = true → ∃ edit ∈ edits, edit.start ≤ offset ∧ offset < edit.stop) →
      (spliced text stop cursor edits).all wanted = true := by
  induction edits with
  | nil =>
      intro cursor boundary forward _ _ _ taken
      refine all_between text wanted cursor stop boundary ending forward fun offset inner lower upper char head => ?_
      cases unwanted : wanted char with
      | true => rfl
      | false =>
          obtain ⟨edit, member, _⟩ := taken offset inner lower upper (by rw [head]; simp [unwanted])
          exact absurd member List.not_mem_nil
  | cons edit rest ih =>
      intro cursor boundary forward ordered within empty taken
      obtain ⟨early, valid, later⟩ := ordered
      have bound := within edit List.mem_cons_self
      have wide := valid.1
      rw [spliced, empty edit List.mem_cons_self, List.append_nil, List.all_append, Bool.and_eq_true]
      constructor
      · refine all_between text wanted cursor edit.start boundary valid.2.1 early fun offset inner lower upper char head => ?_
        cases unwanted : wanted char with
        | true => rfl
        | false =>
            obtain ⟨other, member, first, _⟩ := taken offset inner lower (by omega) (by rw [head]; simp [unwanted])
            rcases List.mem_cons.mp member with rfl | deep
            · omega
            · have behind := (in_order_bounds text rest edit.stop later other deep).1
              omega
      · refine ih edit.stop valid.2.2 bound later (fun other member => within other (List.mem_cons_of_mem _ member))
          (fun other member => empty other (List.mem_cons_of_mem _ member)) fun offset inner lower upper unwanted => ?_
        obtain ⟨other, member, first, last⟩ := taken offset inner (by omega) upper unwanted
        rcases List.mem_cons.mp member with rfl | deep
        · omega
        · exact ⟨other, deep, first, last⟩

theorem visible_outside_spliced (text : Text) (stop : Nat) (ending : text.IsBoundary stop) (covered : Nat → Bool)
    (edits : Edits) : ∀ cursor, text.IsBoundary cursor → cursor ≤ stop → InOrder text cursor edits →
      (∀ edit ∈ edits, edit.stop ≤ stop) →
      (∀ edit ∈ edits, ∀ offset, text.IsBoundary offset → text.StartsSolid offset → edit.start ≤ offset →
        offset < edit.stop → covered offset = true) →
      (visible (outside covered cursor (text.between cursor stop))).Sublist (spliced text stop cursor edits) := by
  induction edits with
  | nil =>
      intro cursor _ _ _ _ _
      rw [spliced]
      exact List.filter_sublist.trans (outside_sublist covered cursor _)
  | cons edit rest ih =>
      intro cursor boundary ordered placed within taken
      obtain ⟨early, valid, later⟩ := placed
      have bound := within edit List.mem_cons_self
      have tail := ih edit.stop valid.2.2 bound later (fun other member => within other (List.mem_cons_of_mem _ member))
        fun other member => taken other (List.mem_cons_of_mem _ member)
      have front := between_append text cursor edit.start stop boundary valid.2.1 ending early (Nat.le_trans valid.1 bound)
      have back := between_append text edit.start edit.stop stop valid.2.1 valid.2.2 ending valid.1 bound
      have size := bytes_between text cursor edit.start boundary valid.2.1 early
      have width := bytes_between text edit.start edit.stop valid.2.1 valid.2.2 valid.1
      have gone : visible (outside covered edit.start (text.between edit.start edit.stop)) = [] :=
        outside_all covered _ edit.start _ fun head char after shape shown => by
          obtain ⟨inner, solid, upper⟩ := solid_within text edit.start edit.stop valid.2.1 valid.2.2 valid.1 head char after shape shown
          exact taken edit List.mem_cons_self _ inner solid (Nat.le_add_right _ _) upper
      rw [← front, ← back, outside_append, outside_append, size, width, visible, List.filter_append, List.filter_append, ← visible,
        ← visible, ← visible, gone, spliced, List.append_assoc]
      exact (List.filter_sublist.trans (outside_sublist covered cursor _)).append (tail.trans (List.sublist_append_right _ _))

end ScriptTidy.Edits
