import ScriptTidy.Proofs.Edit.Replaced

/-! Edits that put in a character of the same size for each one they take: nothing is moved. -/

set_option autoImplicit false

namespace ScriptTidy

namespace Text

-- Two texts that begin at an offset, with characters of the same sizes, which differ at just the covered offsets.
inductive DiffersAt (covered : Nat → Bool) : Nat → Text → Text → Prop where
  | nil (offset : Nat) : DiffersAt covered offset [] []
  | cons (offset : Nat) (char fresh : Char) (rest others : Text) (size : fresh.utf8Size = char.utf8Size)
      (same : fresh = char ↔ covered offset = false)
      (later : DiffersAt covered (offset + char.utf8Size) rest others) :
      DiffersAt covered offset (char :: rest) (fresh :: others)

section Pairs

variable (covered : Nat → Bool)

theorem differs_bytes (offset : Nat) (text other : Text) (differs : DiffersAt covered offset text other) :
    bytes other = bytes text := by
  induction differs with
  | nil => rfl
  | cons offset char fresh rest others size same later ih => rw [bytes_cons, bytes_cons, size, ih]

theorem differs_self (text : Text) : ∀ offset, (∀ later, offset ≤ later → later < offset + bytes text → covered later = false) →
    DiffersAt covered offset text text := by
  induction text with
  | nil => exact fun offset _ => .nil offset
  | cons char rest ih =>
      intro offset clear
      have size := Char.utf8Size_pos char
      rw [bytes_cons] at clear
      have here := clear offset (Nat.le_refl _) (by omega)
      exact .cons offset char char rest rest rfl ⟨fun _ => here, fun _ => rfl⟩
        (ih _ fun later lower upper => clear later (by omega) (by omega))

theorem equal_of_differs (offset : Nat) (text other : Text) (differs : DiffersAt (fun _ => false) offset text other) :
    other = text := by
  induction differs with
  | nil => rfl
  | cons offset char fresh rest others size same later ih => rw [same.mpr rfl, ih]

theorem differs_append (offset : Nat) (front newFront back newBack : Text) (first : DiffersAt covered offset front newFront)
    (second : DiffersAt covered (offset + bytes front) back newBack) :
    DiffersAt covered offset (front ++ back) (newFront ++ newBack) := by
  induction first with
  | nil offset => exact second
  | cons offset char fresh rest others size same later ih =>
      rw [bytes_cons, ← Nat.add_assoc] at second
      exact .cons offset char fresh _ _ size same (ih second)

-- Only what is covered within the text counts.
theorem differs_congr (other : Nat → Bool) (offset : Nat) (text new : Text) (differs : DiffersAt covered offset text new)
    (agree : ∀ later, offset ≤ later → later < offset + bytes text → covered later = other later) :
    DiffersAt other offset text new := by
  induction differs with
  | nil offset => exact .nil offset
  | cons offset char fresh rest others size same later ih =>
      have wide := Char.utf8Size_pos char
      rw [bytes_cons] at agree
      rw [agree offset (Nat.le_refl _) (by omega)] at same
      exact .cons offset char fresh rest others size same (ih fun next lower upper => agree next (by omega) (by omega))

-- The two texts may be cut at any one offset.
theorem differs_cut (offset : Nat) (text other : Text) (differs : DiffersAt covered offset text other) : ∀ cut,
    DiffersAt covered offset (before text cut) (before other cut) ∧
      DiffersAt covered (offset + bytes (before text cut)) (after text cut) (after other cut) := by
  induction differs with
  | nil offset => exact fun _ => ⟨.nil offset, .nil _⟩
  | cons offset char fresh rest others size same later ih =>
      intro cut
      obtain ⟨front, back⟩ := ih (cut - char.utf8Size)
      rw [before, before, after, after, size]
      split
      · rw [bytes_cons, ← Nat.add_assoc]
        exact ⟨.cons offset char fresh _ _ size same front, back⟩
      · exact ⟨.nil offset, .cons offset char fresh rest others size same later⟩

section Whole

variable (text out : Text) (differs : DiffersAt covered 0 text out)

include differs

theorem differs_boundary (offset : Nat) : out.IsBoundary offset ↔ text.IsBoundary offset := by
  rw [IsBoundary, IsBoundary, differs_bytes covered 0 _ _ (differs_cut covered 0 text out differs offset).1]

theorem differs_between (start stop : Nat) (first : text.IsBoundary start) (last : text.IsBoundary stop)
    (ordered : start ≤ stop) : DiffersAt covered start (text.between start stop) (out.between start stop) := by
  have front := (differs_cut covered 0 text out differs stop).1
  have piece := (differs_cut covered 0 _ _ front start).2
  have size : bytes ((text.before stop).before start) = start := by
    obtain ⟨head, middle, back, rfl, rfl, rfl⟩ := boundary_parts text start stop first last ordered
    rw [before_append_add, before_append]
  rwa [size, Nat.zero_add] at piece

end Whole

end Pairs

end Text

namespace Edits

open Text Edit

-- The edit puts another character of the same size in the place of each one it takes.
def FitsIn (text : Text) (edit : Edit) : Prop :=
  DiffersAt (fun _ => true) edit.start (text.between edit.start edit.stop) edit.text

theorem spliced_differs (text : Text) (stop : Nat) (ending : text.IsBoundary stop) (edits : Edits) : ∀ cursor,
    text.IsBoundary cursor → cursor ≤ stop → InOrder text cursor edits → (∀ edit ∈ edits, edit.stop ≤ stop) →
      (∀ edit ∈ edits, FitsIn text edit) →
        DiffersAt (covers edits) cursor (text.between cursor stop) (spliced text stop cursor edits) := by
  induction edits with
  | nil => exact fun cursor _ _ _ _ _ => differs_self _ _ cursor fun _ _ _ => rfl
  | cons edit rest ih =>
      intro cursor boundary within ordered inside fits
      obtain ⟨early, valid, later⟩ := ordered
      have late := inside edit List.mem_cons_self
      have forward := valid.1
      have gap := bytes_between text cursor edit.start boundary valid.2.1 early
      have width := bytes_between text edit.start edit.stop valid.2.1 valid.2.2 forward
      have front : DiffersAt (covers (edit :: rest)) cursor (text.between cursor edit.start) (text.between cursor edit.start) := by
        refine differs_self _ _ cursor fun offset _ upper => Bool.eq_false_iff.mpr fun covered => ?_
        obtain ⟨other, member, lower, _⟩ := (covers_iff _ _).mp covered
        have ahead := (in_order_bounds text (edit :: rest) edit.start ⟨Nat.le_refl _, valid, later⟩ other member).1
        omega
      have own : DiffersAt (covers (edit :: rest)) edit.start (text.between edit.start edit.stop) edit.text := by
        refine differs_congr _ _ edit.start _ _ (fits edit List.mem_cons_self) fun offset lower upper => ?_
        exact ((covers_iff _ _).mpr ⟨edit, List.mem_cons_self, lower, width ▸ upper⟩).symm
      have back : DiffersAt (covers (edit :: rest)) edit.stop (text.between edit.stop stop) (spliced text stop edit.stop rest) := by
        have others := ih edit.stop valid.2.2 late later (fun other member => inside other (List.mem_cons_of_mem edit member))
          fun other member => fits other (List.mem_cons_of_mem edit member)
        refine differs_congr _ _ edit.stop _ _ others fun offset lower _ => ?_
        have past : ¬ offset < edit.stop := Nat.not_lt.mpr lower
        simp [covers, past]
      rw [spliced, ← between_append text cursor edit.start stop boundary valid.2.1 ending early (Nat.le_trans forward late),
        ← between_append text edit.start edit.stop stop valid.2.1 valid.2.2 ending forward late, List.append_assoc]
      refine differs_append _ cursor _ _ _ _ front ?_
      rw [gap]
      refine differs_append _ edit.start _ _ _ _ own ?_
      rwa [width]

-- A range that an edit takes is found again where it was, with the text of the edit.
theorem spliced_reads (text : Text) (edits : Edits) (ordered : InOrder text 0 edits) (fits : ∀ edit ∈ edits, FitsIn text edit)
    (edit : Edit) (member : edit ∈ edits) : (spliced text text.bytes 0 edits).slice? edit.start edit.stop = some edit.text := by
  have valid := (in_order_bounds text edits 0 ordered edit member).2
  obtain ⟨first, second, rfl⟩ := List.append_of_mem member
  have inFront := in_order_before text first edit second 0 ordered
  have front := spliced_differs text edit.start valid.2.1 first 0 (boundary_zero text) (Nat.zero_le _)
    (in_order_append text first _ 0 ordered) inFront fun other listed => fits other (List.mem_append_left _ listed)
  have start := differs_bytes _ _ _ _ front
  have width := differs_bytes _ _ _ _ (fits edit member)
  have ahead := bytes_between text 0 edit.start (boundary_zero text) valid.2.1 (Nat.zero_le _)
  have own := bytes_between text edit.start edit.stop valid.2.1 valid.2.2 valid.1
  rw [spliced_append, List.append_assoc]
  generalize spliced text edit.start 0 first = head at start ⊢
  have begins : edit.start = bytes head := by omega
  have ends : edit.stop = bytes head + bytes edit.text := by omega
  rw [begins, ends, slice_of_boundaries _ _ _ (boundary_append _ _) (boundary_middle _ _ _) (Nat.le_add_right _ _), between_parts]

end Edits

end ScriptTidy
