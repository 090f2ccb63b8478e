import ScriptTidy.Edit.Apply
import ScriptTidy.Proofs.Edit.Widened

/-! Edits in the order in which they are applied, and removals that are merged. -/

set_option autoImplicit false

namespace ScriptTidy.Edits

open Text Edit

theorem at_or_before_iff (first second : Edit) : first.atOrBefore second = true ↔
    first.start < second.start ∨ (first.start = second.start ∧ first.stop ≤ second.stop) := by
  simp [atOrBefore]

theorem place_perm (edit : Edit) (edits : Edits) : (place edit edits).Perm (edit :: edits) := by
  induction edits with
  | nil => exact .refl _
  | cons first rest ih =>
      rw [place]
      split
      · exact .refl _
      · exact (ih.cons first).trans (.swap edit first rest)

theorem sorted_perm (edits : Edits) : edits.sorted.Perm edits := by
  induction edits with
  | nil => exact .refl _
  | cons edit rest ih => exact (place_perm edit (sorted rest)).trans (ih.cons edit)

theorem place_ordered (edit : Edit) (edits : Edits) (ordered : edits.Pairwise fun a b => a.atOrBefore b = true) :
    (place edit edits).Pairwise fun a b => a.atOrBefore b = true := by
  induction edits with
  | nil => exact List.pairwise_singleton _ _
  | cons first rest ih =>
      obtain ⟨bounds, tail⟩ := List.pairwise_cons.mp ordered
      rw [place]
      split
      next near =>
        refine List.pairwise_cons.mpr ⟨fun other member => ?_, ordered⟩
        rcases List.mem_cons.mp member with same | later
        · exact same ▸ near
        · have far := bounds other later
          rw [at_or_before_iff] at near far ⊢
          omega
      next far =>
        refine List.pairwise_cons.mpr ⟨fun other member => ?_, ih tail⟩
        rcases List.mem_cons.mp ((place_perm edit rest).mem_iff.mp member) with same | later
        · rw [same, at_or_before_iff]
          rw [at_or_before_iff] at far
          omega
        · exact bounds other later

theorem sorted_ordered (edits : Edits) : edits.sorted.Pairwise fun a b => a.atOrBefore b = true := by
  induction edits with
  | nil => exact .nil
  | cons edit rest ih => exact place_ordered edit (sorted rest) ih

-- Two edits that can be applied together: removals may overlap, since they are merged.
def Compatible (first second : Edit) : Prop :=
  (first.kind = .removal ∧ second.kind = .removal) ∨ first.stop ≤ second.start ∨ second.stop ≤ first.start

theorem sorted_clear (text : Text) (edits : Edits) (valid : ∀ edit ∈ edits, edit.InText text)
    (compatible : edits.Pairwise Compatible) :
    edits.sorted.Pairwise fun first second =>
      (first.kind = .removal ∧ second.kind = .removal) ∨ first.stop ≤ second.start := by
  have symmetric : ∀ first second, Compatible first second → Compatible second first :=
    fun first second given => given.imp And.symm Or.symm
  have paired := (sorted_perm edits).symm.pairwise compatible @symmetric
  refine (paired.and (sorted_ordered edits)).imp_of_mem fun {first second} member later both => ?_
  have firstValid := valid first ((sorted_perm edits).mem_iff.mp member)
  have secondValid := valid second ((sorted_perm edits).mem_iff.mp later)
  have order := (at_or_before_iff first second).mp both.2
  have forward := firstValid.1
  have backward := secondValid.1
  rcases both.1 with removals | apart | apart
  · exact .inl removals
  · exact .inr apart
  · exact .inr (by omega)

-- A merged removal begins and ends with recorded ones, and holds nothing solid that is in none of them.
structure Run (text : Text) (edits : Edits) (edit : Edit) : Prop where
  removal : edit.kind = .removal
  empty : edit.text = []
  first : ∃ recorded ∈ edits, recorded.kind = .removal ∧ recorded.start = edit.start
  last : ∃ recorded ∈ edits, recorded.kind = .removal ∧ recorded.stop = edit.stop
  solid : ∀ offset, text.IsBoundary offset → text.StartsSolid offset → edit.start ≤ offset → offset < edit.stop →
    ∃ recorded ∈ edits, recorded.kind = .removal ∧ recorded.start ≤ offset ∧ offset < recorded.stop

-- What becomes of recorded edits before they grow.
def Settled (text : Text) (edits : Edits) (edit : Edit) : Prop :=
  (edit.kind = .splice ∧ edit ∈ edits) ∨ Run text edits edit

theorem settled_of_mem (text : Text) (edits : Edits) (empty : ∀ edit ∈ edits, edit.kind = .removal → edit.text = [])
    (edit : Edit) (member : edit ∈ edits) : Settled text edits edit := by
  cases kind : edit.kind with
  | splice => exact .inl ⟨kind, member⟩
  | removal => exact .inr ⟨kind, empty edit member kind, ⟨edit, member, kind, rfl⟩, ⟨edit, member, kind, rfl⟩,
      fun _ _ _ lower upper => ⟨edit, member, kind, lower, upper⟩⟩

theorem joins_iff (text : Text) (first second : Edit) : joins text first second = true ↔
    (first.kind = .removal ∧ second.kind = .removal) ∧
      (second.start ≤ first.stop ∨ (text.between first.stop second.start).all isBlank = true) := by
  simp [joins]

theorem run_joined (text : Text) (edits : Edits) (valid : ∀ edit ∈ edits, edit.InText text) (first second : Edit)
    (before : Run text edits first) (after : Run text edits second) (joined : joins text first second = true) :
    Run text edits { first with stop := max first.stop second.stop } := by
  obtain ⟨_, near⟩ := (joins_iff text first second).mp joined
  refine ⟨before.removal, before.empty, before.first, ?_, ?_⟩
  · rcases Nat.le_total first.stop second.stop with short | long
    · obtain ⟨recorded, member, kind, stop⟩ := after.last
      exact ⟨recorded, member, kind, by rw [stop]; exact (Nat.max_eq_right short).symm⟩
    · obtain ⟨recorded, member, kind, stop⟩ := before.last
      exact ⟨recorded, member, kind, by rw [stop]; exact (Nat.max_eq_left long).symm⟩
  · intro offset boundary solid lower upper
    by_cases early : offset < first.stop
    · exact before.solid offset boundary solid lower early
    · by_cases late : second.start ≤ offset
      · have upper' : offset < max first.stop second.stop := upper
        exact after.solid offset boundary solid late (by omega)
      · rcases near with touching | blank
        · omega
        · obtain ⟨one, oneMember, _, oneStop⟩ := before.last
          obtain ⟨other, otherMember, _, otherStart⟩ := after.first
          have visible := not_blank_of_solid text first.stop offset second.start (oneStop ▸ (valid one oneMember).2.2) boundary
            (otherStart ▸ (valid other otherMember).2.1) (by omega) (by omega) solid
          exact Bool.noConfusion (visible.symm.trans blank)

theorem merge_from_settled (text : Text) (edits : Edits) (valid : ∀ edit ∈ edits, edit.InText text) (rest : Edits) :
    ∀ last, Settled text edits last → (∀ edit ∈ rest, Settled text edits edit) →
      ∀ edit ∈ mergeFrom text last rest, Settled text edits edit := by
  induction rest with
  | nil =>
      intro last settled _ edit member
      rw [mergeFrom, List.mem_singleton] at member
      exact member ▸ settled
  | cons next rest ih =>
      intro last settled others
      have nextSettled := others next List.mem_cons_self
      have later := fun edit member => others edit (List.mem_cons_of_mem next member)
      rw [mergeFrom]
      split
      next joined =>
        obtain ⟨⟨lastKind, nextKind⟩, _⟩ := (joins_iff text last next).mp joined
        have lastRun := settled.resolve_left fun given => by simp [lastKind] at given
        have nextRun := nextSettled.resolve_left fun given => by simp [nextKind] at given
        exact ih _ (.inr (run_joined text edits valid last next lastRun nextRun joined)) later
      next =>
        intro edit member
        rcases List.mem_cons.mp member with same | present
        · exact same ▸ settled
        · exact ih next nextSettled later edit present

theorem merged_settled (text : Text) (edits : Edits) (valid : ∀ edit ∈ edits, edit.InText text)
    (empty : ∀ edit ∈ edits, edit.kind = .removal → edit.text = []) :
    ∀ edit ∈ merged text edits.sorted, Settled text edits edit := by
  have all : ∀ edit ∈ edits.sorted, Settled text edits edit := fun edit member =>
    settled_of_mem text edits empty edit ((sorted_perm edits).mem_iff.mp member)
  cases shape : edits.sorted with
  | nil => simp [merged]
  | cons first rest =>
      rw [shape] at all
      exact merge_from_settled text edits valid rest first (all first List.mem_cons_self)
        fun edit member => all edit (List.mem_cons_of_mem first member)

theorem settled_in_text (text : Text) (edits : Edits) (valid : ∀ edit ∈ edits, edit.InText text) (edit : Edit)
    (settled : Settled text edits edit) (ordered : edit.start ≤ edit.stop) : edit.InText text := by
  rcases settled with ⟨_, member⟩ | run
  · exact valid edit member
  · obtain ⟨first, firstMember, _, start⟩ := run.first
    obtain ⟨last, lastMember, _, stop⟩ := run.last
    exact ⟨ordered, start ▸ (valid first firstMember).2.1, stop ▸ (valid last lastMember).2.2⟩

theorem merge_from_forward (text : Text) (rest : Edits) :
    ∀ last : Edit, last.start ≤ last.stop → (∀ edit ∈ rest, edit.start ≤ edit.stop) →
      ∀ edit ∈ mergeFrom text last rest, edit.start ≤ edit.stop := by
  induction rest with
  | nil =>
      intro last ordered _ edit member
      rw [mergeFrom, List.mem_singleton] at member
      exact member ▸ ordered
  | cons next rest ih =>
      intro last ordered others
      have later := fun edit member => others edit (List.mem_cons_of_mem next member)
      rw [mergeFrom]
      split
      · exact ih _ (Nat.le_trans ordered (Nat.le_max_left _ _)) later
      · intro edit member
        rcases List.mem_cons.mp member with same | present
        · exact same ▸ ordered
        · exact ih next (others next List.mem_cons_self) later edit present

theorem merged_in_text (text : Text) (edits : Edits) (valid : ∀ edit ∈ edits, edit.InText text)
    (empty : ∀ edit ∈ edits, edit.kind = .removal → edit.text = []) :
    ∀ edit ∈ merged text edits.sorted, edit.InText text := by
  intro edit member
  apply settled_in_text text edits valid edit (merged_settled text edits valid empty edit member)
  have forward : ∀ edit ∈ edits.sorted, edit.start ≤ edit.stop := fun edit member =>
    (valid edit ((sorted_perm edits).mem_iff.mp member)).1
  cases shape : edits.sorted with
  | nil => simp [shape, merged] at member
  | cons first rest =>
      rw [shape] at member forward
      exact merge_from_forward text rest first (forward first List.mem_cons_self)
        (fun edit member => forward edit (List.mem_cons_of_mem first member)) edit member

-- Merging keeps each splice, and each removal within a merged one.
theorem merge_from_covers (text : Text) (rest : Edits) :
    ∀ last : Edit, (last :: rest).Pairwise (fun a b => a.start ≤ b.start) → ∀ edit ∈ last :: rest,
      (edit.kind = .splice → edit ∈ mergeFrom text last rest) ∧
        (edit.kind = .removal → ∃ merged ∈ mergeFrom text last rest,
          merged.kind = .removal ∧ merged.start ≤ edit.start ∧ edit.stop ≤ merged.stop) := by
  induction rest with
  | nil =>
      intro last _ edit member
      rw [mergeFrom]
      have same := List.mem_singleton.mp member
      subst same
      exact ⟨fun _ => List.mem_cons_self, fun kind => ⟨edit, List.mem_cons_self, kind, Nat.le_refl _, Nat.le_refl _⟩⟩
  | cons next rest ih =>
      intro last ordered edit member
      obtain ⟨bounds, tail⟩ := List.pairwise_cons.mp ordered
      rw [mergeFrom]
      split
      next joined =>
        obtain ⟨⟨lastKind, nextKind⟩, _⟩ := (joins_iff text last next).mp joined
        have again : ({ last with stop := max last.stop next.stop } :: rest).Pairwise (fun a b : Edit => a.start ≤ b.start) :=
          List.pairwise_cons.mpr ⟨fun other later => bounds other (List.mem_cons_of_mem next later),
            (List.pairwise_cons.mp tail).2⟩
        obtain ⟨joinedEdit, present, kind, lower, upper⟩ := (ih _ again _ List.mem_cons_self).2 lastKind
        have upper' : max last.stop next.stop ≤ joinedEdit.stop := upper
        have lower' : joinedEdit.start ≤ last.start := lower
        rcases List.mem_cons.mp member with same | later
        · subst same
          exact ⟨fun splice => by simp [lastKind] at splice, fun _ => ⟨joinedEdit, present, kind, lower', by omega⟩⟩
        · rcases List.mem_cons.mp later with same | deep
          · subst same
            have step := bounds edit List.mem_cons_self
            exact ⟨fun splice => by simp [nextKind] at splice, fun _ => ⟨joinedEdit, present, kind, by omega, by omega⟩⟩
          · exact ih _ again edit (List.mem_cons_of_mem _ deep)
      next =>
        rcases List.mem_cons.mp member with same | later
        · subst same
          exact ⟨fun _ => List.mem_cons_self, fun kind => ⟨edit, List.mem_cons_self, kind, Nat.le_refl _, Nat.le_refl _⟩⟩
        · have deep := ih next tail edit later
          refine ⟨fun splice => List.mem_cons_of_mem _ (deep.1 splice), fun kind => ?_⟩
          obtain ⟨merged, present, rest⟩ := deep.2 kind
          exact ⟨merged, List.mem_cons_of_mem _ present, rest⟩

theorem merged_covers (text : Text) (edits : Edits) (edit : Edit) (member : edit ∈ edits) :
    (edit.kind = .splice → edit ∈ merged text edits.sorted) ∧
      (edit.kind = .removal → ∃ joined ∈ merged text edits.sorted,
        joined.kind = .removal ∧ joined.start ≤ edit.start ∧ edit.stop ≤ joined.stop) := by
  have present := (sorted_perm edits).mem_iff.mpr member
  have ordered := (sorted_ordered edits).imp fun {first second} near => by
    rw [at_or_before_iff] at near
    exact (by omega : first.start ≤ second.start)
  cases shape : edits.sorted with
  | nil => simp [shape] at present
  | cons first rest =>
      rw [shape] at present ordered
      exact merge_from_covers text rest first ordered edit present

end ScriptTidy.Edits
