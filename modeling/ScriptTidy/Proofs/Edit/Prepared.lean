import Mathlib.Data.List.Chain
import ScriptTidy.Proofs.Edit.Merged
import ScriptTidy.Proofs.Edit.Spliced
import ScriptTidy.Proofs.Tree.Order

/-! Edits as they are applied: which recorded edits can be applied together, and what they reach. -/

set_option autoImplicit false

namespace ScriptTidy.Edits

open Text Edit

def Clear (first second : Edit) : Prop :=
  (first.kind = .removal ∧ second.kind = .removal) ∨ first.stop ≤ second.start

def Linked (text : Text) (first second : Edit) : Prop := first.stop ≤ second.start ∧ joins text first second = false

theorem linked_of_clear (text : Text) (first second : Edit) (clear : Clear first second)
    (apart : ¬ joins text first second = true) : Linked text first second := by
  refine ⟨?_, by simpa using apart⟩
  rw [joins_iff] at apart
  rcases clear with removals | ordered
  · exact Nat.le_of_lt (Nat.lt_of_not_le fun touching => apart ⟨removals, .inl touching⟩)
  · exact ordered

theorem merge_from_head (text : Text) (rest : Edits) : ∀ last : Edit,
    ∃ stop tail, mergeFrom text last rest = { last with stop } :: tail := by
  induction rest with
  | nil => exact fun last => ⟨last.stop, [], rfl⟩
  | cons next rest ih =>
      intro last
      rw [mergeFrom]
      split
      · exact ih { last with stop := max last.stop next.stop }
      · exact ⟨last.stop, mergeFrom text next rest, rfl⟩

theorem merge_from_linked (text : Text) (rest : Edits) : ∀ last : Edit, (last :: rest).Pairwise Clear →
    (mergeFrom text last rest).IsChain (Linked text) := by
  induction rest with
  | nil => exact fun last _ => .singleton last
  | cons next rest ih =>
      intro last clear
      obtain ⟨bounds, tail⟩ := List.pairwise_cons.mp clear
      obtain ⟨later, others⟩ := List.pairwise_cons.mp tail
      rw [mergeFrom]
      split
      next joined =>
        obtain ⟨⟨lastKind, nextKind⟩, _⟩ := (joins_iff text last next).mp joined
        refine ih _ (List.pairwise_cons.mpr ⟨fun other member => ?_, others⟩)
        rcases bounds other (List.mem_cons_of_mem next member) with removals | first
        · exact .inl removals
        · rcases later other member with removals | second
          · exact .inl ⟨lastKind, removals.2⟩
          · exact .inr (Nat.max_le.mpr ⟨first, second⟩)
      next apart =>
        have chain := ih next tail
        obtain ⟨stop, more, shape⟩ := merge_from_head text rest next
        rw [shape] at chain ⊢
        have linked : Linked text last { next with stop } :=
          linked_of_clear text last next (bounds next List.mem_cons_self) apart
        exact .cons_cons linked chain

-- A range that no removal reaches when it grows, neither from in front nor from behind.
def Fenced (text : Text) (edits : Edits) (start stop : Nat) : Prop :=
  ∀ run, Run text edits run → run.InText text →
    (stop ≤ run.start → stop ≤ (run.widened text).start) ∧ (run.stop ≤ start → (run.widened text).stop ≤ start)

-- Recorded edits that can be applied together.
structure Sound (text : Text) (edits : Edits) : Prop where
  valid : ∀ edit ∈ edits, edit.InText text
  empty : ∀ edit ∈ edits, edit.kind = .removal → edit.text = []
  compatible : edits.Pairwise Compatible
  fenced : ∀ edit ∈ edits, edit.kind = .splice → Fenced text edits edit.start edit.stop

-- Something solid stays between two removals that are not merged.
theorem linked_removals (text : Text) (first second : Edit) (firstValid : first.InText text) (secondValid : second.InText text)
    (linked : Linked text first second) (removals : first.kind = .removal ∧ second.kind = .removal) :
    (first.widened text).stop < (second.widened text).start := by
  have shown : ¬ (text.between first.stop second.start).all isBlank = true := by
    intro blank
    have apart := linked.2
    rw [(joins_iff text first second).mpr ⟨removals, .inr blank⟩] at apart
    exact Bool.noConfusion apart
  obtain ⟨offset, boundary, solid, lower, upper⟩ :=
    solid_between text first.stop second.start firstValid.2.2 secondValid.2.1 linked.1 shown
  have before := widened_stop_le_solid text first firstValid offset boundary solid lower
  have after := solid_lt_widened_start text second secondValid offset boundary solid upper
  exact Nat.lt_of_le_of_lt before after

theorem linked_widened (text : Text) (edits : Edits) (sound : Sound text edits) (first second : Edit)
    (before : Settled text edits first) (after : Settled text edits second) (firstValid : first.InText text)
    (secondValid : second.InText text) (linked : Linked text first second) :
    (first.widened text).stop ≤ (second.widened text).start := by
  rcases before with ⟨firstKind, firstMember⟩ | firstRun
  · rw [widened_splice text first firstKind]
    rcases after with ⟨secondKind, _⟩ | secondRun
    · rw [widened_splice text second secondKind]
      exact linked.1
    · exact (sound.fenced first firstMember firstKind second secondRun secondValid).1 linked.1
  · rcases after with ⟨secondKind, secondMember⟩ | secondRun
    · rw [widened_splice text second secondKind]
      exact (sound.fenced second secondMember secondKind first firstRun firstValid).2 linked.1
    · exact Nat.le_of_lt (linked_removals text first second firstValid secondValid linked ⟨firstRun.removal, secondRun.removal⟩)

theorem chain_in_order (text : Text) (edits : Edits) (sound : Sound text edits) (chain : Edits) :
    ∀ cursor, chain.IsChain (Linked text) → (∀ edit ∈ chain, Settled text edits edit) → (∀ edit ∈ chain, edit.InText text) →
      (∀ edit ∈ chain.head?, cursor ≤ (edit.widened text).start) → InOrder text cursor (chain.map (·.widened text)) := by
  induction chain with
  | nil => exact fun _ _ _ _ _ => trivial
  | cons first rest ih =>
      intro cursor linked settled valid start
      have firstValid := valid first List.mem_cons_self
      have firstSettled := settled first List.mem_cons_self
      refine ⟨start first rfl, widened_in_text text first firstValid, ih _ linked.tail
        (fun edit member => settled edit (List.mem_cons_of_mem _ member))
        (fun edit member => valid edit (List.mem_cons_of_mem _ member)) fun second head => ?_⟩
      have member : second ∈ rest := List.mem_of_mem_head? head
      have present := List.mem_cons_of_mem first member
      exact linked_widened text edits sound first second firstSettled (settled second present) firstValid (valid second present)
        (linked.rel_head? head)

theorem merged_linked (text : Text) (edits : Edits) (sound : Sound text edits) :
    (merged text edits.sorted).IsChain (Linked text) := by
  have clear := sorted_clear text edits sound.valid sound.compatible
  cases shape : edits.sorted with
  | nil => exact .nil
  | cons first rest =>
      rw [shape] at clear
      exact merge_from_linked text rest first clear

theorem prepared_in_order (text : Text) (edits : Edits) (sound : Sound text edits) :
    InOrder text 0 (edits.prepared text) :=
  chain_in_order text edits sound _ 0 (merged_linked text edits sound) (merged_settled text edits sound.valid sound.empty)
    (merged_in_text text edits sound.valid sound.empty) fun _ _ => Nat.zero_le _

theorem apply_ok (text : Text) (edits : Edits) (sound : Sound text edits) :
    apply text edits = .ok (spliced text text.bytes 0 (edits.prepared text)) :=
  splice_from_ok text _ 0 (boundary_zero text) (prepared_in_order text edits sound)

theorem prepared_in_text (text : Text) (edits : Edits) (valid : ∀ edit ∈ edits, edit.InText text)
    (empty : ∀ edit ∈ edits, edit.kind = .removal → edit.text = []) : ∀ edit ∈ edits.prepared text, edit.InText text := by
  intro edit member
  obtain ⟨joined, present, rfl⟩ := List.mem_map.mp member
  exact widened_in_text text joined (merged_in_text text edits valid empty joined present)

theorem prepared_of_apply (text : Text) (edits : Edits) (valid : ∀ edit ∈ edits, edit.InText text)
    (empty : ∀ edit ∈ edits, edit.kind = .removal → edit.text = []) (out : Text) (done : apply text edits = .ok out) :
    InOrder text 0 (edits.prepared text) ∧ out = spliced text text.bytes 0 (edits.prepared text) :=
  in_order_of_splice text _ (fun edit member => (prepared_in_text text edits valid empty edit member).1) 0 out done

theorem prepared_splice (text : Text) (edits : Edits) (edit : Edit) (member : edit ∈ edits) (splice : edit.kind = .splice) :
    edit ∈ edits.prepared text :=
  List.mem_map.mpr ⟨edit, (merged_covers text edits edit member).1 splice, widened_splice text edit splice⟩

-- What was recorded is taken.
theorem prepared_takes (text : Text) (edits : Edits) (valid : ∀ edit ∈ edits, edit.InText text)
    (empty : ∀ edit ∈ edits, edit.kind = .removal → edit.text = []) (edit : Edit) (member : edit ∈ edits) :
    ∃ prepared ∈ edits.prepared text, prepared.kind = edit.kind ∧ prepared.start ≤ edit.start ∧ edit.stop ≤ prepared.stop := by
  cases kind : edit.kind with
  | splice => exact ⟨edit, prepared_splice text edits edit member kind, kind, Nat.le_refl _, Nat.le_refl _⟩
  | removal =>
      obtain ⟨joined, present, joinedKind, lower, upper⟩ := (merged_covers text edits edit member).2 kind
      have inText := merged_in_text text edits valid empty joined present
      have left := (widened_left text joined joinedKind inText).2.1
      have right := (widened_right text joined joinedKind inText).2.1
      exact ⟨_, List.mem_map_of_mem present, (widened_kind text joined).trans joinedKind, Nat.le_trans left lower,
        Nat.le_trans upper right⟩

-- A splice in a removal stands in the way.
theorem held_splice_fails (text : Text) (edits : Edits) (valid : ∀ edit ∈ edits, edit.InText text)
    (empty : ∀ edit ∈ edits, edit.kind = .removal → edit.text = []) (splice removal : Edit) (listed : splice ∈ edits)
    (present : removal ∈ edits) (kind : splice.kind = .splice) (other : removal.kind = .removal)
    (inside : removal.start ≤ splice.start ∧ splice.stop ≤ removal.stop) (wide : splice.start < splice.stop) (out : Text) :
    apply text edits ≠ .ok out := by
  intro done
  have ordered := in_order_pairwise text _ 0 (prepared_of_apply text edits valid empty out done).1
  obtain ⟨grown, member, same, lower, upper⟩ := prepared_takes text edits valid empty removal present
  have different : splice ≠ grown := by
    rintro rfl
    exact EditKind.noConfusion (kind.symm.trans (same.trans other))
  rcases pairwise_either _ _ ordered splice grown (prepared_splice text edits splice listed kind) member different with
    before | after <;> omega

-- Nothing solid is taken but what was recorded.
theorem prepared_covers_solid (text : Text) (edits : Edits) (valid : ∀ edit ∈ edits, edit.InText text)
    (empty : ∀ edit ∈ edits, edit.kind = .removal → edit.text = []) (edit : Edit) (member : edit ∈ edits.prepared text)
    (offset : Nat) (boundary : text.IsBoundary offset) (solid : text.StartsSolid offset) (lower : edit.start ≤ offset)
    (upper : offset < edit.stop) : ∃ recorded ∈ edits, recorded.start ≤ offset ∧ offset < recorded.stop := by
  obtain ⟨joined, present, rfl⟩ := List.mem_map.mp member
  have inText := merged_in_text text edits valid empty joined present
  have covered := widened_covers_solid text joined inText offset boundary solid lower upper
  rcases merged_settled text edits valid empty joined present with ⟨_, recorded⟩ | run
  · exact ⟨joined, recorded, covered⟩
  · obtain ⟨recorded, recordedMember, _, inside⟩ := run.solid offset boundary solid covered.1 covered.2
    exact ⟨recorded, recordedMember, inside⟩

theorem prepared_text (text : Text) (edits : Edits) (valid : ∀ edit ∈ edits, edit.InText text)
    (empty : ∀ edit ∈ edits, edit.kind = .removal → edit.text = []) (edit : Edit) (member : edit ∈ edits.prepared text) :
    edit.text = [] ∨ edit ∈ edits := by
  obtain ⟨joined, present, rfl⟩ := List.mem_map.mp member
  rcases merged_settled text edits valid empty joined present with ⟨splice, recorded⟩ | run
  · exact .inr ((widened_splice text joined splice).symm ▸ recorded)
  · exact .inl ((widened_text text joined).trans run.empty)

theorem prepared_recorded (text : Text) (edits : Edits) (valid : ∀ edit ∈ edits, edit.InText text)
    (empty : ∀ edit ∈ edits, edit.kind = .removal → edit.text = []) (edit : Edit) (member : edit ∈ edits.prepared text)
    (kind : edit.kind = .splice) : edit ∈ edits := by
  obtain ⟨joined, present, rfl⟩ := List.mem_map.mp member
  rw [widened_kind] at kind
  rcases merged_settled text edits valid empty joined present with ⟨_, recorded⟩ | run
  · exact (widened_splice text joined kind).symm ▸ recorded
  · exact EditKind.noConfusion (kind.symm.trans run.removal)

theorem fenced_of_solid (text : Text) (edits : Edits)
    (solidStarts : ∀ edit ∈ edits, edit.kind = .removal → text.StartsSolid edit.start) (start stop : Nat)
    (first : text.IsBoundary start) (last : text.IsBoundary stop) (starts : text.StartsSolid start)
    (ends : text.EndsSolid stop) : Fenced text edits start stop := by
  intro run given inText
  obtain ⟨recorded, member, kind, same⟩ := given.first
  exact ⟨fun ordered => solid_le_widened_start text run given.removal inText stop last ordered ends
      (same ▸ solidStarts recorded member kind),
    fun ordered => widened_stop_le_solid text run inText start first starts ordered⟩

-- Merging takes nothing solid that no recorded removal takes.
theorem run_clear (text : Text) (edits : Edits) (valid : ∀ edit ∈ edits, edit.InText text) (run : Edit)
    (given : Run text edits run) (start stop : Nat) (first : text.IsBoundary start) (forward : start < stop)
    (starts : text.StartsSolid start) (clear : ∀ edit ∈ edits, edit.kind = .removal → edit.ClearOf start stop) :
    run.ClearOf start stop := by
  by_cases before : run.start ≤ start
  · refine .inr (Nat.le_of_not_lt fun inside => ?_)
    obtain ⟨recorded, member, kind, lower, upper⟩ := given.solid start first starts before inside
    rcases clear recorded member kind with after | earlier <;> omega
  · obtain ⟨recorded, member, kind, same⟩ := given.first
    have forwardEdit := (valid recorded member).1
    rcases clear recorded member kind with after | earlier
    · exact .inl (same ▸ after)
    · omega

-- A fence that no merged removal lies across is one that no removal lies across when it has grown.
theorem prepared_removal_clear (text : Text) (edits : Edits) (valid : ∀ edit ∈ edits, edit.InText text)
    (empty : ∀ edit ∈ edits, edit.kind = .removal → edit.text = []) (start stop : Nat) (fenced : Fenced text edits start stop)
    (clear : ∀ run, Run text edits run → run.ClearOf start stop) (removal : Edit) (member : removal ∈ edits.prepared text)
    (kind : removal.kind = .removal) : removal.ClearOf start stop := by
  obtain ⟨joined, present, rfl⟩ := List.mem_map.mp member
  rw [widened_kind] at kind
  rcases merged_settled text edits valid empty joined present with ⟨splice, _⟩ | run
  · exact EditKind.noConfusion (splice.symm.trans kind)
  · have fence := fenced joined run (merged_in_text text edits valid empty joined present)
    exact (clear joined run).imp fence.1 fence.2

-- A solid range that no recorded edit touches stays clear of the edits as they are applied.
theorem prepared_clear (text : Text) (edits : Edits) (valid : ∀ edit ∈ edits, edit.InText text)
    (empty : ∀ edit ∈ edits, edit.kind = .removal → edit.text = []) (start stop : Nat) (first : text.IsBoundary start)
    (forward : start < stop) (starts : text.StartsSolid start) (fenced : Fenced text edits start stop)
    (clear : ∀ edit ∈ edits, edit.ClearOf start stop) : ∀ edit ∈ edits.prepared text, edit.ClearOf start stop := by
  intro edit member
  cases kind : edit.kind with
  | splice => exact clear edit (prepared_recorded text edits valid empty edit member kind)
  | removal =>
      exact prepared_removal_clear text edits valid empty start stop fenced (fun run given => run_clear text edits valid run given
        start stop first forward starts fun other recorded _ => clear other recorded) edit member kind

end ScriptTidy.Edits
