import ScriptTidy.Proofs.Edit.Shown
import ScriptTidy.Proofs.Import.Fenced

/-! Imports that lie in no import that goes: their edits do not meet, and take all that the others do. -/

set_option autoImplicit false

namespace ScriptTidy.SourceTree

open Text Place Edit Edits

def topmost (pruned : List PrunedDeclaration) : List PrunedDeclaration :=
  pruned.filter fun item => !item.declaration.statement.ancestors.any (isRemovedBy pruned)

theorem flat_map_filter {α β : Type} (items : List α) (keep : α → Bool) (made : α → List β)
    (nothing : ∀ item ∈ items, ¬ keep item = true → made item = []) : (items.filter keep).flatMap made = items.flatMap made := by
  induction items with
  | nil => rfl
  | cons item rest ih =>
      have later := ih fun other member => nothing other (List.mem_cons_of_mem item member)
      rw [List.filter_cons, List.flatMap_cons, ← later]
      split
      next => rfl
      next out => rw [nothing item List.mem_cons_self out, List.nil_append]

section Topmost

variable (tree : SourceTree) (options : Options) (pruned : List PrunedDeclaration)

theorem topmost_listed (item : PrunedDeclaration) (member : item ∈ topmost pruned) : item ∈ pruned := (List.mem_filter.mp member).1

theorem topmost_edits_listed (restored : Option Edit) (edit : Edit) (member : edit ∈ tree.pruneEdits (topmost pruned) restored) :
    edit ∈ tree.pruneEdits pruned restored := by
  rcases List.mem_append.mp member with front | back
  · rcases List.mem_append.mp front with strip | middle
    · exact List.mem_append_left _ (List.mem_append_left _ strip)
    · obtain ⟨item, listed, made⟩ := List.mem_flatMap.mp middle
      exact item_edit_listed tree pruned restored item (topmost_listed pruned item listed) edit made
  · exact List.mem_append_right _ back

variable (done : tree.pruneAll (tree.candidates options) = .ok pruned)

include done

theorem mem_topmost_iff (item : PrunedDeclaration) (member : item ∈ pruned) : item ∈ topmost pruned ↔
    ∀ outer ∈ pruned, outer.pruning.isRemoved = true → ¬ item.declaration.statement.Below outer.declaration.statement := by
  have root (above : Place) (below : item.declaration.statement.Below above) : above.root = tree.root :=
    (below_root _ above below).trans (pruned_statement tree options pruned done item member).1
  simp only [topmost, List.mem_filter, member, true_and, Bool.not_eq_true', List.any_eq_false]
  constructor
  · intro none outer present gone below
    exact none _ below ((removed_by_iff tree options pruned done _ (root _ below)).mpr ⟨outer, present, gone, rfl⟩)
  · intro none above below removed
    obtain ⟨outer, present, gone, rfl⟩ := (removed_by_iff tree options pruned done above (root above below)).mp removed
    exact none outer present gone below

-- Each other import lies in one of these that goes. The induction is on how deep it lies.
theorem topmost_around (item : PrunedDeclaration) (member : item ∈ pruned) : item ∈ topmost pruned ∨
    ∃ outer ∈ topmost pruned, outer.pruning.isRemoved = true ∧
      item.declaration.statement.Below outer.declaration.statement := by
  induction depth : item.declaration.statement.steps.length using Nat.strong_induction_on generalizing item with
  | _ depth ih =>
      by_cases top : item ∈ topmost pruned
      · exact .inl top
      · obtain ⟨outer, present, gone, below⟩ : ∃ outer ∈ pruned, outer.pruning.isRemoved = true ∧
            item.declaration.statement.Below outer.declaration.statement := by
          simpa [mem_topmost_iff tree options pruned done item member] using top
        rcases ih _ (depth ▸ below_steps _ _ below) outer present rfl with listed | ⟨higher, listed, away, above⟩
        · exact .inr ⟨outer, listed, gone, below⟩
        · exact .inr ⟨higher, listed, away, below_trans _ _ _ below above⟩

variable (grammar : tree.Grammatical) (restored : Option Edit)

include grammar

theorem topmost_edits_apart (header : tree.restoredHeader pruned = .ok restored) :
    (tree.pruneEdits (topmost pruned) restored).Pairwise Edits.Apart := by
  refine prune_edits_pairwise tree options pruned grammar done restored header Edits.Apart (fun _ _ apart => apart) (topmost pruned)
    (topmost_listed pruned) (List.pairwise_flatMap.mpr ⟨fun item _ => item_edits_single item Edits.Apart, ?_⟩)
  refine ((pruned_out tree options pruned done).filter _).imp_of_mem fun {first second} member later out one made other given => ?_
  have listed := topmost_listed pruned first member
  have present := topmost_listed pruned second later
  refine item_edits_apart tree options pruned grammar done first second listed present out (fun gone within => ?_) one other made given
  rcases within with same | below
  · exact out (.inl same.symm)
  · exact (mem_topmost_iff tree options pruned done second present).mp later first listed gone below

theorem topmost_edits_cover (edit : Edit) (member : edit ∈ tree.pruneEdits pruned restored) :
    ∃ outer ∈ tree.pruneEdits (topmost pruned) restored, outer.start ≤ edit.start ∧ edit.stop ≤ outer.stop := by
  rcases List.mem_append.mp member with front | back
  · rcases List.mem_append.mp front with strip | middle
    · exact ⟨edit, List.mem_append_left _ (List.mem_append_left _ strip), Nat.le_refl _, Nat.le_refl _⟩
    · obtain ⟨item, listed, made⟩ := List.mem_flatMap.mp middle
      rcases topmost_around tree options pruned done item listed with top | ⟨outer, top, gone, below⟩
      · exact ⟨edit, item_edit_listed tree _ restored item top edit made, Nat.le_refl _, Nat.le_refl _⟩
      · have present := topmost_listed pruned outer top
        have nested := in_nested tree _ grammar.toWellFormed (pruned_statement tree options pruned done outer present).1
        have own := in_nested tree _ grammar.toWellFormed (pruned_statement tree options pruned done item listed).1
        have inside := item_edit_inside tree options pruned grammar done item listed edit made
        have around := attached_inside tree _ _ own below
        refine ⟨removeStatement tree outer.declaration.statement, item_edit_listed tree _ restored outer top _ ?_,
          Nat.le_trans (attached_start_le tree _ nested) (Nat.le_trans around.1 inside.1),
          Nat.le_trans inside.2 (Nat.le_trans around.2 (le_attached_stop tree _ nested))⟩
        rw [(removed_item tree options pruned done outer present gone).2]
        exact List.mem_singleton.mpr rfl
  · exact ⟨edit, List.mem_append_right _ back, Nat.le_refl _, Nat.le_refl _⟩

omit grammar in
-- Nothing is put in for an import that lies in one that goes.
theorem topmost_splices (untangled : Untangled pruned) : (tree.pruneEdits (topmost pruned) restored).filter isSplice =
    (tree.pruneEdits pruned restored).filter isSplice := by
  have held (item : PrunedDeclaration) (member : item ∈ pruned) (below : item ∉ topmost pruned) :
      item.pruning.edits.filter isSplice = [] := by
    obtain ⟨outer, top, gone, inside⟩ := (topmost_around tree options pruned done item member).resolve_left below
    have present := topmost_listed pruned outer top
    refine List.filter_eq_nil_iff.mpr fun edit made splice => ?_
    rcases item_edit_cases tree options pruned done item member edit made with ⟨_, _, _, _, shape, _⟩ | ⟨_, _, rfl⟩
    · exact rewritten_out tree options pruned done untangled item outer member present _ shape gone (.inr inside)
    · cases splice
  simp only [pruneEdits, List.filter_append, List.filter_flatMap]
  rw [topmost, flat_map_filter]
  exact fun item member out => held item member fun listed => out (List.mem_filter.mp listed).2

end Topmost

end ScriptTidy.SourceTree
