import ScriptTidy.Proofs.Import.Fenced
import ScriptTidy.Proofs.Tree.Spaced

/-! Where the header goes: what stands in front of that place is taken, save comments that go with no statement. -/

set_option autoImplicit false

namespace ScriptTidy.SourceTree

open Text Place Edit Edits

-- The comments at the top that go with no removed statement, and the statements without removable names.
def survivors (tree : SourceTree) (options : Options) (removed : Place → Bool) : List Place :=
  tree.rootPlace.children.filter fun place => place.kind != "hash_bang_line" &&
    if place.node.isComment then
      tree.statements.all fun statement => !removed statement || decide (place.stop ≤ tree.attachedStart statement) ||
        decide (tree.attachedStop statement ≤ place.start)
    else !tree.holdsRemovable options place

section Survivors

variable (tree : SourceTree) (options : Options) (grammar : tree.Grammatical) (spaced : tree.Spaced)

theorem mem_survivors_iff (removed : Place → Bool) (place : Place) : place ∈ tree.survivors options removed ↔
    place.parent? = some tree.rootPlace ∧ place.kind ≠ "hash_bang_line" ∧
      (place.node.isComment = true → ∀ statement ∈ tree.statements, removed statement = true →
        place.stop ≤ tree.attachedStart statement ∨ tree.attachedStop statement ≤ place.start) ∧
      (place.node.isComment = false → tree.holdsRemovable options place = false) := by
  rw [survivors, List.mem_filter, mem_children_iff, Bool.and_eq_true, bne_iff_ne]
  refine and_congr_right fun _ => and_congr_right fun _ => ?_
  cases isComment : place.node.isComment with
  | false => simp
  | true =>
      rw [if_pos rfl, List.all_eq_true]
      simp only [Bool.or_eq_true, Bool.not_eq_true', decide_eq_true_eq, Bool.true_eq_false, false_imp_iff, and_true, true_imp_iff,
        or_assoc]
      refine forall_congr' fun statement => forall_congr' fun _ => ?_
      cases removed statement <;> simp

theorem survivor_statement (spaced : tree.Spaced) (removed : Place → Bool) (place : Place)
    (member : place ∈ tree.survivors options removed) (solid : place.node.isComment = false) : place ∈ tree.statements := by
  obtain ⟨top, hash, _⟩ := (mem_survivors_iff tree options removed place).mp member
  rcases top_cases tree place spaced top with isComment | ⟨kind, _⟩ | statement
  · exact Bool.noConfusion (solid.symm.trans isComment)
  · exact absurd kind hash
  · exact statement

-- All that is in a tree, its root apart, lies in one of the nodes at the top.
theorem top_ancestor (place : Place) (same : place.root = tree.root) (out : place ≠ tree.rootPlace) :
    ∃ top : Place, top.parent? = some tree.rootPlace ∧ place.Within top := by
  rcases Node.places_within [] tree.root place ((mem_places_iff tree place).mpr same) with equal | below
  · exact absurd equal out
  · obtain ⟨child, listed, within⟩ := below_child place tree.rootPlace below
    exact ⟨child, (mem_children_iff _ child).mp listed, within⟩

include grammar

theorem anchor_le_attached (removed : Place → Bool) (statement : Place) (member : statement ∈ tree.statements)
    (stays : removed statement = false) : Header.anchor tree removed ≤ tree.attachedStart statement := by
  rcases anchor_cases tree removed with ⟨_, gone⟩ | ⟨first, present, _, same, after⟩
  · rw [gone statement member] at stays
    exact Bool.noConfusion stays
  · have nested := in_nested tree first grammar.toWellFormed (statement_root tree first present)
    have line := line_start_if_indented_spec tree.text _ (attached_boundaries tree first nested).1
    rw [same]
    rcases after statement member stays with rfl | earlier
    · exact line.2.1
    · have apart := siblings_attached tree first statement nested earlier
        ((mem_statements_iff tree first).mp present).2.2.1 ((mem_statements_iff tree statement).mp member).2.2.1
      exact Nat.le_trans line.2.1 (Nat.le_trans (attached_forward tree first nested) apart)

include spaced

-- A comment that stays stands behind the place for the header, unless no statement stays.
theorem comment_behind_anchor (removed : Place → Bool) (comment : Place) (top : comment.parent? = some tree.rootPlace)
    (isComment : comment.node.isComment = true)
    (apart : ∀ statement ∈ tree.statements, removed statement = true →
      comment.stop ≤ tree.attachedStart statement ∨ tree.attachedStop statement ≤ comment.start) :
    Header.anchor tree removed ≤ comment.start ∨ ∀ statement ∈ tree.statements, removed statement = true := by
  have wide := (spaced.edges comment (List.mem_append_left _ ((mem_children_iff _ comment).mpr top))).1
  rcases comment_cases tree grammar spaced comment top isComment with ⟨statement, member, first, last⟩ | behind
  · cases gone : removed statement with
    | true => have clear := apart statement member gone; omega
    | false => exact .inl (Nat.le_trans (anchor_le_attached tree grammar removed statement member gone) first)
  · rcases anchor_cases tree removed with ⟨_, gone⟩ | ⟨first, present, stays, _, _⟩
    · exact .inr gone
    · have nested := in_nested tree first grammar.toWellFormed (statement_root tree first present)
      exact .inl (Nat.le_trans (anchor_le_attached tree grammar removed first present stays)
        (Nat.le_trans (attached_forward tree first nested) (behind first present)))

theorem survivor_edges (removed : Place → Bool) (place : Place) (member : place ∈ tree.survivors options removed) :
    place.node.Nested tree.text ∧ place.start < place.stop ∧ tree.text.StartsShown place.start ∧ tree.text.EndsSolid place.stop := by
  obtain ⟨top, _⟩ := (mem_survivors_iff tree options removed place).mp member
  have same := top_root tree place top
  have edges := spaced.edges place (List.mem_append_left _ ((mem_children_iff _ place).mpr top))
  refine ⟨node_nested tree.text place (in_nested tree place grammar.toWellFormed same), edges.1, edges.2, ?_⟩
  cases isComment : place.node.isComment with
  | true => exact spaced.comments place ((mem_find_iff tree place _).mpr ⟨same, (comment_kind place.node).mp isComment⟩)
  | false =>
      have statement := survivor_statement tree options spaced removed place member isComment
      exact (statement_solid tree place grammar.toWellFormed statement).2.1

omit spaced in
theorem survivors_ordered (removed : Place → Bool) :
    (tree.survivors options removed).Pairwise fun first second => first.stop ≤ second.start := by
  refine ((children_earlier tree.rootPlace).sublist List.filter_sublist).imp_of_mem fun {first second} member _ earlier => ?_
  have top := ((mem_survivors_iff tree options removed first).mp member).1
  exact earlier_apart tree.text first second (in_nested tree first grammar.toWellFormed (top_root tree first top)) earlier

end Survivors

section Header

variable (tree : SourceTree) (options : Options) (pruned : List PrunedDeclaration) (restored : Option Edit)
  (grammar : tree.Grammatical) (spaced : tree.Spaced) (done : tree.pruneAll (tree.candidates options) = .ok pruned)

include grammar done

omit grammar in
theorem removed_edit (statement : Place) (member : statement ∈ tree.statements) (gone : isRemovedBy pruned statement = true) :
    .removeStatement tree statement ∈ tree.pruneEdits pruned restored ∧
      PruneEdit tree options pruned (.removeStatement tree statement) := by
  obtain ⟨item, present, isRemoved, rfl⟩ :=
    (removed_by_iff tree options pruned done statement (statement_root tree statement member)).mp gone
  obtain ⟨some, shape⟩ := removed_item tree options pruned done item present isRemoved
  have made : Edit.removeStatement tree item.declaration.statement ∈ item.pruning.edits := by
    rw [shape]
    exact List.mem_singleton.mpr rfl
  exact ⟨List.mem_append_left _ (List.mem_append_right _ (List.mem_flatMap.mpr ⟨item, present, made⟩)), .removed item present some shape⟩

include spaced

theorem kept_comment_clear (comment : Place) (top : comment.parent? = some tree.rootPlace)
    (isComment : comment.node.isComment = true)
    (apart : ∀ statement ∈ tree.statements, isRemovedBy pruned statement = true →
      comment.stop ≤ tree.attachedStart statement ∨ tree.attachedStop statement ≤ comment.start) (edit : Edit)
    (recorded : PruneEdit tree options pruned edit) : edit.ClearOf comment.start comment.stop := by
  have valid := grammar.toWellFormed
  have same := top_root tree comment top
  have nested := in_nested tree comment valid same
  have own := node_nested tree.text comment nested
  have clear (item : PrunedDeclaration) (present : item ∈ pruned) : ∃ statement top : Place, statement.root = tree.root ∧
      statement.kind = "import_statement" ∧ item.declaration = tree.importDeclaration statement ∧
      top.parent? = some tree.rootPlace ∧ statement.Within top ∧ (comment.stop ≤ top.start ∨ top.stop ≤ comment.start) := by
    obtain ⟨statement, root, kind, equal, _⟩ := pruned_item tree options pruned done item present
    obtain ⟨holder, holderTop, within⟩ := top_ancestor tree statement root (import_not_root tree grammar statement kind)
    have solid := within_solid statement holder (leaf_comments tree statement grammar root) within (import_solid statement kind)
    have holderNested := in_nested tree holder valid (top_root tree holder holderTop)
    refine ⟨statement, holder, root, kind, equal, holderTop, within, ?_⟩
    rcases children_cases tree.rootPlace comment holder top holderTop fun equal => by
      rw [equal, solid] at isComment
      exact Bool.noConfusion isComment with earlier | later
    · exact .inl (earlier_apart tree.text comment holder nested earlier)
    · exact .inr (earlier_apart tree.text holder comment holderNested later)
  cases recorded with
  | strip line found =>
      obtain ⟨first, firstTop, kind, front, _, stop⟩ := interpreter_first tree line found
      have other : comment.node ≠ first.node := fun equal => by
        have commentKind := (comment_kind comment.node).mp isComment
        rw [equal, show first.node.kind = "hash_bang_line" from kind] at commentKind
        exact absurd commentKind (by decide)
      have earlier := first_earlier tree first comment firstTop front top other
      have stops := earlier_apart tree.text first comment (in_nested tree first valid (top_root tree first firstTop)) earlier
      have solid := comment_solid tree valid comment.node comment rfl same isComment
      exact .inr (strip_le tree valid line found comment.start own.first solid (stop ▸ stops))
  | rewritten item present clause text found some shape =>
      obtain ⟨statement, holder, root, _, equal, holderTop, within, apart⟩ := clear item present
      have child := child_below statement clause (declaration_clause tree statement clause (equal ▸ found)).1
      have clauseRoot := (below_root clause statement child).symm.trans root
      have inside := within_inside tree.text clause holder (in_nested tree clause valid clauseRoot)
        (within_trans clause statement holder (.inr child) within)
      show comment.stop ≤ clause.start ∨ clause.stop ≤ comment.start
      omega
  | removed item present some shape =>
      obtain ⟨statement, holder, root, kind, equal, holderTop, within, away⟩ := clear item present
      show comment.stop ≤ tree.attachedStart item.declaration.statement ∨ tree.attachedStop item.declaration.statement ≤ comment.start
      rw [equal]
      change comment.stop ≤ tree.attachedStart statement ∨ tree.attachedStop statement ≤ comment.start
      rcases within with rfl | below
      · rcases top_cases tree statement spaced holderTop with solid | ⟨hash, _⟩ | member
        · rw [import_solid statement kind] at solid
          exact Bool.noConfusion solid
        · exact absurd (kind.symm.trans hash) (by decide)
        · exact apart statement member ((removed_by_iff tree options pruned done statement root).mpr
            ⟨item, present, by rw [shape]; rfl, by rw [equal]; rfl⟩)
      · have inside := attached_inside tree statement holder (in_nested tree statement valid root) below
        omega
  | header header text captured gone copied =>
      show comment.stop ≤ Header.anchor tree _ ∨ Header.anchor tree _ ≤ comment.start
      rcases comment_behind_anchor tree grammar spaced (isRemovedBy pruned) comment top isComment apart with behind | gone
      · exact .inr behind
      · rcases anchor_cases tree (isRemovedBy pruned) with ⟨same, _⟩ | ⟨first, present, stays, _, _⟩
        · exact .inl (same ▸ boundary_le tree.text _ own.last)
        · rw [gone first present] at stays
          exact Bool.noConfusion stays

theorem survivor_clear (place : Place) (member : place ∈ tree.survivors options (isRemovedBy pruned)) (edit : Edit)
    (recorded : PruneEdit tree options pruned edit) : edit.ClearOf place.start place.stop := by
  obtain ⟨top, _, comments, kept⟩ := (mem_survivors_iff tree options _ place).mp member
  cases isComment : place.node.isComment with
  | true => exact kept_comment_clear tree options pruned grammar spaced done place top isComment (comments isComment) edit recorded
  | false =>
      exact kept_statement_clear tree options pruned grammar.toWellFormed done place
        (survivor_statement tree options spaced _ place member isComment) (kept isComment) edit recorded

theorem survivor_behind_anchor (stays : ∃ statement ∈ tree.statements, isRemovedBy pruned statement = false) (place : Place)
    (member : place ∈ tree.survivors options (isRemovedBy pruned)) :
    Header.anchor tree (isRemovedBy pruned) ≤ place.start := by
  obtain ⟨top, _, comments, kept⟩ := (mem_survivors_iff tree options _ place).mp member
  cases isComment : place.node.isComment with
  | true =>
      obtain ⟨statement, present, stay⟩ := stays
      rcases comment_behind_anchor tree grammar spaced (isRemovedBy pruned) place top isComment (comments isComment) with behind | gone
      · exact behind
      · exact Bool.noConfusion (stay.symm.trans (gone statement present))
  | false =>
      have statement := survivor_statement tree options spaced _ place member isComment
      exact (anchor_spec tree grammar.toWellFormed _).2 place statement
        (kept_not_removed tree options pruned grammar.toWellFormed done place statement (kept isComment))

-- What is shown in front of the place for the header is taken, if a statement stays or nothing does.
theorem front_taken (bare : (∃ statement ∈ tree.statements, isRemovedBy pruned statement = false) ∨
      tree.survivors options (isRemovedBy pruned) = []) (offset : Nat) (boundary : tree.text.IsBoundary offset)
    (starts : tree.text.StartsShown offset) (early : offset < Header.anchor tree (isRemovedBy pruned)) :
    ∃ edit ∈ tree.pruneEdits pruned restored, PruneEdit tree options pruned edit ∧ edit.text = [] ∧ edit.start ≤ offset ∧
      offset < edit.stop := by
  have bound := boundary_le tree.text _ (anchor_spec tree grammar.toWellFormed (isRemovedBy pruned)).1
  obtain ⟨node, listed, inside⟩ := List.any_eq_true.mp (covered_between _ tree.text 0 tree.text.bytes (boundary_zero _)
    (boundary_bytes _) (by rw [between_zero, before_bytes]; exact spaced.gaps) offset boundary (Nat.zero_le _) (by omega) starts)
  rw [Bool.and_eq_true, decide_eq_true_eq, decide_eq_true_eq] at inside
  obtain ⟨place, child, rfl⟩ := child_place tree.rootPlace node listed
  have top := (mem_children_iff tree.rootPlace place).mp child
  change place.start ≤ offset ∧ offset < place.stop at inside
  have taken (statement : Place) (member : statement ∈ tree.statements) (gone : isRemovedBy pruned statement = true)
      (first : tree.attachedStart statement ≤ offset) (last : offset < tree.attachedStop statement) :
      ∃ edit ∈ tree.pruneEdits pruned restored, PruneEdit tree options pruned edit ∧ edit.text = [] ∧ edit.start ≤ offset ∧
        offset < edit.stop := by
    obtain ⟨recorded, source⟩ := removed_edit tree options pruned restored done statement member gone
    exact ⟨_, recorded, source, rfl, first, last⟩
  rcases top_cases tree place spaced top with isComment | ⟨kind, front⟩ | member
  · by_cases apart : ∀ statement ∈ tree.statements, isRemovedBy pruned statement = true →
        place.stop ≤ tree.attachedStart statement ∨ tree.attachedStop statement ≤ place.start
    · have kept : place ∈ tree.survivors options (isRemovedBy pruned) := by
        refine (mem_survivors_iff tree options _ place).mpr ⟨top, fun hash => ?_, fun _ => apart, fun solid => ?_⟩
        · rw [Place.kind, (comment_kind place.node).mp isComment] at hash
          exact absurd hash (by decide)
        · exact Bool.noConfusion (solid.symm.trans isComment)
      rcases bare with stays | none
      · have behind := survivor_behind_anchor tree options pruned grammar spaced done stays place kept
        omega
      · rw [none] at kept
        exact absurd kept List.not_mem_nil
    · simp only [not_forall, not_or] at apart
      obtain ⟨statement, member, gone, away, out⟩ := apart
      rcases comment_cases tree grammar spaced place top isComment with ⟨other, present, first, last⟩ | behind
      · cases removed : isRemovedBy pruned other with
        | true => exact taken other present removed (by omega) (by omega)
        | false =>
            have bound := anchor_le_attached tree grammar _ other present removed
            omega
      · exact absurd (behind statement member) out
  · obtain ⟨line, found, first, last⟩ := interpreter_found tree place top front kind
    have nested := interpreter_nested tree grammar.toWellFormed line found
    have next := next_line_start_spec tree.text line.stop nested.2.2
    refine ⟨line.strip tree, List.mem_append_left _ (List.mem_append_left _ ?_), .strip line found, rfl, ?_, ?_⟩
    · rw [found]
      exact List.mem_singleton.mpr rfl
    · show line.start ≤ offset
      omega
    · show offset < tree.text.nextLineStart line.stop
      omega
  · have nested := in_nested tree place grammar.toWellFormed (statement_root tree place member)
    have first := attached_start_le tree place nested
    have last := le_attached_stop tree place nested
    cases removed : isRemovedBy pruned place with
    | true => exact taken place member removed (by omega) (by omega)
    | false =>
        have behind := (anchor_spec tree grammar.toWellFormed (isRemovedBy pruned)).2 place member removed
        omega

end Header

end ScriptTidy.SourceTree
