import ScriptTidy.Proofs.Import.HeaderPlace
import ScriptTidy.Proofs.Transform.Untouched

/-! The header of a file whose first statement goes: it stays whole, and where it stands in the result. -/

set_option autoImplicit false

namespace ScriptTidy.SourceTree

open Text Place Edit Edits

-- The edit that puts a header back.
def headerEdit (tree : SourceTree) (pruned : List PrunedDeclaration) (header : Header) : Edit :=
  .insert (Header.anchor tree (isRemovedBy pruned)) (tree.text.between header.start header.stop)

-- What stays is shown.
theorem survivors_none_of_skipped (tree : SourceTree) (options : Options) (grammar : tree.Grammatical) (spaced : tree.Spaced)
    (removed : Place → Bool) (text : Text)
    (placed : InTurn ((tree.survivors options removed).map fun place => tree.textOf place.node) text)
    (skipped : text.all isSkipped = true) : tree.survivors options removed = [] := by
  have each := survivor_edges tree options grammar spaced removed
  cases kept : tree.survivors options removed with
  | nil => rfl
  | cons place rest =>
      obtain ⟨nested, wide, starts, _⟩ := each place (kept ▸ List.mem_cons_self)
      obtain ⟨char, more, shape, visible⟩ := between_shown tree.text _ _ nested.first nested.last wide starts
      rw [kept, List.map_cons, text_of_nested tree place.node nested,
        show tree.text.between place.node.start place.node.stop = char :: more from shape] at placed
      obtain ⟨head, back, whole, _⟩ := placed
      simp [whole, visible] at skipped

section Printed

variable (tree : SourceTree) (options : Options) (pruned : List PrunedDeclaration) (grammar : tree.Grammatical)
  (spaced : tree.Spaced) (done : tree.pruneAll (tree.candidates options) = .ok pruned) (header : Header)
  (captured : Header.capture? tree = some header) (gone : isRemovedBy pruned header.statement = true)

include grammar captured

theorem header_text : header.text tree = .ok (tree.text.between header.start header.stop) := by
  obtain ⟨_, _, _, ⟨first, last, ordered⟩, _⟩ := capture_spec tree grammar.toWellFormed header captured
  exact copy_ok tree.text _ _ first last ordered

include gone

theorem header_restored : tree.restoredHeader pruned = .ok (some (tree.headerEdit pruned header)) := by
  simp only [restoredHeader, captured, Header.restore?, gone, if_true, header_text tree grammar header captured]
  rfl

include done

variable (untangled : Untangled pruned)

include untangled

-- The result falls into three parts: what stands in front of the header, the header, and what stands behind it.
theorem header_result : ∃ first second,
    (tree.pruneEdits pruned (some (tree.headerEdit pruned header))).prepared tree.text =
      first ++ tree.headerEdit pruned header :: second ∧ tree.headerEdit pruned header ∉ first ∧
    (tree.removeUnusedImports options).result = .ok (some (tree.withInterpreter
      (spliced tree.text (Header.anchor tree (isRemovedBy pruned)) 0 first ++ tree.text.between header.start header.stop ++
        spliced tree.text tree.text.bytes (Header.anchor tree (isRemovedBy pruned)) second))) := by
  have restored := header_restored tree pruned grammar header captured gone
  have recorded := mem_prune_edits tree options pruned _ done restored
  have sound := prune_edits_sound tree options pruned _ recorded grammar done untangled restored
  have member : tree.headerEdit pruned header ∈ tree.pruneEdits pruned (some (tree.headerEdit pruned header)) :=
    List.mem_append_right _ (List.mem_singleton.mpr rfl)
  obtain ⟨first, second, shape, fresh⟩ := List.eq_append_cons_of_mem (prepared_splice tree.text _ _ member rfl)
  refine ⟨first, second, shape, fresh, ?_⟩
  have touched : ¬ pruned.all (·.pruning.isUntouched) = true := by
    obtain ⟨head, _⟩ := capture_spec tree grammar.toWellFormed header captured
    obtain ⟨item, present, removed, _⟩ := (removed_by_iff tree options pruned done header.statement
      (statement_root tree _ (List.mem_of_mem_head? head))).mp gone
    have some := (removed_item tree options pruned done item present removed).2
    intro all
    have untouched := List.all_eq_true.mp all item present
    rw [some] at untouched
    cases untouched
  have printed := apply_ok tree.text _ sound
  rw [shape, spliced_append] at printed
  rw [pruned_result tree options pruned _ done restored, if_neg touched, print, printed]
  rfl

omit untangled

include spaced

include untangled in
-- A clause that is rewritten stands behind the place for the header, if a statement stays or nothing does.
theorem front_empty (bare : (∃ statement ∈ tree.statements, isRemovedBy pruned statement = false) ∨
      tree.survivors options (isRemovedBy pruned) = []) (edit : Edit)
    (member : edit ∈ tree.pruneEdits pruned (some (tree.headerEdit pruned header)))
    (other : edit ≠ tree.headerEdit pruned header) (early : edit.stop ≤ Header.anchor tree (isRemovedBy pruned)) : edit.text = [] := by
  have restored := header_restored tree pruned grammar header captured gone
  have recorded := mem_prune_edits tree options pruned _ done restored
  cases recorded edit member with
  | strip line found => rfl
  | removed item present dead pruning => rfl
  | header again text found _ copied =>
      obtain rfl := Option.some.inj (captured.symm.trans found)
      obtain rfl := Except.ok.inj ((header_text tree grammar header captured).symm.trans copied)
      exact absurd rfl other
  | rewritten item present clause text found dead pruning =>
      obtain ⟨root, listed⟩ := item_clause tree options pruned done item present clause found
      have nested := node_nested tree.text clause (in_nested tree clause grammar.toWellFormed root)
      obtain ⟨wide, starts⟩ := spaced.edges clause (List.mem_append_right _ listed)
      change clause.stop ≤ _ at early
      obtain ⟨taken, takenMember, _, empty, first, last⟩ := front_taken tree options pruned
        (some (tree.headerEdit pruned header)) grammar spaced done bare clause.start nested.first starts (by omega)
      by_cases same : taken = replace clause.node text
      · exact same ▸ empty
      · have compatible := pairwise_either Compatible _ (prune_edits_compatible tree options pruned grammar done _ restored untangled)
          taken _ takenMember member same
        have apart : taken.stop ≤ clause.start ∨ clause.stop ≤ taken.start := by
          rcases compatible with (⟨_, splice⟩ | before) | (⟨splice, _⟩ | after)
          · cases splice
          · exact before
          · cases splice
          · exact after.symm
        rcases apart with before | after
        · omega
        · omega

-- No edit as it is applied touches what stays.
theorem survivor_untouched (place : Place) (member : place ∈ tree.survivors options (isRemovedBy pruned)) (edit : Edit)
    (present : edit ∈ (tree.pruneEdits pruned (some (tree.headerEdit pruned header))).prepared tree.text) :
    edit.ClearOf place.start place.stop := by
  have restored := header_restored tree pruned grammar header captured gone
  have recorded := mem_prune_edits tree options pruned _ done restored
  have valid := fun other listed => prune_edit_valid tree options pruned grammar.toWellFormed done other (recorded other listed)
  obtain ⟨nested, wide, starts, ends⟩ := survivor_edges tree options grammar spaced _ place member
  have solid := starts_solid_of_shown tree.text place.start starts
  exact prepared_clear tree.text _ (fun other listed => (valid other listed).1) (fun other listed => (valid other listed).2.1)
    place.start place.stop nested.first wide solid
    (fenced_of_solid tree.text _ (fun other listed => (valid other listed).2.2) _ _ nested.first nested.last solid ends)
    (fun other listed => survivor_clear tree options pruned grammar spaced done place member other (recorded other listed)) edit present

-- What stays stands in the text that is printed from `cursor` to `stop`, if it stands there before.
theorem survivors_in_turn (cursor stop : Nat) (edits : Edits) (first : tree.text.IsBoundary cursor) (last : tree.text.IsBoundary stop)
    (ordered : InOrder tree.text cursor edits)
    (present : ∀ edit ∈ edits, edit ∈ (tree.pruneEdits pruned (some (tree.headerEdit pruned header))).prepared tree.text)
    (inside : ∀ place ∈ tree.survivors options (isRemovedBy pruned), cursor ≤ place.start ∧ place.stop ≤ stop) :
    InTurn ((tree.survivors options (isRemovedBy pruned)).map fun place => tree.textOf place.node)
      (spliced tree.text stop cursor edits) := by
  have each := survivor_edges tree options grammar spaced (isRemovedBy pruned)
  obtain ⟨ranges, texts⟩ := node_ranges tree Place.node (tree.survivors options (isRemovedBy pruned)) cursor stop
    (survivors_ordered tree options grammar (isRemovedBy pruned)) fun place kept => ⟨(each place kept).1, inside place kept⟩
  rw [texts]
  refine spliced_in_turn tree.text stop last _ cursor edits first ordered ranges fun range member edit listed => ?_
  obtain ⟨place, kept, rfl⟩ := List.mem_map.mp member
  exact survivor_untouched tree options pruned grammar spaced done header captured gone place kept edit (present edit listed)

include untangled in
-- In front of the header stand no more than blanks, if a statement stays or nothing does.
theorem front_skipped (bare : (∃ statement ∈ tree.statements, isRemovedBy pruned statement = false) ∨
      tree.survivors options (isRemovedBy pruned) = []) (first second : Edits)
    (shape : (tree.pruneEdits pruned (some (tree.headerEdit pruned header))).prepared tree.text =
      first ++ tree.headerEdit pruned header :: second) (fresh : tree.headerEdit pruned header ∉ first) :
    (spliced tree.text (Header.anchor tree (isRemovedBy pruned)) 0 first).all isSkipped = true := by
  have restored := header_restored tree pruned grammar header captured gone
  have recorded := mem_prune_edits tree options pruned _ done restored
  have valid := fun other listed => prune_edit_valid tree options pruned grammar.toWellFormed done other (recorded other listed)
  have inText := fun other listed => (valid other listed).1
  have empty := fun other listed => (valid other listed).2.1
  have ordered := prepared_in_order tree.text _ (prune_edits_sound tree options pruned _ recorded grammar done untangled restored)
  rw [shape] at ordered
  have stops : ∀ edit ∈ first, edit.stop ≤ Header.anchor tree (isRemovedBy pruned) :=
    in_order_before tree.text first _ second 0 ordered
  have listed (edit : Edit) (member : edit ∈ first) :
      edit ∈ (tree.pruneEdits pruned (some (tree.headerEdit pruned header))).prepared tree.text :=
    shape ▸ List.mem_append_left _ member
  refine spliced_all tree.text _ (anchor_spec tree grammar.toWellFormed _).1 isSkipped first 0 (boundary_zero _) (Nat.zero_le _)
    (in_order_append tree.text first _ 0 ordered) stops (fun edit member => ?_) fun offset boundary _ early starts => ?_
  · rcases prepared_text tree.text _ inText empty edit (listed edit member) with none | source
    · exact none
    · exact front_empty tree options pruned grammar spaced done header captured gone untangled bare edit source
        (fun same => fresh (same ▸ member)) (stops edit member)
  · obtain ⟨taken, source, _, _, lower, upper⟩ := front_taken tree options pruned (some (tree.headerEdit pruned header)) grammar
      spaced done bare offset boundary starts early
    obtain ⟨edit, present, _, begins, ends⟩ := prepared_takes tree.text _ inText empty taken source
    rw [shape] at present
    rcases List.mem_append.mp present with front | back
    · exact ⟨edit, front, by omega, by omega⟩
    · have behind := (in_order_bounds tree.text _ _ (in_order_from tree.text first _ second 0 ordered) edit back).1
      change Header.anchor tree (isRemovedBy pruned) ≤ edit.start at behind
      omega

-- All that pruning leaves alone stands behind the place for the header, if a statement stays or nothing does.
theorem shown_behind (bare : (∃ statement ∈ tree.statements, isRemovedBy pruned statement = false) ∨
      tree.survivors options (isRemovedBy pruned) = []) (second : Edits)
    (ordered : InOrder tree.text (Header.anchor tree (isRemovedBy pruned)) second)
    (present : ∀ edit ∈ second, edit ∈ (tree.pruneEdits pruned (some (tree.headerEdit pruned header))).prepared tree.text) :
    (shown (outside (tree.isPruned options) 0 tree.text)).Sublist
      (spliced tree.text tree.text.bytes (Header.anchor tree (isRemovedBy pruned)) second) := by
  have restored := header_restored tree pruned grammar header captured gone
  have recorded := mem_prune_edits tree options pruned _ done restored
  have valid := fun other listed => prune_edit_valid tree options pruned grammar.toWellFormed done other (recorded other listed)
  have boundary := (anchor_spec tree grammar.toWellFormed (isRemovedBy pruned)).1
  have bound := boundary_le tree.text _ boundary
  have front : shown (outside (tree.isPruned options) 0 (tree.text.before (Header.anchor tree (isRemovedBy pruned)))) = [] :=
    outside_all (tree.isPruned options) _ 0 _ fun head char after shape visible => by
      rw [← between_zero] at shape
      obtain ⟨inner, first, early⟩ := char_within tree.text 0 _ (boundary_zero _) boundary (Nat.zero_le _) head char after shape
      have starts : tree.text.StartsShown (0 + bytes head) := by rw [StartsShown, first]; exact visible
      obtain ⟨taken, _, source, _, lower, upper⟩ := front_taken tree options pruned (some (tree.headerEdit pruned header))
        grammar spaced done bare _ inner starts early
      exact pruned_of_edit tree options grammar.toWellFormed pruned done taken source _ inner
        (starts_solid_of_shown tree.text _ starts) lower upper
  have behind := visible_outside_spliced tree.text _ (boundary_bytes tree.text) (tree.isPruned options) second _ boundary bound
    ordered (fun edit member => boundary_le tree.text _ (in_order_bounds tree.text _ _ ordered edit member).2.2.2)
    fun edit member offset inner solid lower upper => by
      obtain ⟨source, listed, first, last⟩ := prepared_covers_solid tree.text _ (fun other given => (valid other given).1)
        (fun other given => (valid other given).2.1) edit (present edit member) offset inner solid lower upper
      exact pruned_of_edit tree options grammar.toWellFormed pruned done source (recorded source listed) offset inner solid first last
  have whole := before_append_after tree.text (Header.anchor tree (isRemovedBy pruned))
  have size : bytes (tree.text.before (Header.anchor tree (isRemovedBy pruned))) = _ := boundary
  rw [between_bytes] at behind
  rw [← whole, outside_append, size, Nat.zero_add, shown, List.filter_append, ← shown, ← shown, front, List.nil_append, whole]
  exact (shown_visible _).trans behind

end Printed

-- In a run that does not fail the header of a removed statement stands in the result as one block. No more than blanks stand
-- in front of it just if some statement stays or no comment is left over; then all that stays comes behind it. Comments that
-- are left over without a statement come in front of it.
theorem header_stays_whole (tree : SourceTree) (grammar : tree.Grammatical) (spaced : tree.Spaced) (options : Options)
    (pruned : List PrunedDeclaration) (done : tree.pruneAll (tree.candidates options) = .ok pruned) (header : Header)
    (captured : Header.capture? tree = some header) (gone : isRemovedBy pruned header.statement = true)
    (untangled : Untangled pruned) : ∃ text front back, header.text tree = .ok text ∧
      (tree.removeUnusedImports options).result = .ok (some (tree.withInterpreter (front ++ text ++ back))) ∧
      (front.all isSkipped = true ↔ (∃ statement ∈ tree.statements, isRemovedBy pruned statement = false) ∨
        tree.survivors options (isRemovedBy pruned) = []) ∧
      (front.all isSkipped = true →
        InTurn ((tree.survivors options (isRemovedBy pruned)).map fun place => tree.textOf place.node) back ∧
          (shown (outside (tree.isPruned options) 0 tree.text)).Sublist back) ∧
      ((∀ statement ∈ tree.statements, isRemovedBy pruned statement = true) →
        InTurn ((tree.survivors options (isRemovedBy pruned)).map fun place => tree.textOf place.node) front) := by
  obtain ⟨first, second, shape, fresh, result⟩ := header_result tree options pruned grammar done header captured gone untangled
  have restored := header_restored tree pruned grammar header captured gone
  have recorded := mem_prune_edits tree options pruned _ done restored
  have ordered := prepared_in_order tree.text _ (prune_edits_sound tree options pruned _ recorded grammar done untangled restored)
  have boundary := (anchor_spec tree grammar.toWellFormed (isRemovedBy pruned)).1
  have bound := boundary_le tree.text _ boundary
  have each := survivor_edges tree options grammar spaced (isRemovedBy pruned)
  have listed : ∀ edit ∈ first ++ tree.headerEdit pruned header :: second,
      edit ∈ (tree.pruneEdits pruned (some (tree.headerEdit pruned header))).prepared tree.text := fun _ member => shape ▸ member
  rw [shape] at ordered
  have onward := (in_order_from tree.text first _ second 0 ordered).2.2
  have left : (∀ statement ∈ tree.statements, isRemovedBy pruned statement = true) →
      InTurn ((tree.survivors options (isRemovedBy pruned)).map fun place => tree.textOf place.node)
        (spliced tree.text (Header.anchor tree (isRemovedBy pruned)) 0 first) := by
    intro all
    refine survivors_in_turn tree options pruned grammar spaced done header captured gone 0 _ first (boundary_zero _) boundary
      (in_order_append tree.text first _ 0 ordered) (fun edit member => listed edit (List.mem_append_left _ member))
      fun place member => ⟨Nat.zero_le _, ?_⟩
    rcases anchor_cases tree (isRemovedBy pruned) with ⟨same, _⟩ | ⟨statement, present, stays, _, _⟩
    · exact same ▸ boundary_le tree.text _ (each place member).1.last
    · exact Bool.noConfusion (stays.symm.trans (all statement present))
  have exact : (spliced tree.text (Header.anchor tree (isRemovedBy pruned)) 0 first).all isSkipped = true ↔
      (∃ statement ∈ tree.statements, isRemovedBy pruned statement = false) ∨
        tree.survivors options (isRemovedBy pruned) = [] := by
    refine ⟨fun skipped => ?_, fun bare =>
      front_skipped tree options pruned grammar spaced done header captured gone untangled bare first second shape fresh⟩
    by_cases stays : ∃ statement ∈ tree.statements, isRemovedBy pruned statement = false
    · exact .inl stays
    · have all : ∀ statement ∈ tree.statements, isRemovedBy pruned statement = true := by simpa using stays
      exact .inr (survivors_none_of_skipped tree options grammar spaced (isRemovedBy pruned) _ (left all) skipped)
  refine ⟨_, _, _, header_text tree grammar header captured, result, exact, fun skipped => ?_, left⟩
  have behind := fun edit member => listed edit (List.mem_append_right _ (List.mem_cons_of_mem _ member))
  refine ⟨?_, shown_behind tree options pruned grammar spaced done header captured gone (exact.mp skipped) second onward behind⟩
  rcases exact.mp skipped with stays | none
  · exact survivors_in_turn tree options pruned grammar spaced done header captured gone _ _ second boundary
      (boundary_bytes tree.text) onward behind fun place member =>
        ⟨survivor_behind_anchor tree options pruned grammar spaced done stays place member,
          boundary_le tree.text _ (each place member).1.last⟩
  · rw [none]
    trivial

open Node in
-- The only statement goes, and a comment behind it is left over.
def leftOverSample : SourceTree where
  path := "p.js".toList
  dialect := .javaScript
  text := "// h\nimport a from \x22a\x22;\n// tail\n".toList
  root := rule "program" 0 32 [
      rule "comment" 0 4 [],
      rule "import_statement" 5 23 [
        token "import" 5 11, rule "import_clause" 12 13 [rule "identifier" 12 13 []], token "from" 14 18,
        field "source" (rule "string" 19 22 [token "\x22" 19 20, rule "string_fragment" 20 21 [], token "\x22" 21 22]),
        token ";" 22 23],
      rule "comment" 24 31 []]

-- One file keeps its header first; in the other it ends up behind the comment that is left over.
theorem sample_headers : importSample.Grammatical ∧ importSample.Spaced ∧ leftOverSample.Grammatical ∧ leftOverSample.Spaced ∧
    (∃ front back, (importSample.removeUnusedImports .default).result =
      .ok (some (importSample.withInterpreter (front ++ "// h\n".toList ++ back))) ∧ front.all isSkipped = true) ∧
    (leftOverSample.removeUnusedImports .default).result = .ok (some "// tail\n// h\n".toList) ∧
    ∃ front back, (leftOverSample.removeUnusedImports .default).result =
      .ok (some (leftOverSample.withInterpreter (front ++ "// h\n".toList ++ back))) ∧ ¬ front.all isSkipped = true := by
  have grammar : importSample.Grammatical ∧ leftOverSample.Grammatical := by decide +kernel
  have spaced : importSample.Spaced ∧ leftOverSample.Spaced := by decide +kernel
  refine ⟨grammar.1, spaced.1, grammar.2, spaced.2, ?_, ok_of_option _ _ (by decide +kernel), ?_⟩
  · obtain ⟨pruned, done⟩ := prune_all_total importSample grammar.1 .default
    obtain ⟨header, captured⟩ := Option.isSome_iff_exists.mp (show (Header.capture? importSample).isSome = true by decide +kernel)
    have gone : (importSample.pruneAll (importSample.candidates .default)).toOption.any (fun pruned =>
        decide (Untangled pruned) && (Header.capture? importSample).any fun header => isRemovedBy pruned header.statement &&
          (header.text importSample).toOption == some "// h\n".toList &&
          importSample.statements.any fun statement => !isRemovedBy pruned statement) = true := by decide +kernel
    simp only [done, captured, Except.toOption, Option.any_some, Bool.and_eq_true, decide_eq_true_eq] at gone
    obtain ⟨untangled, gone⟩ := gone
    obtain ⟨text, front, back, copied, result, exact, _⟩ :=
      header_stays_whole importSample grammar.1 spaced.1 .default pruned done header captured gone.1.1 untangled
    obtain ⟨statement, member, stays⟩ := List.any_eq_true.mp gone.2
    simp only [copied, beq_iff_eq, Option.some.injEq] at gone
    exact ⟨front, back, gone.1.2 ▸ result, exact.mpr (.inl ⟨statement, member, by simpa using stays⟩)⟩
  · obtain ⟨pruned, done⟩ := prune_all_total leftOverSample grammar.2 .default
    obtain ⟨header, captured⟩ := Option.isSome_iff_exists.mp (show (Header.capture? leftOverSample).isSome = true by decide +kernel)
    have gone : (leftOverSample.pruneAll (leftOverSample.candidates .default)).toOption.any (fun pruned =>
        decide (Untangled pruned) && (Header.capture? leftOverSample).any fun header => isRemovedBy pruned header.statement &&
          (header.text leftOverSample).toOption == some "// h\n".toList &&
          leftOverSample.statements.all (isRemovedBy pruned) &&
          !(leftOverSample.survivors .default (isRemovedBy pruned)).isEmpty) = true := by decide +kernel
    simp only [done, captured, Except.toOption, Option.any_some, Bool.and_eq_true, decide_eq_true_eq] at gone
    obtain ⟨untangled, gone⟩ := gone
    obtain ⟨text, front, back, copied, result, exact, _⟩ :=
      header_stays_whole leftOverSample grammar.2 spaced.2 .default pruned done header captured gone.1.1.1 untangled
    simp only [copied, beq_iff_eq, Option.some.injEq] at gone
    refine ⟨front, back, gone.1.1.2 ▸ result, fun skipped => ?_⟩
    rcases exact.mp skipped with ⟨statement, member, stays⟩ | none
    · exact Bool.noConfusion (stays.symm.trans (List.all_eq_true.mp gone.1.2 statement member))
    · simp [none] at gone

end ScriptTidy.SourceTree
