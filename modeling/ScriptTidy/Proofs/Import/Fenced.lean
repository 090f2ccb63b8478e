import ScriptTidy.Proofs.Import.Sound
import ScriptTidy.Proofs.Transform.Untouched

/-! No removal of an import grows into another edit, so that removing unused imports fails only if it takes out an import
that holds another one which is to stay. -/

set_option autoImplicit false

namespace ScriptTidy.SourceTree

open Text Place Edit Edits

section Fences

variable (tree : SourceTree) (options : Options) (pruned : List PrunedDeclaration) (restored : Option Edit)
  (recorded : ∀ edit ∈ tree.pruneEdits pruned restored, PruneEdit tree options pruned edit)

include recorded

-- A merged removal begins with the comments of a removed import, and ends with those of another.
theorem run_edges (run : Edit) (given : Run tree.text (tree.pruneEdits pruned restored) run) :
    (∃ item ∈ pruned, item.pruning.isRemoved = true ∧ run.start = tree.attachedStart item.declaration.statement) ∧
      ∃ item ∈ pruned, item.pruning.isRemoved = true ∧ run.stop = tree.attachedStop item.declaration.statement := by
  obtain ⟨first, firstMember, firstKind, start⟩ := given.first
  obtain ⟨last, lastMember, lastKind, stop⟩ := given.last
  constructor
  · cases recorded first firstMember with
    | removed item member some shape => exact ⟨item, member, by rw [shape]; rfl, start.symm⟩
    | strip => cases firstKind
    | rewritten => cases firstKind
    | header => cases firstKind
  · cases recorded last lastMember with
    | removed item member some shape => exact ⟨item, member, by rw [shape]; rfl, stop.symm⟩
    | strip => cases lastKind
    | rewritten => cases lastKind
    | header => cases lastKind

variable (grammar : tree.Grammatical) (done : tree.pruneAll (tree.candidates options) = .ok pruned)

include grammar done

omit recorded in
theorem removed_solid (item : PrunedDeclaration) (member : item ∈ pruned) :
    tree.text.StartsSolid (tree.attachedStart item.declaration.statement) ∧
      tree.text.EndsShown (tree.attachedStop item.declaration.statement) ∧
      tree.attachedStart item.declaration.statement < tree.attachedStop item.declaration.statement := by
  obtain ⟨statement, same, kind, equal, _⟩ := pruned_item tree options pruned done item member
  rw [equal]
  have found := (mem_find_iff tree statement _).mpr ⟨same, kind⟩
  have nested := in_nested tree statement grammar.toWellFormed same
  have ends := grammar.importEnds statement found
  have first := attached_start_le tree statement nested
  have last := le_attached_stop tree statement nested
  exact ⟨attached_start_solid tree statement grammar.toWellFormed same (grammar.imports statement found),
    attached_stop_shown tree statement grammar same ends.1, Nat.lt_of_le_of_lt first (Nat.lt_of_lt_of_le ends.2 last)⟩

theorem strip_fenced (line : InterpreterLine) (found : InterpreterLine.find? tree = some line) :
    Fenced tree.text (tree.pruneEdits pruned restored) (line.strip tree).start (line.strip tree).stop := by
  intro run given inText
  obtain ⟨⟨item, member, _, start⟩, _⟩ := run_edges tree options pruned restored recorded run given
  have solid := (removed_solid tree options pruned grammar done item member).1
  rw [← start] at solid
  obtain ⟨_, first, last⟩ := interpreter_nested tree grammar.toWellFormed line found
  have next := next_line_start_spec tree.text line.stop last
  have edges := grammar.interpreterEdges line found
  refine ⟨fun ordered => ?_, fun ordered => widened_stop_le_solid tree.text run inText line.start first edges.1 ordered⟩
  have later : tree.text.nextLineStart line.stop ≤ run.start := ordered
  show tree.text.nextLineStart line.stop ≤ (run.widened tree.text).start
  by_cases none : tree.text.between line.stop (tree.text.nextLineStart line.stop) = []
  · have size := bytes_between tree.text line.stop _ last next.1 next.2.1
    have rest := next.2.2
    rw [none] at rest size
    have ending : tree.text.after line.stop = [] := by
      obtain ⟨front, back⟩ := List.append_eq_nil_iff.mp rest.symm
      have parts := List.takeWhile_append_dropWhile (p := (· != '\n')) (l := tree.text.after line.stop)
      rw [front, List.nil_append] at parts
      cases shape : tree.text.after line.stop with
      | nil => rfl
      | cons char more =>
          rw [parts, shape] at back
          cases back
    have whole := congrArg bytes (before_append_after tree.text line.stop)
    rw [ending, List.append_nil, show bytes (tree.text.before line.stop) = line.stop from last] at whole
    have inside := starts_solid_lt tree.text run.start inText.2.1 solid
    rw [bytes_nil] at size
    omega
  · have ends := next_line_break tree.text line.stop last (grammar.interpreter line found) none
    have shape := before_append_between tree.text line.stop _ last next.1 next.2.1
    rw [ends] at shape
    exact line_le_widened_start tree.text run given.removal inText _ next.1 later (tree.text.before line.stop) shape.symm edges.2

omit recorded in
-- A removed import ends in front of the place for the header, or begins behind the comments of the statement there.
theorem removed_anchor_apart (first : Place) (top : first ∈ tree.statements) (stays : isRemovedBy pruned first = false)
    (item : PrunedDeclaration) (member : item ∈ pruned) (gone : item.pruning.isRemoved = true) :
    tree.attachedStop item.declaration.statement ≤ tree.text.lineStartIfIndented (tree.attachedStart first) ∨
      tree.attachedStart first < tree.attachedStart item.declaration.statement := by
  refine anchor_apart tree options pruned grammar done first top item member fun equal => ?_
  have removed := (removed_by_iff tree options pruned done first (statement_root tree first top)).mpr ⟨item, member, gone, equal⟩
  rw [stays] at removed
  exact Bool.noConfusion removed

theorem header_fenced : Fenced tree.text (tree.pruneEdits pruned restored) (Header.anchor tree (isRemovedBy pruned))
    (Header.anchor tree (isRemovedBy pruned)) := by
  intro run given inText
  obtain ⟨⟨item, member, gone, start⟩, other, otherMember, _, stop⟩ :=
    run_edges tree options pruned restored recorded run given
  have own := removed_solid tree options pruned grammar done item member
  have last := removed_solid tree options pruned grammar done other otherMember
  have grown := widened_in_text tree.text run inText
  rcases anchor_cases tree (isRemovedBy pruned) with ⟨same, _⟩ | ⟨first, top, stays, same, _⟩
  · rw [same]
    have inside := starts_solid_lt tree.text run.start inText.2.1 (start ▸ own.1)
    refine ⟨fun ordered => ?_, fun _ => boundary_le tree.text _ grown.2.2⟩
    omega
  · rw [same]
    have root := statement_root tree first top
    have nested := in_nested tree first grammar.toWellFormed root
    have boundary := (attached_boundaries tree first nested).1
    have line := line_start_if_indented_spec tree.text _ boundary
    have solid := attached_start_solid tree first grammar.toWellFormed root (statement_solid tree first grammar.toWellFormed top).1
    constructor
    · intro ordered
      rcases removed_anchor_apart tree options pruned grammar done first top stays item member gone with before | after
      · have wide := own.2.2
        omega
      · have reached := solid_lt_widened_start tree.text run inText _ boundary solid (start ▸ after)
        exact Nat.le_of_lt (Nat.lt_of_le_of_lt line.2.1 reached)
    · intro ordered
      exact widened_stop_le_line_start tree.text run given.removal inText _ boundary solid (Nat.le_trans ordered line.2.1)
        (stop ▸ last.2.1)

theorem splice_fenced (edit : Edit) (member : edit ∈ tree.pruneEdits pruned restored) (splice : edit.kind = .splice) :
    Fenced tree.text (tree.pruneEdits pruned restored) edit.start edit.stop := by
  cases recorded edit member with
  | strip line found => exact strip_fenced tree options pruned restored recorded grammar done line found
  | rewritten item present clause text found some shape =>
      obtain ⟨root, listed⟩ := item_clause tree options pruned done item present clause found
      have nested := node_nested tree.text clause (in_nested tree clause grammar.toWellFormed root)
      have edges := grammar.clauses clause listed
      exact fenced_of_solid tree.text _ (fun other listed => (prune_edit_valid tree options pruned grammar.toWellFormed done other
        (recorded other listed)).2.2) clause.start clause.stop nested.first nested.last edges.1 edges.2.1
  | removed item present some shape => cases splice
  | header header text captured gone copied =>
      exact header_fenced tree options pruned restored recorded grammar done

-- No merged removal lies across the place for the header: a statement stays there.
theorem header_clear (run : Edit) (given : Run tree.text (tree.pruneEdits pruned restored) run) :
    run.ClearOf (Header.anchor tree (isRemovedBy pruned)) (Header.anchor tree (isRemovedBy pruned)) := by
  obtain ⟨_, item, member, gone, stop⟩ := run_edges tree options pruned restored recorded run given
  have wide := (removed_solid tree options pruned grammar done item member).2.2
  rcases anchor_cases tree (isRemovedBy pruned) with ⟨same, _⟩ | ⟨first, top, stays, same, _⟩
  · obtain ⟨statement, root, _, equal, _⟩ := pruned_item tree options pruned done item member
    have nested := in_nested tree statement grammar.toWellFormed root
    rw [equal] at stop
    exact .inr (by rw [same, stop]; exact boundary_le tree.text _ (attached_boundaries tree statement nested).2)
  · have root := statement_root tree first top
    have nested := in_nested tree first grammar.toWellFormed root
    have boundary := (attached_boundaries tree first nested).1
    have line := (line_start_if_indented_spec tree.text _ boundary).2.1
    have solid := attached_start_solid tree first grammar.toWellFormed root (statement_solid tree first grammar.toWellFormed top).1
    have sides := removed_anchor_apart tree options pruned grammar done first top stays
    have out : ¬ (run.start ≤ tree.attachedStart first ∧ tree.attachedStart first < run.stop) := by
      rintro ⟨lower, upper⟩
      obtain ⟨edit, listed, kind, before, behind⟩ := given.solid _ boundary solid lower upper
      cases recorded edit listed with
      | removed other present some shape =>
          change tree.attachedStart other.declaration.statement ≤ _ at before
          change _ < tree.attachedStop other.declaration.statement at behind
          rcases sides other present (by rw [shape]; rfl) with ahead | after <;> omega
      | strip => cases kind
      | rewritten => cases kind
      | header => cases kind
    rw [same]
    rcases sides item member gone with ahead | after
    · exact .inr (by omega)
    · exact .inl (by omega)

-- All that is put in or taken out of a line stays clear of the removals, but for the clause of an import that lies in one
-- that goes.
theorem splice_clear (splice : Edit) (member : splice ∈ tree.pruneEdits pruned restored) (kind : splice.kind = .splice) :
    (∃ inner ∈ pruned, inner.pruning = .rewritten splice ∧ ∃ outer ∈ pruned, outer.pruning.isRemoved = true ∧
        inner.declaration.statement.isWithin outer.declaration.statement = true) ∨
      ∀ removal ∈ (tree.pruneEdits pruned restored).prepared tree.text, removal.kind = .removal →
        removal.ClearOf splice.start splice.stop := by
  have valid := fun edit listed => prune_edit_valid tree options pruned grammar.toWellFormed done edit (recorded edit listed)
  have inText := fun edit listed => (valid edit listed).1
  have clear := prepared_removal_clear tree.text _ inText (fun edit listed => (valid edit listed).2.1) splice.start splice.stop
    (splice_fenced tree options pruned restored recorded grammar done splice member kind)
  cases recorded splice member with
  | strip line found =>
      refine .inr (clear fun run given => .inl ?_)
      obtain ⟨⟨item, present, _, start⟩, _⟩ := run_edges tree options pruned restored recorded run given
      obtain ⟨statement, same, isImport, equal, _⟩ := pruned_item tree options pruned done item present
      have solid := grammar.imports statement ((mem_find_iff tree statement _).mpr ⟨same, isImport⟩)
      rw [start, equal]
      exact strip_le_attached tree grammar line found statement same solid (import_not_root tree grammar statement isImport)
        (by rw [isImport]; decide)
  | rewritten inner present clause text found some shape =>
      by_cases tangled : ∃ outer ∈ pruned, outer.pruning.isRemoved = true ∧
          inner.declaration.statement.isWithin outer.declaration.statement = true
      · exact .inl ⟨inner, present, shape, tangled⟩
      · obtain ⟨root, isClause⟩ := item_clause tree options pruned done inner present clause found
        have nested := node_nested tree.text clause (in_nested tree clause grammar.toWellFormed root)
        obtain ⟨starts, _, wide⟩ := grammar.clauses clause isClause
        refine .inr (clear fun run given => run_clear tree.text _ inText run given clause.start clause.stop nested.first wide starts
          fun edit listed removal => ?_)
        cases recorded edit listed with
        | removed outer other some gone =>
            refine item_clause_apart tree options pruned grammar done inner outer present other clause found fun within => ?_
            exact tangled ⟨outer, other, by rw [gone]; rfl,
              (pruned_within_iff tree options pruned done inner outer present other).mpr within⟩
        | strip => cases removal
        | rewritten => cases removal
        | header => cases removal
  | removed item present some shape => cases kind
  | header header text captured gone copied =>
      exact .inr (clear fun run given => header_clear tree options pruned restored recorded grammar done run given)

-- All that one run records can be applied together, unless an import that is rewritten lies in one that goes.
theorem prune_edits_sound (untangled : Untangled pruned) (header : tree.restoredHeader pruned = .ok restored) :
    Sound tree.text (tree.pruneEdits pruned restored) := by
  have valid := fun edit member => prune_edit_valid tree options pruned grammar.toWellFormed done edit (recorded edit member)
  exact ⟨fun edit member => (valid edit member).1, fun edit member => (valid edit member).2.1,
    prune_edits_compatible tree options pruned grammar done restored header untangled,
    splice_fenced tree options pruned restored recorded grammar done⟩

end Fences

section Printed

variable (tree : SourceTree) (options : Options) (pruned : List PrunedDeclaration) (restored : Option Edit)
  (grammar : tree.Grammatical) (done : tree.pruneAll (tree.candidates options) = .ok pruned)

include grammar done

theorem prune_edits_valid (header : tree.restoredHeader pruned = .ok restored) :
    (∀ edit ∈ tree.pruneEdits pruned restored, edit.InText tree.text) ∧
      ∀ edit ∈ tree.pruneEdits pruned restored, edit.kind = .removal → edit.text = [] := by
  have valid := fun edit member => prune_edit_valid tree options pruned grammar.toWellFormed done edit
    (mem_prune_edits tree options pruned restored done header edit member)
  exact ⟨fun edit member => (valid edit member).1, fun edit member => (valid edit member).2.1⟩

-- A clause that is put in lies in each import around it.
theorem clause_inside (item outer : PrunedDeclaration) (member : item ∈ pruned) (present : outer ∈ pruned) (clause : Place)
    (found : item.declaration.clause = some clause)
    (within : item.declaration.statement.isWithin outer.declaration.statement = true) :
    tree.attachedStart outer.declaration.statement ≤ clause.start ∧ clause.stop ≤ tree.attachedStop outer.declaration.statement ∧
      clause.start < clause.stop := by
  have around := (pruned_within_iff tree options pruned done item outer member present).mp within
  have wide := (grammar.clauses clause (item_clause tree options pruned done item member clause found).2).2.2
  obtain ⟨statement, same, _, equal, _⟩ := pruned_item tree options pruned done item member
  obtain ⟨place, root, _, above, _⟩ := pruned_item tree options pruned done outer present
  rw [equal] at found around
  rw [above] at around ⊢
  change statement.Within place at around
  change tree.attachedStart place ≤ clause.start ∧ clause.stop ≤ tree.attachedStop place ∧ clause.start < clause.stop
  have below := child_below statement clause (declaration_clause tree statement clause found).1
  have clauseRoot := (below_root clause statement below).symm.trans same
  have inside := within_inside tree.text clause place (in_nested tree clause grammar.toWellFormed clauseRoot)
    (within_trans clause statement place (.inr below) around)
  have nested := in_nested tree place grammar.toWellFormed root
  exact ⟨Nat.le_trans (attached_start_le tree place nested) inside.1, Nat.le_trans inside.2 (le_attached_stop tree place nested), wide⟩

-- What is recorded can be printed just if no import that is rewritten lies in one that goes.
theorem prune_edits_printed_iff (header : tree.restoredHeader pruned = .ok restored) :
    (∃ out, tree.print (tree.pruneEdits pruned restored) = .ok out) ↔ Untangled pruned := by
  have recorded := mem_prune_edits tree options pruned restored done header
  constructor
  · rintro ⟨out, printed⟩ outer present gone item member within
    cases shape : item.pruning with
    | untouched => exact .inl rfl
    | removed edit => exact .inr rfl
    | rewritten edit =>
        obtain ⟨valid, empty⟩ := prune_edits_valid tree options pruned restored grammar done header
        have made : edit ∈ item.pruning.edits := by rw [shape]; exact List.mem_singleton.mpr rfl
        have taken : removeStatement tree outer.declaration.statement ∈ outer.pruning.edits := by
          rw [(removed_item tree options pruned done outer present gone).2]
          exact List.mem_singleton.mpr rfl
        rcases item_edit_cases tree options pruned done item member edit made with ⟨clause, text, found, _, _, rfl⟩ | ⟨_, other, _⟩
        · obtain ⟨first, last, wide⟩ := clause_inside tree options pruned grammar done item outer member present clause found within
          exact absurd printed (held_splice_fails tree.text _ valid empty _ _
            (item_edit_listed tree pruned restored item member _ made)
            (item_edit_listed tree pruned restored outer present _ taken) rfl rfl ⟨first, last⟩ wide out)
        · cases shape.symm.trans other
  · exact fun untangled => ⟨_, apply_ok tree.text _
      (prune_edits_sound tree options pruned restored recorded grammar done untangled header)⟩

-- A run comes to an answer just if no import that is rewritten lies in one that goes.
theorem unused_imports_answer_iff :
    (∃ answer, (tree.removeUnusedImports options).result = .ok answer) ↔ Untangled pruned := by
  obtain ⟨restored, header⟩ := restored_header_total tree grammar.toWellFormed pruned
  rw [pruned_result tree options pruned restored done header]
  split
  next untouched => exact iff_of_true ⟨none, rfl⟩ fun _ _ _ inner member _ => .inl (List.all_eq_true.mp untouched inner member)
  next =>
    rw [← prune_edits_printed_iff tree options pruned restored grammar done header]
    cases tree.print (tree.pruneEdits pruned restored) with
    | ok text => exact iff_of_true ⟨_, rfl⟩ ⟨text, rfl⟩
    | error fault => exact iff_of_false (fun ⟨_, other⟩ => by cases other) fun ⟨_, other⟩ => by cases other

-- A run that fails names two edits that overlap.
theorem unused_imports_error (fault : Fault) (failed : (tree.removeUnusedImports options).result = .error fault) :
    ∃ first second, second < first ∧ fault = .overlappingEdits first second := by
  obtain ⟨restored, header⟩ := restored_header_total tree grammar.toWellFormed pruned
  obtain ⟨valid, empty⟩ := prune_edits_valid tree options pruned restored grammar done header
  rw [pruned_result tree options pruned restored done header] at failed
  split at failed
  next => cases failed
  next =>
    cases printed : tree.print (tree.pruneEdits pruned restored) with
    | ok text => rw [printed] at failed; cases failed
    | error other =>
        rw [printed] at failed
        obtain rfl := Except.error.inj failed
        obtain ⟨first, _, second, _, overlap, same⟩ := apply_error tree.text _ valid empty other printed
        exact ⟨first.stop, second.start, overlap, same⟩

end Printed

end ScriptTidy.SourceTree
