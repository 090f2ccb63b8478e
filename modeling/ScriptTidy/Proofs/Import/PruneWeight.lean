import ScriptTidy.Proofs.Import.ClauseWeight
import ScriptTidy.Proofs.Import.PrunedClause
import ScriptTidy.Proofs.Import.Topmost

/-! The edits that pruning records put in less than they take, the header and the `#!` line that come back included. -/

set_option autoImplicit false

namespace ScriptTidy.SourceTree

open Text Place Edit Edits

-- The clauses of a file as the grammar has them, and a `#!` line that begins with its mark.
structure ImportsShown (tree : SourceTree) : Prop where
  clauses : ∀ clause ∈ tree.find "import_clause", tree.ClauseShown clause
  interpreter : ∀ line ∈ InterpreterLine.find? tree,
    InterpreterLine.mark.isPrefixOf (tree.text.between line.start line.stop) = true

instance (tree : SourceTree) : Decidable tree.ImportsShown :=
  decidable_of_iff ((∀ clause ∈ tree.find "import_clause", tree.ClauseShown clause) ∧
      ∀ line ∈ InterpreterLine.find? tree, InterpreterLine.mark.isPrefixOf (tree.text.between line.start line.stop) = true)
    ⟨fun ⟨clauses, interpreter⟩ => ⟨clauses, interpreter⟩, fun shown => ⟨shown.clauses, shown.interpreter⟩⟩

-- What several edits put in or take together.
def total (amount : Edit → Nat) (edits : Edits) : Nat := (edits.map amount).sum

theorem total_append (amount : Edit → Nat) (first second : Edits) :
    total amount (first ++ second) = total amount first + total amount second := by
  rw [total, List.map_append, List.sum_append_nat, ← total, ← total]

theorem total_flat_map {α : Type} (amount : Edit → Nat) (made : α → Edits) (items : List α) :
    total amount (items.flatMap made) = (items.map fun item => total amount (made item)).sum := by
  rw [total, List.map_flatMap, List.flatMap_def, List.sum_flatten, List.map_map]
  rfl

theorem total_single (amount : Edit → Nat) (edit : Edit) : total amount [edit] = amount edit := Nat.add_zero _

section Declarations

variable (tree : SourceTree) (declaration : ImportDeclaration) (dead : List Binding)

theorem rewritten_render (edit : Edit) (done : tree.prune declaration dead = .ok (.rewritten edit)) : dead ≠ [] ∧
    ∃ clause text, declaration.clause = some clause ∧ tree.renderClause (isDead dead) clause = .ok (some text) ∧
      edit = .replace clause.node text := by
  unfold prune at done
  cases found : declaration.clause with
  | none => rw [found] at done; cases done
  | some clause =>
      rw [found] at done
      cases dead with
      | nil => cases done
      | cons first rest =>
          simp only [List.isEmpty_cons, Bool.false_eq_true, if_false] at done
          change (tree.renderClause (isDead (first :: rest)) clause >>= _) = _ at done
          cases rendered : tree.renderClause (isDead (first :: rest)) clause with
          | error fault => rw [rendered] at done; cases done
          | ok result =>
              rw [rendered] at done
              cases result with
              | none => cases done
              | some text => exact ⟨List.cons_ne_nil _ _, clause, text, rfl, rendered, (Pruning.rewritten.inj (Except.ok.inj done)).symm⟩

-- A dead binding is an element of the clause.
theorem dead_element (declared : declaration ∈ tree.importDeclarations) (clause : Place) (found : declaration.clause = some clause)
    (own : ∀ binding ∈ dead, binding ∈ declaration.bindings) (some : dead ≠ []) :
    ∃ made ∈ tree.clauseElements clause, isDead dead made.place = true := by
  obtain ⟨binding, member⟩ := List.exists_mem_of_ne_nil dead some
  obtain ⟨element, present, same⟩ := List.mem_filterMap.mp (own binding member)
  have bound : element = .bound binding := by
    cases element with
    | nameless specifier => cases same
    | bound other => rw [Option.some.inj same]
  rw [(elements_of_clause tree declaration declared clause found).1] at present
  exact ⟨element, present, (is_dead_iff tree declaration declared clause found dead own element present).mpr ⟨binding, member, bound⟩⟩

-- A clause that is put in is the one that stood there without a name.
theorem rewritten_weight (grammar : tree.Grammatical) (shown : tree.ImportsShown) (declared : declaration ∈ tree.importDeclarations)
    (own : ∀ binding ∈ dead, binding ∈ declaration.bindings) (edit : Edit)
    (done : tree.prune declaration dead = .ok (.rewritten edit)) : put edit < taken tree.text edit := by
  obtain ⟨some, clause, text, found, rendered, rfl⟩ := rewritten_render tree declaration dead edit done
  have root := (elements_of_clause tree declaration declared clause found).2
  have kind : clause.kind = "import_clause" := by
    obtain ⟨statement, _, _, rfl⟩ := (mem_declarations_iff tree declaration).mp declared
    exact (declaration_clause tree statement clause found).2
  have nested := in_nested tree clause grammar.toWellFormed root
  have form := shown.clauses clause ((mem_find_iff tree clause _).mpr ⟨root, kind⟩)
  have less := clause_weight tree clause nested form _ text rendered (dead_element tree declaration dead declared clause found own some)
  rwa [text_of_nested tree clause.node (node_nested tree.text clause nested)] at less

end Declarations

section Interpreter

variable (tree : SourceTree) (valid : tree.WellFormed) (shown : tree.ImportsShown) (line : InterpreterLine)
  (found : InterpreterLine.find? tree = some line)

include valid shown found

theorem value_weight : weight (InterpreterLine.mark ++ line.value) = weight (tree.text.between line.start line.stop) := by
  have marked := shown.interpreter line found
  obtain ⟨ordered, first, last⟩ := interpreter_nested tree valid line found
  unfold InterpreterLine.find? at found
  split at found
  next => cases found
  next node _ _ =>
    split at found
    next =>
      obtain rfl := Option.some.inj found
      have text : tree.textOf node = tree.text.between node.start node.stop := by
        rw [textOf, slice_of_boundaries tree.text _ _ first last ordered, Option.getD_some]
      rw [text, if_pos marked]
      obtain ⟨rest, shape⟩ := List.isPrefixOf_iff_prefix.mp marked
      rw [← shape, List.drop_left, weight_append, weight_append, weight_trim_end]
    next => cases found

-- What is written back of the `#!` line was taken with it.
theorem interpreter_weight (text : Text) :
    weight (line.prepend text) + put (line.strip tree) ≤ taken tree.text (line.strip tree) + weight text := by
  obtain ⟨ordered, first, last⟩ := interpreter_nested tree valid line found
  have next := next_line_start_spec tree.text line.stop last
  have inside := weight_within tree.text line.start _ first next.1 line.start line.stop first last (Nat.le_refl _) ordered next.2.1
  have value := value_weight tree valid shown line found
  have nothing : put (line.strip tree) = 0 := rfl
  have blank : weight ['\n'] = 0 := rfl
  change _ ≤ weight (tree.text.between line.start (tree.text.nextLineStart line.stop)) + _
  rw [line.prepend_front, weight_append, weight_append, blank, value, nothing]
  omega

end Interpreter

section Items

variable (tree : SourceTree) (options : Options) (pruned : List PrunedDeclaration) (grammar : tree.Grammatical)
  (shown : tree.ImportsShown) (done : tree.pruneAll (tree.candidates options) = .ok pruned)

include grammar done

-- A removed statement shows something, also behind comments in front of it.
theorem removed_weight (item : PrunedDeclaration) (member : item ∈ pruned) (offset : Nat) (boundary : tree.text.IsBoundary offset)
    (early : tree.attachedStart item.declaration.statement ≤ offset) (front : offset ≤ item.declaration.statement.start) :
    weight (tree.text.between (tree.attachedStart item.declaration.statement) offset) <
      taken tree.text (.removeStatement tree item.declaration.statement) := by
  obtain ⟨statement, same, kind, equal, _⟩ := pruned_item tree options pruned done item member
  rw [equal] at early front ⊢
  change tree.attachedStart statement ≤ offset at early
  change offset ≤ statement.start at front
  change weight (tree.text.between (tree.attachedStart statement) offset) <
    weight (tree.text.between (tree.attachedStart statement) (tree.attachedStop statement))
  have found := (mem_find_iff tree statement _).mpr ⟨same, kind⟩
  have nested := in_nested tree statement grammar.toWellFormed same
  have edges := node_nested tree.text statement nested
  obtain ⟨first, last⟩ := attached_boundaries tree statement nested
  have stop := le_attached_stop tree statement nested
  have visible := weight_starts tree.text _ _ edges.first edges.last (grammar.importEnds statement found).2
    (grammar.imports statement found)
  have inside := weight_within tree.text offset _ boundary last _ _ edges.first edges.last front edges.ordered stop
  have split := weight_split tree.text (tree.attachedStart statement) offset (tree.attachedStop statement) first boundary last early
    (Nat.le_trans front (Nat.le_trans edges.ordered stop))
  rw [split]
  change 0 < weight (tree.text.between statement.start statement.stop) at visible
  change weight (tree.text.between statement.start statement.stop) ≤ _ at inside
  omega

include shown

-- A declaration gives up more than it gets back, unless it is left as it is.
theorem item_weight (item : PrunedDeclaration) (member : item ∈ pruned) :
    total put item.pruning.edits ≤ total (taken tree.text) item.pruning.edits ∧
      (item.pruning.isUntouched = false → total put item.pruning.edits < total (taken tree.text) item.pruning.edits) := by
  have work := (prune_all_ok tree _ pruned done).2 item member
  obtain ⟨statement, same, kind, equal, dead⟩ := pruned_item tree options pruned done item member
  cases shape : item.pruning with
  | untouched => exact ⟨Nat.le_refl _, fun other => by cases other⟩
  | rewritten edit =>
      rw [shape] at work
      have declared := (mem_declarations_iff tree item.declaration).mpr ⟨statement, same, kind, equal⟩
      have less := rewritten_weight tree item.declaration item.dead grammar shown declared
        (fun binding present => ((mem_dead_iff tree options _ binding).mp (dead ▸ present)).1) edit work
      rw [Pruning.edits, total_single, total_single]
      exact ⟨Nat.le_of_lt less, fun _ => less⟩
  | removed edit =>
      obtain ⟨_, removed⟩ := removed_item tree options pruned done item member (by rw [shape]; rfl)
      obtain rfl := Pruning.removed.inj (shape.symm.trans removed)
      have nested := in_nested tree statement grammar.toWellFormed same
      have boundary := (attached_boundaries tree statement nested).1
      have front := attached_start_le tree statement nested
      have less := removed_weight tree options pruned grammar done item member (tree.attachedStart item.declaration.statement)
        (by rw [equal]; exact boundary) (Nat.le_refl _) (by rw [equal]; exact front)
      rw [Pruning.edits, total_single, total_single]
      have nothing : put (.removeStatement tree item.declaration.statement) = 0 := rfl
      exact ⟨by omega, fun _ => by omega⟩

omit shown in
-- The header that comes back is a part of what is taken with its statement, which stands at the top.
theorem header_weight (edit : Edit) (header : tree.restoredHeader pruned = .ok (some edit)) :
    ∃ item ∈ topmost pruned, total put item.pruning.edits + put edit < total (taken tree.text) item.pruning.edits := by
  obtain ⟨head, text, captured, gone, copied, rfl⟩ := restored_header_some tree pruned edit header
  obtain ⟨first, _, start, ⟨_, boundary, ordered⟩, early, _⟩ := capture_spec tree grammar.toWellFormed head captured
  have statement := List.mem_of_mem_head? first
  have root := statement_root tree head.statement statement
  obtain ⟨item, member, removed, same⟩ := (removed_by_iff tree options pruned done head.statement root).mp gone
  obtain ⟨_, shape⟩ := removed_item tree options pruned done item member removed
  have less := removed_weight tree options pruned grammar done item member head.stop boundary (by rw [same, ← start]; exact ordered)
    (by rw [same]; exact early)
  have copy := (copy_eq_ok tree.text _ _ text copied).2.2.2
  rw [start] at copy
  refine ⟨item, (mem_topmost_iff tree options pruned done item member).mpr fun outer present _ below => ?_, ?_⟩
  · have top := ((mem_statements_iff tree head.statement).mp statement).1
    exact import_not_root tree grammar _ (pruned_statement tree options pruned done outer present).2
      (top_below tree head.statement top _ (same ▸ below))
  · rw [shape, Pruning.edits, total_single, total_single]
    have nothing : put (.removeStatement tree item.declaration.statement) = 0 := rfl
    have back : put (.insert (Header.anchor tree (isRemovedBy pruned)) text) = weight text := rfl
    rw [nothing, back, copy, ← same]
    omega

omit grammar shown in
-- What goes or loses a name does so at the top, or in an import there that goes.
theorem topmost_touched (touched : ∃ item ∈ pruned, item.pruning.isUntouched = false) :
    ∃ item ∈ topmost pruned, item.pruning.isUntouched = false := by
  obtain ⟨item, member, given⟩ := touched
  rcases topmost_around tree options pruned done item member with top | ⟨outer, top, gone, _⟩
  · exact ⟨item, top, given⟩
  · refine ⟨outer, top, ?_⟩
    rw [(removed_item tree options pruned done outer (topmost_listed pruned outer top) gone).2]
    rfl

variable (restored : Option Edit) (header : tree.restoredHeader pruned = .ok restored)

include header

-- What all declarations give up makes room for the header, and more.
theorem declarations_weight (touched : ∃ item ∈ pruned, item.pruning.isUntouched = false) :
    total put ((topmost pruned).flatMap (·.pruning.edits) ++ restored.toList) <
      total (taken tree.text) ((topmost pruned).flatMap (·.pruning.edits)) := by
  have each (item : PrunedDeclaration) (member : item ∈ topmost pruned) :=
    item_weight tree options pruned grammar shown done item (topmost_listed pruned item member)
  rw [total_append, total_flat_map, total_flat_map]
  cases restored with
  | none =>
      exact List.sum_lt_sum _ _ (fun item member => (each item member).1)
        ((topmost_touched tree options pruned done touched).imp fun item given => ⟨given.1, (each item given.1).2 given.2⟩)
  | some edit =>
      obtain ⟨item, member, more⟩ := header_weight tree options pruned grammar done edit header
      obtain ⟨front, back, shape⟩ := List.append_of_mem member
      rw [shape] at each ⊢
      have before := List.sum_le_sum fun other (present : other ∈ front) => (each other (List.mem_append_left _ present)).1
      have behind := List.sum_le_sum fun other (present : other ∈ back) =>
        (each other (List.mem_append_right _ (List.mem_cons_of_mem item present))).1
      simp only [List.map_append, List.map_cons, List.sum_append_nat, List.sum_cons, Option.toList_some, total_single]
      omega

end Items

end ScriptTidy.SourceTree
