import ScriptTidy.Proofs.Import.ListText
import ScriptTidy.Proofs.Import.Recorded
import ScriptTidy.Proofs.Tree.Grammar

/-! Under the grammar, clauses are rendered, declarations pruned and headers captured without fail. -/

set_option autoImplicit false

namespace ScriptTidy.SourceTree

open Text Place Edit Edits

section Rendering

variable (tree : SourceTree) (dead : Place → Bool)

theorem render_element_ok (child : Place) (nested : child.InNested tree.text)
    (edges : child.kind = "named_imports" → tree.ListEdges child) : ∃ text, tree.renderElement dead child = .ok text := by
  unfold renderElement
  split
  · exact ⟨_, rfl⟩
  · split
    next kind =>
      rcases render_list_ok tree child nested (edges (by simpa using kind)) dead with ⟨_, done⟩ | ⟨_, done⟩ | ⟨_, _, _, _, _, done⟩
      · exact ⟨_, done⟩
      · exact ⟨_, done⟩
      · exact ⟨_, done⟩
    next => exact ⟨none, rfl⟩

theorem render_elements_ok (children : List Place)
    (each : ∀ child ∈ children, ∃ text, tree.renderElement dead child = .ok text) :
    ∃ texts, tree.renderElements dead children = .ok texts := by
  induction children with
  | nil => exact ⟨[], rfl⟩
  | cons first rest ih =>
      obtain ⟨text, done⟩ := each first List.mem_cons_self
      obtain ⟨texts, others⟩ := ih fun child member => each child (List.mem_cons_of_mem first member)
      exact ⟨text.toList ++ texts, by rw [renderElements, done, others]; rfl⟩

theorem render_clause_ok (clause : Place) (nested : clause.InNested tree.text)
    (lists : ∀ child ∈ clause.children, child.kind = "named_imports" → tree.ListEdges child) :
    ∃ text, tree.renderClause dead clause = .ok text := by
  have each : ∀ child ∈ clause.namedChildren, ∃ text, tree.renderElement dead child = .ok text := by
    intro child member
    have present := (List.mem_filter.mp member).1
    have root := below_root child clause (child_below clause child present)
    exact render_element_ok tree dead child (in_nested_of_root tree.text clause child nested root.symm) (lists child present)
  obtain ⟨texts, done⟩ := render_elements_ok tree dead clause.namedChildren each
  unfold renderClause
  rw [done]
  cases texts with
  | nil => exact ⟨none, rfl⟩
  | cons first rest => exact ⟨_, rfl⟩

theorem prune_ok (declaration : ImportDeclaration) (dead : List Binding)
    (clauses : ∀ clause ∈ declaration.clause, ∃ text, tree.renderClause (fun place => dead.any (·.specifier.isAt place)) clause =
      .ok text) : ∃ pruning, tree.prune declaration dead = .ok pruning := by
  unfold prune
  cases found : declaration.clause with
  | none => exact ⟨_, rfl⟩
  | some clause =>
      obtain ⟨text, done⟩ := clauses clause found
      dsimp only
      split
      · exact ⟨_, rfl⟩
      · rw [done]
        cases text with
        | none => exact ⟨_, rfl⟩
        | some text => exact ⟨_, rfl⟩

theorem prune_all_ok_of_each (items : List (ImportDeclaration × List Binding))
    (each : ∀ item ∈ items, ∃ pruning, tree.prune item.1 item.2 = .ok pruning) : ∃ pruned, tree.pruneAll items = .ok pruned := by
  induction items with
  | nil => exact ⟨[], rfl⟩
  | cons first rest ih =>
      obtain ⟨declaration, dead⟩ := first
      obtain ⟨pruning, done⟩ := each _ List.mem_cons_self
      obtain ⟨pruned, others⟩ := ih fun item member => each item (List.mem_cons_of_mem _ member)
      exact ⟨⟨declaration, dead, pruning⟩ :: pruned, by rw [pruneAll, done, others]; rfl⟩

end Rendering

-- A captured header holds the leading comments of the first statement, and ends in front of it.
theorem capture_spec (tree : SourceTree) (valid : tree.WellFormed) (header : Header)
    (captured : Header.capture? tree = some header) : tree.statements.head? = some header.statement ∧
      tree.leadingComments header.statement ≠ [] ∧ header.start = tree.attachedStart header.statement ∧
      (tree.text.IsBoundary header.start ∧ tree.text.IsBoundary header.stop ∧ header.start ≤ header.stop) ∧
      header.stop ≤ header.statement.start ∧
      ∀ comment ∈ tree.leadingComments header.statement, header.start ≤ comment.start ∧ comment.stop ≤ header.stop := by
  unfold Header.capture? at captured
  cases found : tree.firstStatement? with
  | none => rw [found] at captured; cases captured
  | some first =>
      rw [found] at captured
      have member : first ∈ tree.statements := List.mem_of_mem_head? found
      have nested := in_nested tree first valid (statement_root tree first member)
      have line := line_start_if_indented_spec tree.text first.start (node_nested tree.text first nested).first
      have order := leading_in_order tree first nested
      have siblings (comment : Node) (leading : comment ∈ tree.leadingComments first) :
          comment.Nested tree.text ∧ comment.stop ≤ first.start := by
        have present := (List.takeWhile_sublist _).subset (leading_comment_mem tree first comment leading)
        exact ⟨siblings_nested tree.text first nested comment (List.mem_append_left _ present),
          (siblings_apart tree.text first nested).1 comment present⟩
      cases comments : tree.leadingComments first with
      | nil => simp only [comments] at captured; cases captured
      | cons comment others =>
          simp only [comments] at captured
          obtain rfl := Option.some.inj captured
          rw [comments] at order siblings
          have lastMember : others.getLast?.getD comment ∈ comment :: others := by
            cases ending : others.getLast? with
            | none => exact List.mem_cons_self
            | some last => exact List.mem_cons_of_mem comment (List.mem_of_getLast? ending)
          have reached (node : Node) (leading : node ∈ comment :: others) :
              comment.start ≤ node.start ∧ node.stop ≤ (others.getLast?.getD comment).stop := by
            have bounds := (List.pairwise_cons.mp order).1
            have forward := (siblings comment List.mem_cons_self).1.ordered
            rcases List.eq_nil_or_concat others with none | ⟨front, last, shape⟩
            · subst none
              obtain rfl := List.mem_singleton.mp leading
              exact ⟨Nat.le_refl _, Nat.le_refl _⟩
            · rw [List.concat_eq_append] at shape
              subst shape
              rw [List.getLast?_concat, Option.getD_some]
              have lastForward := (siblings last (by simp)).1.ordered
              rcases List.mem_cons.mp leading with rfl | later
              · exact ⟨Nat.le_refl _, Nat.le_trans (bounds last (by simp)) lastForward⟩
              · refine ⟨Nat.le_trans forward (bounds node later), ?_⟩
                rcases List.mem_append.mp later with early | final
                · have apart := (List.pairwise_append.mp (List.pairwise_cons.mp order).2).2.2 node early last List.mem_cons_self
                  exact Nat.le_trans apart lastForward
                · rw [List.mem_singleton.mp final]
          generalize others.getLast?.getD comment = last at lastMember reached ⊢
          have lastNested := siblings last lastMember
          have firstNested := siblings comment List.mem_cons_self
          have bounds := reached comment List.mem_cons_self
          have forward := firstNested.1.ordered
          refine ⟨found, by simp [comments], by rw [attachedStart, comments], ⟨firstNested.1.first, ?_, ?_⟩, ?_,
            fun node leading => ?_⟩
          · rcases Nat.le_total (tree.text.lineStartIfIndented first.start) last.stop with short | long
            · rw [Nat.max_eq_right short]
              exact lastNested.1.last
            · rw [Nat.max_eq_left long]
              exact line.1
          · show comment.start ≤ max _ last.stop
            omega
          · show max _ last.stop ≤ first.start
            omega
          · have inside := reached node (comments ▸ leading)
            show comment.start ≤ node.start ∧ node.stop ≤ max _ last.stop
            omega

theorem prune_declaration_ok (tree : SourceTree) (grammar : tree.Grammatical) (statement : Place)
    (same : statement.root = tree.root) (dead : List Binding) :
    ∃ pruning, tree.prune (tree.importDeclaration statement) dead = .ok pruning := by
  refine prune_ok tree _ dead fun clause found => ?_
  have child := child_below statement clause (declaration_clause tree statement clause found).1
  have root := (below_root clause statement child).symm.trans same
  refine render_clause_ok tree _ clause (in_nested tree clause grammar.toWellFormed root) fun list member kind => ?_
  have inside := (below_root list clause (child_below clause list member)).symm.trans root
  exact grammar.lists list ((mem_find_iff tree list _).mpr ⟨inside, kind⟩)

theorem prune_all_total (tree : SourceTree) (grammar : tree.Grammatical) (options : Options) :
    ∃ pruned, tree.pruneAll (tree.candidates options) = .ok pruned := by
  refine prune_all_ok_of_each tree _ fun item member => ?_
  obtain ⟨declaration, dead⟩ := item
  obtain ⟨declared, _, _⟩ := (mem_candidates_iff tree options declaration dead).mp member
  obtain ⟨statement, same, _, rfl⟩ := (mem_declarations_iff tree declaration).mp declared
  exact prune_declaration_ok tree grammar statement same dead

theorem restored_header_total (tree : SourceTree) (valid : tree.WellFormed) (pruned : List PrunedDeclaration) :
    ∃ restored, tree.restoredHeader pruned = .ok restored := by
  unfold restoredHeader
  cases captured : Header.capture? tree with
  | none => exact ⟨none, rfl⟩
  | some header =>
      obtain ⟨_, _, _, ⟨first, last, ordered⟩, _⟩ := capture_spec tree valid header captured
      simp only [Header.restore?, Header.text, copy_ok tree.text _ _ first last ordered]
      split
      · exact ⟨_, rfl⟩
      · exact ⟨_, rfl⟩

end ScriptTidy.SourceTree
