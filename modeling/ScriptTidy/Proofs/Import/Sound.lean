import ScriptTidy.Proofs.Edit.Replaced
import ScriptTidy.Proofs.Import.Total

/-! The edits that pruning records can be applied together: no two of them meet, but for those of imports that lie in an import
that goes. -/

set_option autoImplicit false

namespace ScriptTidy.SourceTree

open Text Place Edit Edits

theorem sibling_top (tree : SourceTree) (left right : Place) (earlier : Earlier left right)
    (top : right.parent? = some tree.rootPlace) : left.parent? = some tree.rootPlace := by
  cases earlier with
  | siblings parent above passed first middle second rest =>
      rw [← top]
      simp [parent?, Step.close]

theorem item_edits_single (item : PrunedDeclaration) (related : Edit → Edit → Prop) : item.pruning.edits.Pairwise related := by
  unfold Pruning.edits
  split
  · exact .nil
  · exact List.pairwise_singleton _ _
  · exact List.pairwise_singleton _ _

section Apart

variable (tree : SourceTree) (options : Options) (pruned : List PrunedDeclaration) (grammar : tree.Grammatical)

include grammar

omit grammar in
theorem import_solid (statement : Place) (kind : statement.kind = "import_statement") : statement.node.isComment = false := by
  rw [Node.isComment, show statement.node.kind = "import_statement" from kind]
  decide

omit grammar in
-- No import lies in one that is found after it.
theorem imports_out : (tree.find "import_statement").Pairwise fun first second => ¬ first.Within second :=
  ((Node.places_apart tree.root).filter _).imp fun {first second} follows => follows_out first second follows

-- A clause and another import with its comments do not meet, unless the whole statement lies in that import.
theorem clause_apart (statement clause other : Place) (same : statement.root = tree.root)
    (found : (tree.importDeclaration statement).clause = some clause) (listed : other ∈ tree.find "import_statement")
    (out : ¬ statement.Within other) : clause.stop ≤ tree.attachedStart other ∨ tree.attachedStop other ≤ clause.start := by
  obtain ⟨child, kind⟩ := declaration_clause tree statement clause found
  obtain ⟨equal, otherKind⟩ := (mem_find_iff tree other _).mp listed
  have root := (below_root clause statement (child_below statement clause child)).symm.trans same
  have nested := in_nested tree clause grammar.toWellFormed root
  have different : clause ≠ other := by
    rintro rfl
    exact absurd (kind.symm.trans otherKind) (by decide)
  have away : ¬ other.Within clause := by
    rintro (equal | inside)
    · exact different equal.symm
    · exact (grammar.importNesting other listed).1 clause inside kind
  have apart : ¬ clause.Within other := by
    rintro (equal | inside)
    · exact different equal
    · obtain ⟨parent, above, within⟩ := below_parent clause other inside
      obtain rfl := Option.some.inj (((mem_children_iff statement clause).mp child).symm.trans above)
      exact out within
  have solid : clause.node.isComment = false := by
    rw [Node.isComment, show clause.node.kind = "import_clause" from kind]
    decide
  exact (unrelated_apart tree clause other grammar root equal apart away solid (import_solid other otherKind)).imp
    (Nat.le_trans (le_attached_stop tree clause nested)) (Nat.le_trans · (attached_start_le tree clause nested))

variable (done : tree.pruneAll (tree.candidates options) = .ok pruned)

include done

omit grammar in
theorem pruned_out : pruned.Pairwise fun first second =>
    ¬ first.declaration.statement.Within second.declaration.statement := by
  have declared : tree.importDeclarations.Pairwise fun first second => ¬ first.statement.Within second.statement :=
    List.pairwise_map.mpr (imports_out tree)
  have candidates : (tree.candidates options).Pairwise fun first second => ¬ first.1.statement.Within second.1.statement :=
    List.pairwise_map.mpr (declared.filter _)
  rw [← (prune_all_ok tree _ pruned done).1] at candidates
  exact List.pairwise_map.mp candidates

-- An edit of a declaration stays within its statement and the comments attached to it.
theorem item_edit_inside (item : PrunedDeclaration) (member : item ∈ pruned) (edit : Edit) (made : edit ∈ item.pruning.edits) :
    tree.attachedStart item.declaration.statement ≤ edit.start ∧ edit.stop ≤ tree.attachedStop item.declaration.statement := by
  rcases item_edit_cases tree options pruned done item member edit made with ⟨clause, text, found, _, _, rfl⟩ | ⟨_, _, rfl⟩
  · obtain ⟨statement, same, _, equal, _⟩ := pruned_item tree options pruned done item member
    rw [equal] at found ⊢
    have nested := in_nested tree statement grammar.toWellFormed same
    have child := child_below statement clause (declaration_clause tree statement clause found).1
    have root := (below_root clause statement child).symm.trans same
    have inside := below_inside tree.text clause statement (in_nested tree clause grammar.toWellFormed root) child
    have first := attached_start_le tree statement nested
    have last := le_attached_stop tree statement nested
    exact ⟨Nat.le_trans first inside.1, Nat.le_trans inside.2 last⟩
  · exact ⟨Nat.le_refl _, Nat.le_refl _⟩

-- A clause that is put in and another import do not meet, unless its own statement lies in that import.
theorem item_clause_apart (item other : PrunedDeclaration) (member : item ∈ pruned) (present : other ∈ pruned) (clause : Place)
    (found : item.declaration.clause = some clause) (out : ¬ item.declaration.statement.Within other.declaration.statement) :
    clause.stop ≤ tree.attachedStart other.declaration.statement ∨ tree.attachedStop other.declaration.statement ≤ clause.start := by
  obtain ⟨statement, same, _, equal, _⟩ := pruned_item tree options pruned done item member
  obtain ⟨place, root, kind, shape, _⟩ := pruned_item tree options pruned done other present
  rw [equal] at found out
  rw [shape] at out ⊢
  exact clause_apart tree grammar statement clause place same found ((mem_find_iff tree place _).mpr ⟨root, kind⟩) out

omit grammar in
theorem rewritten_out (untangled : Untangled pruned) (item outer : PrunedDeclaration) (member : item ∈ pruned)
    (present : outer ∈ pruned) (edit : Edit) (shape : item.pruning = .rewritten edit) (gone : outer.pruning.isRemoved = true) :
    ¬ item.declaration.statement.Within outer.declaration.statement := by
  intro within
  have settled := untangled outer present gone item member
    ((pruned_within_iff tree options pruned done item outer member present).mpr within)
  rw [shape] at settled
  rcases settled with untouched | removed
  · cases untouched
  · cases removed

-- The edits of two imports do not meet, unless the second lies in the first and that one goes.
theorem item_edits_apart (first second : PrunedDeclaration) (member : first ∈ pruned) (present : second ∈ pruned)
    (out : ¬ first.declaration.statement.Within second.declaration.statement)
    (away : first.pruning.isRemoved = true → ¬ second.declaration.statement.Within first.declaration.statement) (one other : Edit)
    (made : one ∈ first.pruning.edits) (given : other ∈ second.pruning.edits) : Edits.Apart one other := by
  have front := item_edit_inside tree options pruned grammar done first member one made
  have back := item_edit_inside tree options pruned grammar done second present other given
  rcases item_edit_cases tree options pruned done first member one made with ⟨clause, text, found, _, _, rfl⟩ | ⟨_, removed, rfl⟩
  · exact (item_clause_apart tree options pruned grammar done first second member present clause found out).imp
      (Nat.le_trans · back.1) (Nat.le_trans back.2)
  · replace away := away (by rw [removed]; rfl)
    rcases item_edit_cases tree options pruned done second present other given with ⟨clause, text, found, _, _, rfl⟩ | ⟨_, _, rfl⟩
    · exact (item_clause_apart tree options pruned grammar done second first present member clause found away).symm.imp
        (Nat.le_trans front.2) (Nat.le_trans · front.1)
    · obtain ⟨statement, same, kind, equal, _⟩ := pruned_item tree options pruned done first member
      obtain ⟨place, root, otherKind, shape, _⟩ := pruned_item tree options pruned done second present
      rw [equal, shape] at out away ⊢
      exact unrelated_apart tree statement place grammar same root out away (import_solid statement kind) (import_solid place otherKind)

-- The edits of two imports can be applied together, unless one is rewritten in the other that goes.
theorem item_edits_compatible (untangled : Untangled pruned) (first second : PrunedDeclaration) (member : first ∈ pruned)
    (present : second ∈ pruned) (out : ¬ first.declaration.statement.Within second.declaration.statement) (one other : Edit)
    (made : one ∈ first.pruning.edits) (given : other ∈ second.pruning.edits) : Compatible one other := by
  by_cases held : first.pruning.isRemoved = true ∧ second.declaration.statement.Within first.declaration.statement
  · obtain ⟨gone, within⟩ := held
    rcases item_edit_cases tree options pruned done second present other given with ⟨_, _, _, _, shape, _⟩ | ⟨_, _, rfl⟩
    · exact absurd within (rewritten_out tree options pruned done untangled second first present member _ shape gone)
    · rw [(removed_item tree options pruned done first member gone).2] at made
      exact .inl ⟨congrArg Edit.kind (List.mem_singleton.mp made), rfl⟩
  · exact .inr (item_edits_apart tree options pruned grammar done first second member present out
      (fun gone within => held ⟨gone, within⟩) one other made given)

omit done in
theorem interpreter_apart (line : InterpreterLine) (found : InterpreterLine.find? tree = some line) (place : Place)
    (same : place.root = tree.root) (out : place ≠ tree.rootPlace) (other : place.kind ≠ "hash_bang_line") :
    line.stop ≤ tree.attachedStart place := by
  obtain ⟨first, top, kind, front, _, stop⟩ := interpreter_first tree line found
  have root := top_root tree first top
  have leaf := leaf_kind tree first grammar root (by rw [kind]; decide)
  have away : ¬ place.Within first := by
    rintro (equal | below)
    · exact other (equal ▸ kind)
    · exact below_children place first below leaf
  have apart : ¬ first.Within place := by
    rintro (equal | below)
    · exact other (equal ▸ kind)
    · exact out (top_below tree first top place below)
  have solid : first.node.isComment = false := by
    rw [Node.isComment, show first.node.kind = "hash_bang_line" from kind]
    decide
  rw [stop]
  rcases unrelated_cases first place (root.trans same.symm) apart away with
    ⟨left, right, earlier, one, two⟩ | ⟨left, right, earlier, one, two⟩
  · obtain rfl := (top_sibling tree first top left right earlier).1 one
    exact sibling_attached_start tree place first right (in_nested tree place grammar.toWellFormed same) earlier two solid
  · obtain rfl := (top_sibling tree first top left right earlier).2 two
    cases earlier with
    | siblings parent above passed head middle second rest => simp [Place.before] at front

omit done in
theorem strip_le_attached (line : InterpreterLine) (found : InterpreterLine.find? tree = some line) (statement : Place)
    (same : statement.root = tree.root) (solid : tree.text.StartsSolid statement.start) (out : statement ≠ tree.rootPlace)
    (other : statement.kind ≠ "hash_bang_line") : tree.text.nextLineStart line.stop ≤ tree.attachedStart statement := by
  have nested := in_nested tree statement grammar.toWellFormed same
  exact strip_le tree grammar.toWellFormed line found _ (attached_boundaries tree statement nested).1
    (attached_start_solid tree statement grammar.toWellFormed same solid)
    (interpreter_apart tree grammar line found statement same out other)

omit done in
theorem import_not_root (statement : Place) (kind : statement.kind = "import_statement") : statement ≠ tree.rootPlace := by
  rintro rfl
  exact root_place_kind tree tree.rootPlace grammar.toWellFormed rfl "import_statement" (by decide) kind

omit done in
-- The line break of the `#!` line stands in front of the place for the header.
theorem strip_le_anchor (line : InterpreterLine) (found : InterpreterLine.find? tree = some line) (removed : Place → Bool) :
    tree.text.nextLineStart line.stop ≤ Header.anchor tree removed := by
  obtain ⟨_, _, last⟩ := interpreter_nested tree grammar.toWellFormed line found
  have next := next_line_start_spec tree.text line.stop last
  rcases anchor_cases tree removed with ⟨same, _⟩ | ⟨first, member, _, same, _⟩
  · rw [same]
    exact boundary_le tree.text _ next.1
  · rw [same]
    obtain ⟨top, _, _, other⟩ := (mem_statements_iff tree first).mp member
    have root := statement_root tree first member
    have solid := statement_solid tree first grammar.toWellFormed member
    have out : first ≠ tree.rootPlace := by
      rintro rfl
      cases top
    have nested := in_nested tree first grammar.toWellFormed root
    have boundary := (attached_boundaries tree first nested).1
    have bound := strip_le_attached tree grammar line found first root solid.1 out other
    have stops := interpreter_apart tree grammar line found first root out other
    cases shape : tree.text.between line.stop (tree.text.nextLineStart line.stop) with
    | nil =>
        have size := bytes_between tree.text line.stop _ last next.1 next.2.1
        rw [shape, bytes_nil, Nat.add_zero] at size
        rw [← size]
        exact shown_le_line_start tree.text line.stop _ last boundary stops (grammar.interpreterEdges line found).2
    | cons char rest =>
        refine le_line_start_if_indented tree.text _ _ boundary next.1 bound (.inl ⟨'\n', ?_, by decide⟩)
        have ends := next_line_break tree.text line.stop last (grammar.interpreter line found) (by simp [shape])
        rw [← before_append_between tree.text line.stop _ last next.1 next.2.1, ends, List.getLast?_concat]
        rfl

-- An import other than the first statement that stays ends in front of the place for the header, or begins behind the
-- comments of that statement.
theorem anchor_apart (first : Place) (member : first ∈ tree.statements) (item : PrunedDeclaration) (present : item ∈ pruned)
    (other : item.declaration.statement ≠ first) :
    tree.attachedStop item.declaration.statement ≤ tree.text.lineStartIfIndented (tree.attachedStart first) ∨
      tree.attachedStart first < tree.attachedStart item.declaration.statement := by
  obtain ⟨statement, same, kind, equal, _⟩ := pruned_item tree options pruned done item present
  rw [equal] at other ⊢
  change statement ≠ first at other
  change tree.attachedStop statement ≤ _ ∨ _ < tree.attachedStart statement
  have valid := grammar.toWellFormed
  obtain ⟨top, _, firstSolid, _⟩ := (mem_statements_iff tree first).mp member
  have root := statement_root tree first member
  have nested := in_nested tree first valid root
  have own := in_nested tree statement valid same
  have found := (mem_find_iff tree statement _).mpr ⟨same, kind⟩
  have boundaries := attached_boundaries tree first nested
  have bound := attached_start_le tree first nested
  have wide := (valid.statements first member).1
  have solid := import_solid statement kind
  by_cases lower : statement.Below first
  · obtain ⟨parent, above, within⟩ := below_parent statement first lower
    have deep : parent.steps ≠ [] := by
      intro none
      have outer := root_place_of_root tree parent ((parent_root statement parent above).trans same) none
      subst outer
      rcases within with equal | below
      · subst equal
        cases top
      · exact absurd below List.not_mem_nil
    have strict := (grammar.importNesting statement found).2 parent above deep
    have inside := within_inside tree.text parent first (in_nested_of_root tree.text statement parent own
      (parent_root statement parent above)) within
    omega
  · have away : ¬ first.Within statement := by
      rintro (equal | below)
      · exact other equal.symm
      · exact import_not_root tree grammar statement kind (top_below tree first top statement below)
    have out : ¬ statement.Within first := fun within => within.elim other lower
    rcases unrelated_cases statement first (same.trans root.symm) out away with
      ⟨left, right, earlier, one, two⟩ | ⟨left, right, earlier, one, two⟩
    · obtain rfl := (top_sibling tree first top left right earlier).2 two
      refine .inl ?_
      have leftRoot := (within_root statement left one).trans same
      have leftNested := in_nested tree left valid leftRoot
      have leftSolid := within_solid statement left (leaf_comments tree statement grammar same) one solid
      have apart := siblings_attached tree left first leftNested earlier leftSolid firstSolid
      rcases one with equal | below
      · subst equal
        exact shown_le_line_start tree.text _ _ (attached_boundaries tree statement own).2 boundaries.1 apart
          (attached_stop_shown tree statement grammar same (grammar.importEnds statement found).1)
      · have filled := below_children statement left below
        have named := named_of_children tree left grammar leftRoot filled
        have leftTop : left.parent? = some tree.rootPlace := sibling_top tree left first earlier top
        have leftKind : left.kind ≠ "hash_bang_line" := fun hash =>
          filled (leaf_kind tree left grammar leftRoot (by rw [hash]; decide))
        have leftMember := (mem_statements_iff tree left).mpr ⟨leftTop, named.1, named.2, leftKind⟩
        have ends := (statement_solid tree left valid leftMember).2
        have inside := attached_inside tree statement left own below
        have stop := le_attached_stop tree left leftNested
        exact Nat.le_trans inside.2 (shown_le_line_start tree.text _ _ ends.2.last boundaries.1 (Nat.le_trans stop apart) ends.1.1)
    · obtain rfl := (top_sibling tree first top left right earlier).1 one
      have apart := sibling_attached_start tree statement first right own earlier two firstSolid
      have strict : first.start < first.stop := wide
      omega

-- An edit of a declaration and the place for the header do not meet.
theorem item_anchor_clear (item : PrunedDeclaration) (present : item ∈ pruned) (edit : Edit)
    (made : edit ∈ item.pruning.edits) :
    edit.ClearOf (Header.anchor tree (isRemovedBy pruned)) (Header.anchor tree (isRemovedBy pruned)) := by
  have bounds := item_edit_inside tree options pruned grammar done item present edit made
  have valid := grammar.toWellFormed
  rcases anchor_cases tree (isRemovedBy pruned) with ⟨same, _⟩ | ⟨first, member, stays, same, _⟩
  · rw [same]
    obtain ⟨statement, root, _, equal, _⟩ := pruned_item tree options pruned done item present
    have own := in_nested tree statement valid root
    rw [equal] at bounds
    exact .inr (Nat.le_trans bounds.2 (boundary_le tree.text _ (attached_boundaries tree statement own).2))
  · rw [same]
    have root := statement_root tree first member
    have nested := in_nested tree first valid root
    have line := line_start_if_indented_spec tree.text _ (attached_boundaries tree first nested).1
    by_cases other : item.declaration.statement = first
    · refine .inl (Nat.le_trans line.2.1 ?_)
      rw [other] at bounds
      exact bounds.1
    · rcases anchor_apart tree options pruned grammar done first member item present other with before | after
      · exact .inr (Nat.le_trans bounds.2 before)
      · exact .inl (Nat.le_trans line.2.1 (Nat.le_trans (Nat.le_of_lt after) bounds.1))

variable (restored : Option Edit) (header : tree.restoredHeader pruned = .ok restored)

include header

-- What holds of edits that do not meet, and of the edits of some imports, holds of all that is recorded with these.
theorem prune_edits_pairwise (related : Edit → Edit → Prop) (weak : ∀ first second, Edits.Apart first second → related first second)
    (items : List PrunedDeclaration) (fewer : ∀ item ∈ items, item ∈ pruned)
    (declarations : (items.flatMap (·.pruning.edits)).Pairwise related) : (tree.pruneEdits items restored).Pairwise related := by
  have single (answer : Option Edit) : answer.toList.Pairwise related := by
    cases answer with
    | none => exact .nil
    | some edit => exact List.pairwise_singleton _ _
  have anchored (edit : Edit) (back : edit ∈ restored.toList) : ∃ text,
      edit = .insert (Header.anchor tree (isRemovedBy pruned)) text := by
    rw [Option.mem_toList] at back
    subst back
    obtain ⟨_, text, _, _, _, shape⟩ := restored_header_some tree pruned edit header
    exact ⟨text, shape⟩
  refine List.pairwise_append.mpr ⟨List.pairwise_append.mpr ⟨single _, declarations,
    fun first front second middle => weak first second ?_⟩, single _, fun first front second back => weak first second ?_⟩
  · obtain ⟨line, found, rfl⟩ := Option.map_eq_some_iff.mp (Option.mem_toList.mp front)
    obtain ⟨item, listed, made⟩ := List.mem_flatMap.mp middle
    have member := fewer item listed
    obtain ⟨statement, same, kind, equal, _⟩ := pruned_item tree options pruned done item member
    have bounds := item_edit_inside tree options pruned grammar done item member second made
    rw [equal] at bounds
    have solid := grammar.imports statement ((mem_find_iff tree statement _).mpr ⟨same, kind⟩)
    have before := strip_le_attached tree grammar line found statement same solid (import_not_root tree grammar statement kind)
      (by rw [kind]; decide)
    exact .inl (Nat.le_trans before bounds.1)
  · obtain ⟨text, rfl⟩ := anchored second back
    rcases List.mem_append.mp front with strip | middle
    · obtain ⟨line, found, rfl⟩ := Option.map_eq_some_iff.mp (Option.mem_toList.mp strip)
      exact .inl (strip_le_anchor tree grammar line found (isRemovedBy pruned))
    · obtain ⟨item, listed, made⟩ := List.mem_flatMap.mp middle
      rcases item_anchor_clear tree options pruned grammar done item (fewer item listed) first made with after | before
      · exact .inr after
      · exact .inl before

-- All edits of a run can be applied together.
theorem prune_edits_compatible (untangled : Untangled pruned) : (tree.pruneEdits pruned restored).Pairwise Compatible := by
  refine prune_edits_pairwise tree options pruned grammar done restored header Compatible (fun _ _ apart => .inr apart) pruned
    (fun _ member => member) (List.pairwise_flatMap.mpr ⟨fun item _ => item_edits_single item Compatible, ?_⟩)
  exact (pruned_out tree options pruned done).imp_of_mem fun {first second} member later out one made other given =>
    item_edits_compatible tree options pruned grammar done untangled first second member later out one other made given

end Apart

end ScriptTidy.SourceTree
