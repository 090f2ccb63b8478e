import ScriptTidy.Proofs.Import.ListCuts
import ScriptTidy.Proofs.Tree.WellFormed

/-! Trees that follow the grammar of the language, as far as edits depend on it. -/

set_option autoImplicit false

namespace ScriptTidy.SourceTree

open Text Place

-- Rules of the grammar that hold nothing, as bare tokens do.
def leafKinds : List String := ["comment", "html_comment", "hash_bang_line", "var"]

-- What a statement holds besides comments.
def expressions (statement : Place) : List Place := statement.namedChildren.filter fun child => !leafKinds.contains child.kind

structure Grammatical (tree : SourceTree) : Prop extends WellFormed tree where
  leaves : ∀ place ∈ tree.places, place.node.label.named = false ∨ leafKinds.contains place.kind = true →
    place.node.children = []
  commentEnds : ∀ place ∈ tree.find "comment", tree.text.EndsShown place.stop
  interpreterEdges : ∀ line ∈ InterpreterLine.find? tree, tree.text.StartsSolid line.start ∧ tree.text.EndsShown line.stop
  importEnds : ∀ place ∈ tree.find "import_statement", tree.text.EndsShown place.stop ∧ place.start < place.stop
  -- Imports stand at the top or in a block, behind its brace. A block in the attributes of an import may hold others, but
  -- a clause holds none.
  importNesting : ∀ place ∈ tree.find "import_statement", (∀ above ∈ place.ancestors, above.kind ≠ "import_clause") ∧
    ∀ parent ∈ place.parent?, parent.steps ≠ [] → parent.start < tree.attachedStart place
  clauses : ∀ place ∈ tree.find "import_clause", tree.text.StartsSolid place.start ∧ tree.text.EndsSolid place.stop ∧
    place.start < place.stop
  lists : ∀ place ∈ tree.find "named_imports", tree.ListEdges place
  expressionStatements : ∀ place ∈ tree.find "expression_statement", tree.text.StartsSolid place.start ∧
    tree.text.EndsSolid place.stop ∧ (expressions place).length ≤ 1
  calls : ∀ place ∈ tree.find "call_expression", tree.text.StartsSolid place.start ∧ tree.text.EndsSolid place.stop

instance (tree : SourceTree) : Decidable tree.Grammatical :=
  decidable_of_iff (tree.WellFormed ∧
      (∀ place ∈ tree.places, place.node.label.named = false ∨ leafKinds.contains place.kind = true →
        place.node.children = []) ∧
      (∀ place ∈ tree.find "comment", tree.text.EndsShown place.stop) ∧
      (∀ line ∈ InterpreterLine.find? tree, tree.text.StartsSolid line.start ∧ tree.text.EndsShown line.stop) ∧
      (∀ place ∈ tree.find "import_statement", tree.text.EndsShown place.stop ∧ place.start < place.stop) ∧
      (∀ place ∈ tree.find "import_statement", (∀ above ∈ place.ancestors, above.kind ≠ "import_clause") ∧
        ∀ parent ∈ place.parent?, parent.steps ≠ [] → parent.start < tree.attachedStart place) ∧
      (∀ place ∈ tree.find "import_clause", tree.text.StartsSolid place.start ∧ tree.text.EndsSolid place.stop ∧
        place.start < place.stop) ∧
      (∀ place ∈ tree.find "named_imports", tree.ListEdges place) ∧
      (∀ place ∈ tree.find "expression_statement", tree.text.StartsSolid place.start ∧
        tree.text.EndsSolid place.stop ∧ (expressions place).length ≤ 1) ∧
      ∀ place ∈ tree.find "call_expression", tree.text.StartsSolid place.start ∧ tree.text.EndsSolid place.stop)
    ⟨fun ⟨valid, leaves, commentEnds, interpreterEdges, importEnds, importNesting, clauses, lists, expressionStatements, calls⟩ =>
        ⟨valid, leaves, commentEnds, interpreterEdges, importEnds, importNesting, clauses, lists, expressionStatements, calls⟩,
      fun given => ⟨given.toWellFormed, given.leaves, given.commentEnds, given.interpreterEdges, given.importEnds,
        given.importNesting, given.clauses, given.lists, given.expressionStatements, given.calls⟩⟩

variable (tree : SourceTree) (place other : Place) (grammar : tree.Grammatical)

include grammar

theorem leaf_kind (same : place.root = tree.root) (kind : leafKinds.contains place.kind = true) : place.node.children = [] :=
  grammar.leaves place ((mem_places_iff tree place).mpr same) (.inr kind)

theorem leaf_comments (same : place.root = tree.root) : LeafComments place := by
  intro other equal isComment
  refine leaf_kind tree other grammar (equal.trans same) ?_
  rw [show other.kind = "comment" from (comment_kind other.node).mp isComment]
  decide

-- What holds something is a rule of the grammar and no comment.
theorem named_of_children (same : place.root = tree.root) (filled : place.node.children ≠ []) :
    place.node.label.named = true ∧ place.node.isComment = false := by
  constructor
  · cases named : place.node.label.named with
    | true => rfl
    | false => exact absurd (grammar.leaves place ((mem_places_iff tree place).mpr same) (.inl named)) filled
  · cases isComment : place.node.isComment with
    | false => rfl
    | true => exact absurd (leaf_comments tree place grammar same place rfl isComment) filled

theorem comment_shown (comment : Node) (shape : other.node = comment) (same : other.root = tree.root)
    (isComment : comment.isComment = true) : tree.text.EndsShown comment.stop := by
  have kind : other.kind = "comment" := (congrArg Node.kind shape).trans ((comment_kind comment).mp isComment)
  have shown := grammar.commentEnds other ((mem_find_iff tree other "comment").mpr ⟨same, kind⟩)
  rwa [Place.stop, shape] at shown

-- With its comments, too, a place ends on a line that holds something.
theorem attached_stop_shown (same : place.root = tree.root) (shown : tree.text.EndsShown place.stop) :
    tree.text.EndsShown (tree.attachedStop place) := by
  rcases attached_stop_cases tree place with equal | ⟨comment, rest, shape, isComment, _, equal⟩
  · exact equal ▸ shown
  · have present : comment ∈ place.before ++ place.after := List.mem_append_right _ (by simp [shape])
    obtain ⟨sibling, node, root⟩ := sibling_place place comment present
    exact equal ▸ comment_shown tree sibling grammar comment node (root.trans same) isComment

theorem unrelated_apart (same : place.root = tree.root) (equal : other.root = tree.root) (out : ¬ place.Within other)
    (away : ¬ other.Within place) (solid : place.node.isComment = false) (otherSolid : other.node.isComment = false) :
    tree.attachedStop place ≤ tree.attachedStart other ∨ tree.attachedStop other ≤ tree.attachedStart place :=
  unrelated_attached tree place other (in_nested tree place grammar.toWellFormed same) (same.trans equal.symm)
    (leaf_comments tree place grammar same) out away solid otherSolid

end ScriptTidy.SourceTree
