import ScriptTidy.Import.Binding
import ScriptTidy.Import.Interpreter
import ScriptTidy.Proofs.Text.Pieces
import ScriptTidy.Proofs.Tree.Attached

/-! Trees as a grammar gives them: ranges nested and in order, and no blanks at the edges of statements. -/

set_option autoImplicit false

namespace ScriptTidy

open Text Place

namespace Node

-- Nodes written out: rules of the grammar, its bare tokens, and nodes that fill a field of their parent.
def rule (kind : String) (start stop : Nat) (children : List Node) : Node := .mk ⟨kind, [], true, false, start, stop⟩ children

def token (kind : String) (start stop : Nat) : Node := .mk ⟨kind, [], false, false, start, stop⟩ []

def field (name : String) : Node → Node
  | .mk label children => .mk { label with fields := name :: label.fields } children

end Node

namespace SourceTree

structure WellFormed (tree : SourceTree) : Prop where
  nested : ∀ place ∈ tree.places, place.node.Nested tree.text
  program : tree.root.kind = "program"
  statements : ∀ place ∈ tree.statements, place.start < place.stop ∧ tree.text.StartsSolid place.start ∧
    tree.text.EndsSolid place.stop
  imports : ∀ place ∈ tree.find "import_statement", tree.text.StartsSolid place.start
  comments : ∀ place ∈ tree.find "comment", tree.text.StartsSolid place.start
  -- A `#!` line reaches to the end of its line.
  interpreter : ∀ line ∈ InterpreterLine.find? tree, tree.text.EndsLine line.stop

instance (tree : SourceTree) : Decidable tree.WellFormed :=
  decidable_of_iff ((∀ place ∈ tree.places, place.node.Nested tree.text) ∧ tree.root.kind = "program" ∧
      (∀ place ∈ tree.statements, place.start < place.stop ∧ tree.text.StartsSolid place.start ∧
        tree.text.EndsSolid place.stop) ∧
      (∀ place ∈ tree.find "import_statement", tree.text.StartsSolid place.start) ∧
      (∀ place ∈ tree.find "comment", tree.text.StartsSolid place.start) ∧
      ∀ line ∈ InterpreterLine.find? tree, tree.text.EndsLine line.stop)
    ⟨fun ⟨nested, program, statements, imports, comments, interpreter⟩ =>
        ⟨nested, program, statements, imports, comments, interpreter⟩,
      fun valid => ⟨valid.nested, valid.program, valid.statements, valid.imports, valid.comments, valid.interpreter⟩⟩

section Places

variable (tree : SourceTree) (place : Place)

theorem mem_places_iff : place ∈ tree.places ↔ place.root = tree.root := Node.mem_places_iff tree.root place

theorem mem_find_iff (kind : String) : place ∈ tree.find kind ↔ place.root = tree.root ∧ place.kind = kind := by
  rw [find, List.mem_filter, mem_places_iff, beq_iff_eq]

theorem mem_statements_iff : place ∈ tree.statements ↔ place.parent? = some tree.rootPlace ∧
    place.node.label.named = true ∧ place.node.isComment = false ∧ place.kind ≠ "hash_bang_line" := by
  rw [statements, List.mem_filter, namedChildren, List.mem_filter, mem_children_iff]
  simp [and_assoc]

theorem statements_earlier : tree.statements.Pairwise Earlier :=
  ((children_earlier tree.rootPlace).sublist List.filter_sublist).sublist List.filter_sublist

theorem top_root (top : place.parent? = some tree.rootPlace) : place.root = tree.root :=
  (parent_root place tree.rootPlace top).symm

theorem statement_root (member : place ∈ tree.statements) : place.root = tree.root :=
  top_root tree place ((mem_statements_iff tree place).mp member).1

theorem comment_kind (node : Node) : node.isComment = true ↔ node.kind = "comment" := by
  rw [Node.isComment, beq_iff_eq]

theorem root_place_kind (valid : tree.WellFormed) (same : place.node = tree.root) (kind : String)
    (other : kind ≠ "program") : place.kind ≠ kind := by
  rw [Place.kind, same, valid.program]
  exact other.symm

theorem root_place_of_root (same : place.root = tree.root) (top : place.steps = []) : place = tree.rootPlace := by
  obtain ⟨node, steps⟩ := place
  subst top
  have shape : node = tree.root := same
  rw [shape, rootPlace]

theorem top_below (top : place.parent? = some tree.rootPlace) (other : Place) (below : place.Below other) :
    other = tree.rootPlace := by
  obtain ⟨parent, above, within⟩ := below_parent place other below
  obtain rfl := Option.some.inj (top.symm.trans above)
  rcases within with same | higher
  · exact same.symm
  · exact absurd higher List.not_mem_nil

-- A place in a sibling of a top statement's kin is that statement or does not hold it.
theorem top_sibling (top : place.parent? = some tree.rootPlace) (left right : Place) (earlier : Earlier left right) :
    (place.Within left → place = left) ∧ (place.Within right → place = right) := by
  have nonempty : left.steps ≠ [] ∧ right.steps ≠ [] := by
    cases earlier with
    | siblings parent above passed first middle second rest => exact ⟨List.cons_ne_nil _ _, List.cons_ne_nil _ _⟩
  constructor
  · rintro (same | below)
    · exact same
    · exact absurd (congrArg Place.steps (top_below tree place top left below)) nonempty.1
  · rintro (same | below)
    · exact same
    · exact absurd (congrArg Place.steps (top_below tree place top right below)) nonempty.2

variable (valid : tree.WellFormed)

include valid

theorem in_nested (same : place.root = tree.root) : place.InNested tree.text :=
  fun other equal => valid.nested other ((mem_places_iff tree other).mpr (equal.trans same))

theorem statement_solid (member : place ∈ tree.statements) :
    tree.text.StartsSolid place.start ∧ tree.text.EndsSolid place.stop ∧ place.node.Nested tree.text :=
  have edges := valid.statements place member
  ⟨edges.2.1, edges.2.2, valid.nested place ((mem_places_iff tree place).mpr (statement_root tree place member))⟩

theorem comment_solid (comment : Node) (other : Place) (shape : other.node = comment) (same : other.root = tree.root)
    (isComment : comment.isComment = true) : tree.text.StartsSolid comment.start := by
  have kind : other.kind = "comment" := (congrArg Node.kind shape).trans ((comment_kind comment).mp isComment)
  have solid := valid.comments other ((mem_find_iff tree other "comment").mpr ⟨same, kind⟩)
  rwa [Place.start, shape] at solid

-- With its comments, too, a place begins with something.
theorem attached_start_solid (same : place.root = tree.root) (solid : tree.text.StartsSolid place.start) :
    tree.text.StartsSolid (tree.attachedStart place) := by
  rcases attached_start_cases tree place with equal | ⟨comment, member, equal⟩
  · exact equal ▸ solid
  · have isComment := List.mem_takeWhile_imp member
    have present := List.mem_append_left place.after ((List.takeWhile_sublist _).subset member)
    obtain ⟨other, shape, root⟩ := sibling_place place comment present
    exact equal ▸ comment_solid tree valid comment other shape (root.trans same) isComment

-- A top statement and a place that it does not hold have no byte in common, the comments of the place included.
theorem top_statement_apart (statement : Place) (member : statement ∈ tree.statements) (same : place.root = tree.root)
    (out : ¬ place.Within statement) (away : ¬ statement.Within place) :
    statement.stop ≤ tree.attachedStart place ∨ tree.attachedStop place ≤ statement.start := by
  obtain ⟨top, _, solid, _⟩ := (mem_statements_iff tree statement).mp member
  have nested := in_nested tree place valid same
  have root := statement_root tree statement member
  rcases unrelated_cases statement place (root.trans same.symm) away out with
    ⟨left, right, earlier, first, second⟩ | ⟨left, right, earlier, first, second⟩
  · obtain rfl := (top_sibling tree statement top left right earlier).1 first
    exact .inl (sibling_attached_start tree place statement right nested earlier second solid)
  · obtain rfl := (top_sibling tree statement top left right earlier).2 second
    exact .inr (sibling_attached_stop tree place left statement nested earlier first solid)

end Places

end SourceTree

namespace InterpreterLine

theorem find_some (tree : SourceTree) (line : InterpreterLine) (found : find? tree = some line) :
    ∃ node rest, tree.root.children = node :: rest ∧ node.kind = "hash_bang_line" ∧ line.start = node.start ∧
      line.stop = node.stop := by
  unfold find? at found
  split at found
  next => cases found
  next node rest shape =>
    split at found
    next kind =>
      obtain rfl := Option.some.inj found
      exact ⟨node, rest, shape, by simpa using kind, rfl, rfl⟩
    next => cases found

end InterpreterLine

end ScriptTidy
