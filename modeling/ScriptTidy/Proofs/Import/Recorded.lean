import ScriptTidy.Proofs.Edit.Prepared
import ScriptTidy.Proofs.Import.Pruned

/-! The edits that pruning records: they are edits of the text, and stay clear of the statements that keep their names. -/

set_option autoImplicit false

namespace ScriptTidy.SourceTree

open Text Place Edit

-- Some name that is bound in the statement can be removed.
def holdsRemovable (tree : SourceTree) (options : Options) (statement : Place) : Bool :=
  tree.importDeclarations.any fun declaration => declaration.bindings.any fun binding =>
    isRemovable options tree.usage binding && binding.specifier.isWithin statement

variable (tree : SourceTree) (options : Options) (pruned : List PrunedDeclaration) (valid : tree.WellFormed)

theorem holds_removable_iff (statement : Place) (same : statement.root = tree.root) :
    tree.holdsRemovable options statement = true ↔ ∃ declaration ∈ tree.importDeclarations, ∃ binding ∈ declaration.bindings,
      isRemovable options tree.usage binding = true ∧ binding.specifier.Within statement := by
  simp only [holdsRemovable, List.any_eq_true, Bool.and_eq_true]
  refine exists_congr fun declaration => and_congr_right fun declared => exists_congr fun binding =>
    and_congr_right fun bound => and_congr_right fun _ => ?_
  obtain ⟨other, root, _, rfl⟩ := (mem_declarations_iff tree declaration).mp declared
  obtain ⟨clause, found, below⟩ := binding_below tree other binding bound
  have inside := below_root binding.specifier clause below
  have child := below_root clause other (child_below other clause (declaration_clause tree other clause found).1)
  exact is_within_iff binding.specifier statement (inside.symm.trans (child.symm.trans (root.trans same.symm)))

theorem interpreter_first (line : InterpreterLine) (found : InterpreterLine.find? tree = some line) :
    ∃ first : Place, first.parent? = some tree.rootPlace ∧ first.kind = "hash_bang_line" ∧ first.before = [] ∧
      line.start = first.start ∧ line.stop = first.stop := by
  obtain ⟨node, rest, shape, kind, start, stop⟩ := InterpreterLine.find_some tree line found
  have child := (mem_children_under tree.root.label [] tree.root.children [] ⟨node, [⟨tree.root.label, [], rest⟩]⟩).mpr
    ⟨[], node, rest, shape, rfl⟩
  exact ⟨_, (mem_children_iff tree.rootPlace _).mp child, kind, rfl, start, stop⟩

-- What stands first in a file stands in front of all else.
theorem first_earlier (first place : Place) (top : first.parent? = some tree.rootPlace) (front : first.before = [])
    (member : place.parent? = some tree.rootPlace) (different : place.node ≠ first.node) : first.Earlier place := by
  have children := (parent_children first tree.rootPlace top).symm.trans (parent_children place tree.rootPlace member)
  obtain ⟨node, steps⟩ := first
  obtain ⟨other, otherSteps⟩ := place
  cases steps with
  | nil => cases top
  | cons step above =>
      cases otherSteps with
      | nil => cases member
      | cons otherStep otherAbove =>
          obtain ⟨parent, before, after⟩ := step
          obtain ⟨otherParent, otherBefore, otherAfter⟩ := otherStep
          subst front
          simp only [Place.before, Place.after, List.reverse_nil, List.nil_append] at children
          have labels := congrArg (Option.map fun place : Place => (place.node.label, place.steps)) (top.trans member.symm)
          simp only [parent?, Step.close, Option.map_some, Option.some.inj, Node.label, Prod.mk.injEq, Option.some_inj] at labels
          obtain ⟨rfl, rfl⟩ := labels
          cases shape : otherBefore.reverse with
          | nil =>
              rw [shape] at children
              exact absurd (List.cons.inj children).1.symm different
          | cons head middle =>
              rw [shape] at children
              obtain ⟨rfl, rfl⟩ := List.cons.inj children
              obtain rfl : otherBefore = middle.reverse ++ [node] := by
                rw [← List.reverse_reverse otherBefore, shape, List.reverse_cons]
              exact .siblings parent above [] node middle other otherAfter

include valid

theorem interpreter_nested (line : InterpreterLine) (found : InterpreterLine.find? tree = some line) :
    line.start ≤ line.stop ∧ tree.text.IsBoundary line.start ∧ tree.text.IsBoundary line.stop := by
  obtain ⟨first, top, _, _, start, stop⟩ := interpreter_first tree line found
  have nested := valid.nested first ((mem_places_iff tree first).mpr (top_root tree first top))
  exact ⟨start ▸ stop ▸ nested.ordered, start ▸ nested.first, stop ▸ nested.last⟩

theorem strip_in_text (line : InterpreterLine) (found : InterpreterLine.find? tree = some line) :
    (line.strip tree).InText tree.text := by
  obtain ⟨ordered, first, last⟩ := interpreter_nested tree valid line found
  have next := next_line_start_spec tree.text line.stop last
  exact ⟨Nat.le_trans ordered next.2.1, first, next.1⟩

-- All that stands in front of something solid ends before it, the line break behind a `#!` line included.
theorem strip_le (line : InterpreterLine) (found : InterpreterLine.find? tree = some line) (offset : Nat)
    (boundary : tree.text.IsBoundary offset) (solid : tree.text.StartsSolid offset) (ordered : line.stop ≤ offset) :
    tree.text.nextLineStart line.stop ≤ offset := by
  obtain ⟨_, _, last⟩ := interpreter_nested tree valid line found
  have next := next_line_start_spec tree.text line.stop last
  apply Nat.le_of_not_lt
  intro inside
  have shown := not_blank_of_solid tree.text line.stop offset _ last boundary next.1 ordered inside solid
  rw [ends_line_blank tree.text line.stop last (valid.interpreter line found)] at shown
  exact Bool.noConfusion shown

omit valid in
-- The header goes in front of the first statement that stays, or to the end if none does.
theorem anchor_cases (removed : Place → Bool) :
    (Header.anchor tree removed = tree.text.bytes ∧ ∀ statement ∈ tree.statements, removed statement = true) ∨
      ∃ first ∈ tree.statements, removed first = false ∧
        Header.anchor tree removed = tree.text.lineStartIfIndented (tree.attachedStart first) ∧
        ∀ statement ∈ tree.statements, removed statement = false → statement = first ∨ first.Earlier statement := by
  unfold Header.anchor
  cases found : tree.statements.find? fun statement => !removed statement with
  | none =>
      refine .inl ⟨rfl, fun statement member => ?_⟩
      have gone := List.find?_eq_none.mp found statement member
      simpa using gone
  | some first =>
      obtain ⟨kept, front, back, shape, gone⟩ := List.find?_eq_some_iff_append.mp found
      refine .inr ⟨first, List.mem_of_find?_eq_some found, by simpa using kept, rfl, fun statement present stays => ?_⟩
      have order := statements_earlier tree
      rw [shape] at present order
      rcases List.mem_append.mp present with before | after
      · have out := gone statement before
        simp [stays] at out
      · rcases List.mem_cons.mp after with same | later
        · exact .inl same
        · exact .inr ((List.pairwise_cons.mp (List.pairwise_append.mp order).2.1).1 statement later)

theorem anchor_spec (removed : Place → Bool) : tree.text.IsBoundary (Header.anchor tree removed) ∧
    ∀ statement ∈ tree.statements, removed statement = false → Header.anchor tree removed ≤ statement.start := by
  rcases anchor_cases tree removed with ⟨same, gone⟩ | ⟨first, member, _, same, after⟩
  · rw [same]
    refine ⟨boundary_bytes tree.text, fun statement member kept => ?_⟩
    rw [gone statement member] at kept
    exact Bool.noConfusion kept
  · rw [same]
    have nested := in_nested tree first valid (statement_root tree first member)
    have spec := line_start_if_indented_spec tree.text _ (attached_boundaries tree first nested).1
    have bound := Nat.le_trans spec.2.1 (attached_start_le tree first nested)
    refine ⟨spec.1, fun statement present kept => ?_⟩
    rcases after statement present kept with rfl | earlier
    · exact bound
    · have apart := earlier_apart tree.text first statement nested earlier
      exact Nat.le_trans bound (Nat.le_trans (node_nested tree.text first nested).ordered apart)

theorem prune_edit_valid (done : tree.pruneAll (tree.candidates options) = .ok pruned) (edit : Edit)
    (recorded : PruneEdit tree options pruned edit) : edit.InText tree.text ∧ (edit.kind = .removal → edit.text = []) ∧
      (edit.kind = .removal → tree.text.StartsSolid edit.start) := by
  cases recorded with
  | strip line found => exact ⟨strip_in_text tree valid line found, fun kind => (by cases kind), fun kind => (by cases kind)⟩
  | rewritten item member clause text found some shape =>
      have root := (item_clause tree options pruned done item member clause found).1
      have nested := node_nested tree.text clause (in_nested tree clause valid root)
      exact ⟨⟨nested.ordered, nested.first, nested.last⟩, fun kind => (by cases kind), fun kind => (by cases kind)⟩
  | removed item member some shape =>
      obtain ⟨statement, same, kind, equal, _⟩ := pruned_item tree options pruned done item member
      rw [equal]
      have nested := in_nested tree statement valid same
      have boundaries := attached_boundaries tree statement nested
      have solid := valid.imports statement ((mem_find_iff tree statement _).mpr ⟨same, kind⟩)
      exact ⟨⟨attached_forward tree statement nested, boundaries.1, boundaries.2⟩, fun _ => rfl,
        fun _ => attached_start_solid tree statement valid same solid⟩
  | header header text captured gone copied =>
      have boundary := (anchor_spec tree valid (isRemovedBy pruned)).1
      exact ⟨⟨Nat.le_refl _, boundary, boundary⟩, fun kind => (by cases kind), fun kind => (by cases kind)⟩

-- A statement without removable names neither holds a pruned one nor lies in it.
theorem kept_unrelated (statement : Place) (member : statement ∈ tree.statements)
    (kept : tree.holdsRemovable options statement = false) (item : PrunedDeclaration) (some : item.dead ≠ []) (other : Place) (same : other.root = tree.root)
    (kind : other.kind = "import_statement") (equal : item.declaration = tree.importDeclaration other)
    (dead : item.dead = deadBindings options tree.usage item.declaration) :
    ¬ other.Within statement ∧ ¬ statement.Within other := by
  have root := statement_root tree statement member
  obtain ⟨binding, named⟩ := List.exists_mem_of_ne_nil _ some
  obtain ⟨bound, removable⟩ := (mem_dead_iff tree options _ binding).mp (dead ▸ named)
  have out : ¬ other.Within statement := by
    intro within
    obtain ⟨clause, found, below⟩ := binding_below tree other binding (equal ▸ bound)
    have child := child_below other clause (declaration_clause tree other clause found).1
    have inside := within_trans _ other statement (.inr (below_trans _ clause other below child)) within
    have holds := (holds_removable_iff tree options statement root).mpr ⟨item.declaration,
      (mem_declarations_iff tree _).mpr ⟨other, same, kind, equal⟩, binding, bound, removable, inside⟩
    rw [kept] at holds
    exact Bool.noConfusion holds
  refine ⟨out, fun within => ?_⟩
  rcases within with same | below
  · exact out (.inl same.symm)
  · have top := top_below tree statement ((mem_statements_iff tree statement).mp member).1 other below
    exact root_place_kind tree other valid (by rw [top]; rfl) "import_statement" (by decide) kind

theorem kept_not_removed (done : tree.pruneAll (tree.candidates options) = .ok pruned) (statement : Place)
    (member : statement ∈ tree.statements) (kept : tree.holdsRemovable options statement = false) :
    isRemovedBy pruned statement = false := by
  cases removed : isRemovedBy pruned statement with
  | false => rfl
  | true =>
      obtain ⟨item, present, isRemoved, shape⟩ :=
        (removed_by_iff tree options pruned done statement (statement_root tree statement member)).mp removed
      obtain ⟨place, same, kind, equal, dead⟩ := pruned_item tree options pruned done item present
      have some := (removed_item tree options pruned done item present isRemoved).1
      have out := (kept_unrelated tree options valid statement member kept item some place same kind
        equal dead).1
      rw [equal] at shape
      exact absurd (.inl shape) out

theorem kept_statement_clear (done : tree.pruneAll (tree.candidates options) = .ok pruned) (statement : Place)
    (member : statement ∈ tree.statements) (kept : tree.holdsRemovable options statement = false) (edit : Edit)
    (recorded : PruneEdit tree options pruned edit) : edit.ClearOf statement.start statement.stop := by
  have solid := statement_solid tree statement valid member
  obtain ⟨top, _, _, other⟩ := (mem_statements_iff tree statement).mp member
  have root := statement_root tree statement member
  cases recorded with
  | strip line found =>
      obtain ⟨first, firstTop, kind, front, _, stop⟩ := interpreter_first tree line found
      have earlier := first_earlier tree first statement firstTop front top fun same => other ((congrArg Node.kind same).trans kind)
      have firstNested := in_nested tree first valid (top_root tree first firstTop)
      have apart := earlier_apart tree.text first statement firstNested earlier
      exact .inr (strip_le tree valid line found statement.start solid.2.2.first solid.1 (stop ▸ apart))
  | rewritten item present clause text found some shape =>
      obtain ⟨place, same, kind, equal, dead⟩ := pruned_item tree options pruned done item present
      obtain ⟨out, away⟩ := kept_unrelated tree options valid statement member kept item some place same kind
        equal dead
      have nested := in_nested tree place valid same
      have child := child_below place clause (declaration_clause tree place clause (equal ▸ found)).1
      have root := (below_root clause place child).symm.trans same
      have inside := below_inside tree.text clause place (in_nested tree clause valid root) child
      have first := attached_start_le tree place nested
      have last := le_attached_stop tree place nested
      have apart := top_statement_apart tree place valid statement member same out away
      show statement.stop ≤ clause.start ∨ clause.stop ≤ statement.start
      omega
  | removed item present some shape =>
      obtain ⟨place, same, kind, equal, dead⟩ := pruned_item tree options pruned done item present
      obtain ⟨out, away⟩ := kept_unrelated tree options valid statement member kept item some place same kind
        equal dead
      rw [equal]
      exact top_statement_apart tree place valid statement member same out away
  | header header text captured gone copied =>
      exact .inr ((anchor_spec tree valid (isRemovedBy pruned)).2 statement member
        (kept_not_removed tree options pruned valid done statement member kept))

end ScriptTidy.SourceTree
