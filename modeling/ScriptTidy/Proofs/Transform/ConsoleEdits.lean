import ScriptTidy.Proofs.Edit.Replaced
import ScriptTidy.Proofs.Transform.Outermost
import ScriptTidy.Transform.ConsoleCalls

/-! What goes with a console call: the edits of two calls never meet. -/

set_option autoImplicit false

namespace ScriptTidy.SourceTree

open Text Place Edit Edits

-- The place that the edit of a call is about: the statement that the call makes up, or the call.
def consoleTarget (call : Place) : Place :=
  match call.parent? with
  | some parent => if parent.kind = "expression_statement" then parent else call
  | none => call

theorem target_cases (call : Place) : consoleTarget call = call ∨
    call.parent? = some (consoleTarget call) ∧ (consoleTarget call).kind = "expression_statement" := by
  unfold consoleTarget
  split
  next parent above =>
    split
    next kind => exact .inr ⟨above, kind⟩
    next => exact .inl rfl
  next => exact .inl rfl

theorem call_within_target (call : Place) : call.Within (consoleTarget call) := by
  rcases target_cases call with same | ⟨above, _⟩
  · exact .inl same.symm
  · exact .inr (parent_below call _ above)

-- A removal takes the statement with its comments; all other edits replace the statement or the call.
theorem remove_call_cases (tree : SourceTree) (call : Place) (edit : Edit) (made : tree.removeCall call = some edit) :
    ((consoleTarget call).kind = "expression_statement" ∧ edit = .removeStatement tree (consoleTarget call)) ∨
      ∃ text, edit = .replace (consoleTarget call).node text := by
  unfold removeCall at made
  obtain ⟨parent, above, rfl⟩ := Option.map_eq_some_iff.mp made
  unfold consoleTarget
  simp only [above, beq_iff_eq]
  split
  next kind =>
    split
    · exact .inl ⟨kind, rfl⟩
    · exact .inr ⟨emptyBlock, rfl⟩
  next =>
    split
    · exact .inr ⟨emptyBlock, rfl⟩
    · exact .inr ⟨undefinedValue, rfl⟩

section Calls

variable (tree : SourceTree) (options : Options) (grammar : tree.Grammatical)

theorem console_call_shape (call : Place) (wanted : tree.isConsoleCall options call = true) :
    call.kind = "call_expression" ∧ call.node.children ≠ [] := by
  unfold isConsoleCall at wanted
  obtain ⟨kind, callee⟩ := Bool.and_eq_true_iff.mp wanted
  refine ⟨by simpa using kind, fun empty => ?_⟩
  simp [Node.childByField?, empty] at callee

-- The edits that are recorded for the calls, in the order of the calls.
def consoleEdits : Edits := (tree.consoleCalls options).filterMap tree.removeCall

theorem mem_console_calls (call : Place) (member : call ∈ tree.consoleCalls options) :
    call.root = tree.root ∧ tree.isConsoleCall options call = true :=
  have given := (mem_outermost_iff _ _ call).mp member
  ⟨(mem_places_iff tree call).mp given.1, given.2.1⟩

theorem target_root (call : Place) (member : call ∈ tree.consoleCalls options) : (consoleTarget call).root = tree.root :=
  (within_root call _ (call_within_target call)).trans (mem_console_calls tree options call member).1

include grammar

omit options in
theorem mem_expressions (child statement : Place) (listed : child ∈ statement.children) (same : child.root = tree.root)
    (filled : child.node.children ≠ []) : child ∈ expressions statement := by
  obtain ⟨named, _⟩ := named_of_children tree child grammar same filled
  have rule : leafKinds.contains child.kind = false := by
    rw [← Bool.not_eq_true]
    exact fun leaf => filled (leaf_kind tree child grammar same leaf)
  exact List.mem_filter.mpr ⟨List.mem_filter.mpr ⟨listed, named⟩, by rw [rule]; rfl⟩

-- An expression statement holds one expression, so no call lies in the statement that another one makes up.
theorem targets_unrelated (first second : Place) (one : first ∈ tree.consoleCalls options)
    (other : second ∈ tree.consoleCalls options) (out : ¬ first.Within second) :
    ¬ (consoleTarget first).Within (consoleTarget second) := by
  intro inside
  have deep := within_trans first _ _ (call_within_target first) inside
  rcases target_cases second with same | ⟨above, kind⟩
  · exact out (same ▸ deep)
  · obtain ⟨firstRoot, firstWanted⟩ := mem_console_calls tree options first one
    obtain ⟨secondRoot, secondWanted⟩ := mem_console_calls tree options second other
    have firstShape := console_call_shape tree options first firstWanted
    have secondShape := console_call_shape tree options second secondWanted
    rcases deep with same | below
    · rw [← same, firstShape.1] at kind
      exact absurd kind (by decide)
    · obtain ⟨child, listed, within⟩ := below_child first (consoleTarget second) below
      have childRoot := (below_root child _ (child_below _ child listed)).symm.trans (target_root tree options second other)
      have filled : child.node.children ≠ [] := by
        rcases within with same | lower
        · exact same ▸ firstShape.2
        · exact below_children first child lower
      have childMember := mem_expressions tree grammar child (consoleTarget second) listed childRoot filled
      have secondMember := mem_expressions tree grammar second (consoleTarget second) ((mem_children_iff _ _).mpr above)
        secondRoot secondShape.2
      have size := (grammar.expressionStatements _ ((mem_find_iff tree _ _).mpr ⟨target_root tree options second other, kind⟩)).2.2
      obtain ⟨only, shape⟩ := List.length_eq_one_iff.mp (Nat.le_antisymm size (List.length_pos_of_mem childMember))
      rw [shape, List.mem_singleton] at childMember secondMember
      exact out (childMember.trans secondMember.symm ▸ within)

theorem target_solid (call : Place) (member : call ∈ tree.consoleCalls options) :
    tree.text.StartsSolid (consoleTarget call).start ∧ tree.text.EndsSolid (consoleTarget call).stop ∧
      (consoleTarget call).node.isComment = false := by
  obtain ⟨same, wanted⟩ := mem_console_calls tree options call member
  have callKind := (console_call_shape tree options call wanted).1
  have found := fun kind shape => (mem_find_iff tree (consoleTarget call) kind).mpr ⟨target_root tree options call member, shape⟩
  rcases target_cases call with equal | ⟨_, kind⟩
  · have shape : (consoleTarget call).kind = "call_expression" := equal.symm ▸ callKind
    have edges := grammar.calls _ (found _ shape)
    exact ⟨edges.1, edges.2, by rw [Node.isComment, show (consoleTarget call).node.kind = _ from shape]; decide⟩
  · have edges := grammar.expressionStatements _ (found _ kind)
    exact ⟨edges.1, edges.2.1, by rw [Node.isComment, show (consoleTarget call).node.kind = _ from kind]; decide⟩

theorem remove_call_inside (call : Place) (member : call ∈ tree.consoleCalls options) (edit : Edit)
    (made : tree.removeCall call = some edit) : edit.InText tree.text ∧ (edit.kind = .removal → edit.text = []) ∧
      tree.attachedStart (consoleTarget call) ≤ edit.start ∧ edit.stop ≤ tree.attachedStop (consoleTarget call) := by
  have nested := in_nested tree (consoleTarget call) grammar.toWellFormed (target_root tree options call member)
  rcases remove_call_cases tree call edit made with ⟨_, rfl⟩ | ⟨text, rfl⟩
  · have boundaries := attached_boundaries tree (consoleTarget call) nested
    exact ⟨⟨attached_forward tree _ nested, boundaries.1, boundaries.2⟩, fun _ => rfl, Nat.le_refl _, Nat.le_refl _⟩
  · have own := node_nested tree.text (consoleTarget call) nested
    exact ⟨⟨own.ordered, own.first, own.last⟩, fun removal => EditKind.noConfusion removal, attached_start_le tree _ nested,
      le_attached_stop tree _ nested⟩

theorem call_edits_apart : (tree.consoleCalls options).Pairwise fun first second =>
    ∀ one, tree.removeCall first = some one → ∀ other, tree.removeCall second = some other → Edits.Apart one other := by
  refine (outermost_apart tree grammar.toWellFormed (tree.isConsoleCall options)).imp_of_mem
    fun {first second} firstMember secondMember apart one madeOne other madeOther => ?_
  have inside := remove_call_inside tree options grammar first firstMember one madeOne
  have within := remove_call_inside tree options grammar second secondMember other madeOther
  rcases unrelated_apart tree (consoleTarget first) (consoleTarget second) grammar (target_root tree options first firstMember)
    (target_root tree options second secondMember)
    (targets_unrelated tree options grammar first second firstMember secondMember apart.1)
    (targets_unrelated tree options grammar second first secondMember firstMember apart.2.1)
    (target_solid tree options grammar first firstMember).2.2 (target_solid tree options grammar second secondMember).2.2
    with before | after
  · exact .inl (Nat.le_trans inside.2.2.2 (Nat.le_trans before within.2.2.1))
  · exact .inr (Nat.le_trans within.2.2.2 (Nat.le_trans after inside.2.2.1))

theorem console_edits_apart : (tree.consoleEdits options).Pairwise Edits.Apart :=
  List.pairwise_filterMap.mpr (call_edits_apart tree options grammar)

theorem console_edits_sound : Sound tree.text (tree.consoleEdits options) := by
  have inside : ∀ edit ∈ tree.consoleEdits options,
      edit.InText tree.text ∧ (edit.kind = .removal → edit.text = []) := by
    intro edit member
    obtain ⟨call, called, made⟩ := List.mem_filterMap.mp member
    have shape := remove_call_inside tree options grammar call called edit made
    exact ⟨shape.1, shape.2.1⟩
  refine ⟨fun edit member => (inside edit member).1, fun edit member => (inside edit member).2,
    (console_edits_apart tree options grammar).imp .inr, fun edit member splice => ?_⟩
  have solidStarts : ∀ other ∈ tree.consoleEdits options, other.kind = .removal →
      tree.text.StartsSolid other.start := by
    intro other otherMember removal
    obtain ⟨call, called, made⟩ := List.mem_filterMap.mp otherMember
    rcases remove_call_cases tree call other made with ⟨_, rfl⟩ | ⟨text, rfl⟩
    · exact attached_start_solid tree _ grammar.toWellFormed (target_root tree options call called)
        (target_solid tree options grammar call called).1
    · exact EditKind.noConfusion removal
  obtain ⟨call, called, made⟩ := List.mem_filterMap.mp member
  have edges := target_solid tree options grammar call called
  rcases remove_call_cases tree call edit made with ⟨_, rfl⟩ | ⟨text, rfl⟩
  · exact EditKind.noConfusion splice
  · have valid := (inside _ member).1
    exact fenced_of_solid tree.text _ solidStarts _ _ valid.2.1 valid.2.2 edges.1 edges.2.1

theorem console_calls_total : ∃ text, (tree.removeConsoleCalls options).result = .ok text := by
  simp only [removeConsoleCalls]
  split
  · exact ⟨tree.text, rfl⟩
  · exact ⟨_, apply_ok tree.text _ (console_edits_sound tree options grammar)⟩

end Calls

end ScriptTidy.SourceTree
