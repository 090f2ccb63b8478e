import ScriptTidy.Proofs.Import.Items
import ScriptTidy.Proofs.Text.Tokens
import ScriptTidy.Proofs.Transform.Untouched

/-! The tokens of a braced list and of the pieces into which it is cut. -/

set_option autoImplicit false

namespace ScriptTidy

open Text Place Edits Lexing

theorem flatten_filter {α β : Type} (made : α → List β) (wanted : α → Bool) (list : List α)
    (empty : ∀ item ∈ list, wanted item = false → made item = []) :
    (list.map made).flatten = ((list.filter wanted).map made).flatten := by
  induction list with
  | nil => rfl
  | cons first rest ih =>
      have later := ih fun item member => empty item (List.mem_cons_of_mem first member)
      cases given : wanted first with
      | true => rw [List.filter_cons_of_pos given, List.map_cons, List.map_cons, List.flatten_cons, List.flatten_cons, later]
      | false =>
          rw [List.filter_cons_of_neg (by simp [given]), List.map_cons, List.flatten_cons, later, empty first List.mem_cons_self given,
            List.nil_append]

-- A scan over nodes with no more than blanks between them gives the tokens of the nodes.
theorem scan_nodes (text : Text) (stop : Nat) (last : text.IsBoundary stop) (nodes : List Node) :
    ∀ cursor, text.IsBoundary cursor → cursor ≤ stop →
      (∀ node ∈ nodes, node.Nested text ∧ node.start < node.stop ∧ cursor ≤ node.start ∧ node.stop ≤ stop ∧
        (text.after node.stop).head?.all (ending .free (text.between node.start node.stop)).settles = true) →
      nodes.Pairwise (fun first second => first.stop ≤ second.start) →
      (∀ offset, text.IsBoundary offset → text.StartsShown offset → cursor ≤ offset → offset < stop →
        ∃ node ∈ nodes, node.start ≤ offset ∧ offset < node.stop) →
      tokens (text.between cursor stop) = (nodes.map fun node => tokens (text.between node.start node.stop)).flatten ∧
        (ending .free (text.between cursor stop) = .free ∨ ∃ node ∈ nodes, node.stop = stop ∧
          ending .free (text.between cursor stop) = ending .free (text.between node.start node.stop)) := by
  have gap (first finish : Nat) (begins : text.IsBoundary first) (ends : text.IsBoundary finish) (ordered : first ≤ finish)
      (bare : ∀ offset, text.IsBoundary offset → text.StartsShown offset → first ≤ offset → ¬ offset < finish) :
      (text.between first finish).all isSkipped = true := by
    refine all_between text isSkipped first finish begins ends ordered fun offset boundary lower upper char head => ?_
    cases skipped : isSkipped char with
    | true => rfl
    | false =>
        have shape : (text.after offset).head? = some char := head
        exact absurd upper (bare offset boundary (by simp [StartsShown, shape, skipped]) lower)
  induction nodes with
  | nil =>
      intro cursor boundary forward _ _ covered
      obtain ⟨free, none⟩ := skipped_free _ (gap cursor stop boundary last forward fun offset inner shown lower upper => by
        obtain ⟨node, member, _⟩ := covered offset inner shown lower upper
        exact absurd member List.not_mem_nil)
      exact ⟨none, .inl free⟩
  | cons first rest ih =>
      intro cursor boundary forward each apart covered
      obtain ⟨nested, wide, early, late, settled⟩ := each first List.mem_cons_self
      obtain ⟨behind, later⟩ := List.pairwise_cons.mp apart
      have front := between_append text cursor first.start stop boundary nested.first last early (by omega)
      have back := between_append text first.start first.stop stop nested.first nested.last last nested.ordered late
      obtain ⟨free, none⟩ := skipped_free _ (gap cursor first.start boundary nested.first early fun offset inner shown lower upper => by
        obtain ⟨node, member, begins, _⟩ := covered offset inner shown lower (by omega)
        rcases List.mem_cons.mp member with rfl | deep
        · omega
        · have order := behind node deep
          omega)
      obtain ⟨tokensLater, endingLater⟩ := ih first.stop nested.last late
        (fun node member => by
          obtain ⟨own, size, _, inside, next⟩ := each node (List.mem_cons_of_mem first member)
          exact ⟨own, size, behind node member, inside, next⟩) later fun offset inner shown lower upper => by
        obtain ⟨node, member, begins, ends⟩ := covered offset inner shown (by omega) upper
        rcases List.mem_cons.mp member with rfl | deep
        · omega
        · exact ⟨node, deep, begins, ends⟩
      have next : (text.between first.stop stop).head?.all (ending .free (text.between first.start first.stop)).settles = true := by
        have whole := between_append_after text first.stop stop nested.last last late
        rw [← whole] at settled
        cases shape : text.between first.stop stop with
        | nil => rfl
        | cons char more => rw [shape] at settled; exact settled
      have some : text.between first.start first.stop ≠ [] := fun empty => by
        have size := bytes_between text first.start first.stop nested.first nested.last nested.ordered
        rw [empty, bytes_nil] at size
        omega
      rw [← front, ← back, free_append _ _ free, none,
        List.nil_append, tokens_append _ _ next, tokensLater, ending_append, free, ending_append]
      refine ⟨rfl, ?_⟩
      by_cases empty : text.between first.stop stop = []
      · have size := bytes_between text first.stop stop nested.last last late
        rw [empty, bytes_nil] at size
        rw [empty]
        exact .inr ⟨first, List.mem_cons_self, by omega, rfl⟩
      · rw [ending_settled _ _ empty next]
        rcases endingLater with done | ⟨node, member, given⟩
        · exact .inl done
        · exact .inr ⟨node, List.mem_cons_of_mem first member, given⟩

namespace SourceTree

structure ListForm (tree : SourceTree) (list : Place) : Prop extends ListEdges tree list where
  kinds : isBraced ((solids list.node.children).map (·.kind)) = true
  gaps : (outside (fun offset => list.node.children.any fun child => child.start ≤ offset && offset < child.stop) list.start
    (tree.text.between list.start list.stop)).all isSkipped = true
  -- Each node reaches as far as its last token does.
  children : ∀ child ∈ list.node.children, child.start < child.stop ∧ tree.text.StartsShown child.start ∧
    tree.text.EndsShown child.stop ∧ (tree.text.after child.stop).head?.all (ending .free (tree.textOf child)).settles = true
  marks : ∀ child ∈ list.node.children, ["\x7b", "\x7d", ","].contains child.kind = true → tree.textOf child = child.kind.toList
  comments : ∀ child ∈ list.node.children, child.isComment = true → tokens (tree.textOf child) = []

instance (tree : SourceTree) (list : Place) : Decidable (tree.ListForm list) :=
  decidable_of_iff (ListEdges tree list ∧
      isBraced ((solids list.node.children).map (·.kind)) = true ∧
      (outside (fun offset => list.node.children.any fun child => child.start ≤ offset && offset < child.stop) list.start
        (tree.text.between list.start list.stop)).all isSkipped = true ∧
      (∀ child ∈ list.node.children, child.start < child.stop ∧ tree.text.StartsShown child.start ∧
        tree.text.EndsShown child.stop ∧ (tree.text.after child.stop).head?.all (ending .free (tree.textOf child)).settles = true) ∧
      (∀ child ∈ list.node.children, ["\x7b", "\x7d", ","].contains child.kind = true →
        tree.textOf child = child.kind.toList) ∧
      ∀ child ∈ list.node.children, child.isComment = true → tokens (tree.textOf child) = [])
    ⟨fun ⟨edges, kinds, gaps, children, marks, comments⟩ => ⟨edges, kinds, gaps, children, marks, comments⟩,
      fun form => ⟨form.toListEdges, form.kinds, form.gaps, form.children, form.marks, form.comments⟩⟩

-- An offset of a list that lies in none of its nodes.
structure IsCut (tree : SourceTree) (list : Place) (offset : Nat) : Prop where
  boundary : tree.text.IsBoundary offset
  first : list.start ≤ offset
  last : offset ≤ list.stop
  apart : ∀ child ∈ list.node.children, child.stop ≤ offset ∨ offset ≤ child.start

-- The nodes of a list between two offsets, comments apart.
def solidsIn (list : Place) (start stop : Nat) : List Node :=
  (solids list.node.children).filter fun child => decide (start ≤ child.start) && decide (child.stop ≤ stop)

def nodeTokens (tree : SourceTree) (node : Node) : List Text := tokens (tree.textOf node)

section Cuts

variable (tree : SourceTree) (list : Place) (nested : list.InNested tree.text) (form : tree.ListForm list)

include nested

theorem list_child_nested (child : Node) (member : child ∈ list.node.children) : child.Nested tree.text := by
  obtain ⟨place, listed, rfl⟩ := child_place list child member
  exact nested place (below_root place list (child_below list place listed)).symm

theorem cut_start : tree.IsCut list list.start := by
  have own := node_nested tree.text list nested
  exact ⟨own.first, Nat.le_refl _, own.ordered, fun child member => .inr (own.inside child member).1⟩

theorem cut_stop : tree.IsCut list list.stop := by
  have own := node_nested tree.text list nested
  exact ⟨own.last, own.ordered, Nat.le_refl _, fun child member => .inl (own.inside child member).2⟩

theorem cut_child (node : Node) (member : node ∈ list.node.children) (boundary : Nat)
    (edge : boundary = node.start ∨ boundary = node.stop) : tree.IsCut list boundary := by
  have own := node_nested tree.text list nested
  have inside := own.inside node member
  have edges := list_child_nested tree list nested node member
  have ordered := edges.ordered
  have apart : ∀ child ∈ list.node.children, child = node ∨ child.stop ≤ node.start ∨ node.stop ≤ child.start := by
    intro child other
    by_cases same : child = node
    · exact .inl same
    · exact .inr (pairwise_either _ _ own.apart child node other member same)
  rcases edge with rfl | rfl
  · refine ⟨edges.first, inside.1, Nat.le_trans ordered inside.2, fun child other => ?_⟩
    rcases apart child other with rfl | before | after
    · exact .inr (Nat.le_refl _)
    · exact .inl before
    · exact .inr (Nat.le_trans ordered after)
  · refine ⟨edges.last, Nat.le_trans inside.1 ordered, inside.2, fun child other => ?_⟩
    rcases apart child other with rfl | before | after
    · exact .inl (Nat.le_refl _)
    · exact .inl (Nat.le_trans before ordered)
    · exact .inr after

include form

-- Between two cuts stand the tokens of the nodes there.
theorem tokens_between_cuts (start stop : Nat) (first : tree.IsCut list start) (last : tree.IsCut list stop) (ordered : start ≤ stop) :
    tokens (tree.text.between start stop) = ((solidsIn list start stop).map tree.nodeTokens).flatten ∧
      (ending .free (tree.text.between start stop) = .free ∨ ∃ child ∈ list.node.children, start ≤ child.start ∧
        child.stop = stop ∧ ending .free (tree.text.between start stop) = ending .free (tree.textOf child)) := by
  have own := node_nested tree.text list nested
  have inside (node : Node) : node ∈ (list.node.children.filter fun child => decide (start ≤ child.start) && decide (child.stop ≤ stop)) ↔
      node ∈ list.node.children ∧ start ≤ node.start ∧ node.stop ≤ stop := by simp
  have text (node : Node) (member : node ∈ list.node.children) : tree.text.between node.start node.stop = tree.textOf node :=
    (text_of_nested tree node (list_child_nested tree list nested node member)).symm
  obtain ⟨made, ends⟩ := scan_nodes tree.text stop last.boundary
    (list.node.children.filter fun child => decide (start ≤ child.start) && decide (child.stop ≤ stop)) start first.boundary ordered
    (fun node member => by
      obtain ⟨listed, lower, upper⟩ := (inside node).mp member
      obtain ⟨wide, _, _, settled⟩ := form.children node listed
      exact ⟨list_child_nested tree list nested node listed, wide, lower, upper, by rw [text node listed]; exact settled⟩)
    (own.apart.sublist List.filter_sublist) fun offset boundary shown lower upper => by
      have within := first.first
      have bound := last.last
      obtain ⟨node, listed, covered⟩ := List.any_eq_true.mp (covered_between _ tree.text list.start list.stop own.first own.last
        form.gaps offset boundary (by omega) (by omega) shown)
      rw [Bool.and_eq_true, decide_eq_true_eq, decide_eq_true_eq] at covered
      have left := first.apart node listed
      have right := last.apart node listed
      exact ⟨node, (inside node).mpr ⟨listed, by omega, by omega⟩, covered⟩
  refine ⟨?_, ends.imp id fun ⟨node, member, equal, same⟩ => ?_⟩
  · have texts : (list.node.children.filter fun child => decide (start ≤ child.start) && decide (child.stop ≤ stop)).map
        (fun node => tokens (tree.text.between node.start node.stop)) =
        (list.node.children.filter fun child => decide (start ≤ child.start) && decide (child.stop ≤ stop)).map tree.nodeTokens :=
      List.map_congr_left fun node member => by rw [text node ((inside node).mp member).1]; rfl
    rw [made, texts, solidsIn, solids, flatten_filter tree.nodeTokens fun node => !node.isComment, List.filter_filter,
      List.filter_filter]
    · simp only [Bool.and_comm]
    · intro node member isComment
      exact form.comments node ((inside node).mp member).1 (by simpa using isComment)
  · obtain ⟨listed, lower, _⟩ := (inside node).mp member
    exact ⟨node, listed, lower, equal, by rw [same, text node listed]⟩

end Cuts

end SourceTree

end ScriptTidy
