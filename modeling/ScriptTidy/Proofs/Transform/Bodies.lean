import ScriptTidy.Proofs.Edit.Replaced
import ScriptTidy.Proofs.Transform.Indented
import ScriptTidy.Proofs.Transform.Outermost
import ScriptTidy.Proofs.Transform.Untouched
import ScriptTidy.Proofs.Tree.Folded

/-! The bodies that a pass wraps: braces around statements, one body behind another. -/

set_option autoImplicit false

namespace ScriptTidy

open Text Place Edit Edits

namespace SourceTree

-- A token with one character.
def IsMark (tree : SourceTree) (mark : Char) (node : Node) : Prop := node.children = [] ∧ tree.textOf node = [mark]

instance (tree : SourceTree) (mark : Char) (node : Node) : Decidable (tree.IsMark mark node) :=
  inferInstanceAs (Decidable (_ ∧ _))

-- A block is a brace, its named children and a brace.
structure Braces (tree : SourceTree) (block : Node) : Prop where
  braces : ∃ opening ∈ block.children.head?, ∃ closing ∈ block.children.getLast?,
    block.children = opening :: (block.namedChildren ++ [closing]) ∧ (opening.start = block.start ∧ tree.IsMark '\x7b' opening) ∧
      closing.stop = block.stop ∧ tree.IsMark '\x7d' closing

instance (tree : SourceTree) (block : Node) : Decidable (tree.Braces block) :=
  decidable_of_iff (∃ opening ∈ block.children.head?, ∃ closing ∈ block.children.getLast?,
      block.children = opening :: (block.namedChildren ++ [closing]) ∧ (opening.start = block.start ∧ tree.IsMark '\x7b' opening) ∧
        closing.stop = block.stop ∧ tree.IsMark '\x7d' closing)
    ⟨fun braces => ⟨braces⟩, fun form => form.braces⟩

-- Only white space stands between the parts of a block.
structure BlockForm (tree : SourceTree) (space : Char → Bool) (block : Node) : Prop extends Braces tree block where
  gaps : block.children.IsChain fun first second => (tree.text.between first.stop second.start).all space = true

instance (tree : SourceTree) (space : Char → Bool) (block : Node) : Decidable (tree.BlockForm space block) :=
  decidable_of_iff (tree.Braces block ∧
      block.children.IsChain fun first second => (tree.text.between first.stop second.start).all space = true)
    ⟨fun given => ⟨given.1, given.2⟩, fun form => ⟨form.toBraces, form.gaps⟩⟩

-- Where the parts of a block stand.
structure BlockParts (text : Text) (block first last : Node) : Prop where
  opened : text.IsBoundary (block.start + 1) ∧ text.between block.start (block.start + 1) = ['\x7b']
  front : block.start + 1 ≤ first.start
  start : text.IsBoundary first.start
  ordered : first.start ≤ last.stop
  stop : text.IsBoundary last.stop
  back : last.stop + 1 ≤ block.stop
  closed : text.IsBoundary (block.stop - 1) ∧ text.between (block.stop - 1) block.stop = ['\x7d']

-- Only the children between the braces are named.
theorem braces_bare (block opening closing : Node) (shape : block.children = opening :: (block.namedChildren ++ [closing])) :
    opening.label.named = false ∧ closing.label.named = false := by
  have named : block.namedChildren = block.children.filter (·.label.named) := rfl
  have again : block.namedChildren.filter (·.label.named) = block.namedChildren := by rw [named, List.filter_filter]; simp
  have size := congrArg List.length named
  rw [shape, List.filter_cons, List.filter_append, again] at size
  cases front : opening.label.named <;> cases back : closing.label.named <;> simp [front, back] at size ⊢
  omega

-- Nodes one behind another lie between the first one's start and the last one's end.
theorem between_edges (nodes : List Node) (forward : ∀ node ∈ nodes, node.start ≤ node.stop)
    (apart : nodes.Pairwise fun earlier later => earlier.stop ≤ later.start) (first last : Node) (head : nodes.head? = some first)
    (ending : nodes.getLast? = some last) (node : Node) (member : node ∈ nodes) : first.start ≤ node.start ∧ node.stop ≤ last.stop := by
  constructor
  · obtain ⟨others, rfl⟩ := List.head?_eq_some_iff.mp head
    rcases List.mem_cons.mp member with rfl | later
    · exact Nat.le_refl _
    · exact Nat.le_trans (forward first List.mem_cons_self) ((List.pairwise_cons.mp apart).1 node later)
  · obtain ⟨front, rfl⟩ := List.getLast?_eq_some_iff.mp ending
    rcases List.mem_append.mp member with earlier | final
    · have behind := (List.pairwise_append.mp apart).2.2 node earlier last List.mem_cons_self
      exact Nat.le_trans behind (forward last (by simp))
    · exact List.mem_singleton.mp final ▸ Nat.le_refl _

section Blocks

variable (tree : SourceTree) (space : Char → Bool) (block : Place) (nested : block.InNested tree.text)

include nested

theorem child_of_nested (child : Node) (member : child ∈ block.node.children) : child.Nested tree.text := by
  obtain ⟨place, listed, rfl⟩ := child_place block child member
  exact nested place (below_root place block (child_below block place listed)).symm

theorem mark_of_nested (mark : Char) (size : mark.utf8Size = 1) (child : Node) (member : child ∈ block.node.children)
    (shown : tree.IsMark mark child) : child.stop = child.start + 1 ∧ tree.text.between child.start child.stop = [mark] := by
  have own := child_of_nested tree block nested child member
  have whole := text_of_nested tree child own
  have width := bytes_between tree.text _ _ own.first own.last own.ordered
  rw [← whole, shown.2, bytes_cons, size] at width
  exact ⟨width.symm, whole.symm.trans shown.2⟩

theorem block_children (form : tree.Braces block.node) : ∃ opening closing,
    block.node.children = opening :: (block.node.namedChildren ++ [closing]) ∧ opening.children = [] ∧ closing.children = [] ∧
      (opening.start = block.node.start ∧ opening.stop = block.node.start + 1 ∧
        tree.text.between block.node.start (block.node.start + 1) = ['\x7b']) ∧
      closing.start + 1 = block.node.stop ∧ closing.stop = block.node.stop ∧
        tree.text.between (block.node.stop - 1) block.node.stop = ['\x7d'] := by
  obtain ⟨opening, _, closing, _, shape, ⟨begins, openMark⟩, ends, closeMark⟩ := form.braces
  have openWhole := mark_of_nested tree block nested '\x7b' (by decide) opening (by rw [shape]; simp) openMark
  have closeWhole := mark_of_nested tree block nested '\x7d' (by decide) closing (by rw [shape]; simp) closeMark
  have stop : closing.start = block.node.stop - 1 := by omega
  exact ⟨opening, closing, shape, openMark.1, closeMark.1,
    ⟨begins, by rw [openWhole.1, begins], by rw [← begins, ← openWhole.1]; exact openWhole.2⟩, by omega, ends,
    by rw [← stop, ← ends]; exact closeWhole.2⟩

theorem block_parts (form : tree.Braces block.node) (filled : block.node.namedChildren ≠ []) : ∃ first last,
    block.node.namedChildren.head? = some first ∧ block.node.namedChildren.getLast? = some last ∧
      BlockParts tree.text block.node first last := by
  obtain ⟨opening, closing, shape, _, _, ⟨_, openStop, opened⟩, closeStart, closeStop, closed⟩ := block_children tree block nested form
  obtain ⟨first, head⟩ := Option.isSome_iff_exists.mp (List.isSome_head?.mpr filled)
  obtain ⟨last, ending⟩ := Option.isSome_iff_exists.mp (List.getLast?_isSome.mpr filled)
  have listed (child : Node) (member : child ∈ opening :: (block.node.namedChildren ++ [closing])) : child.Nested tree.text :=
    child_of_nested tree block nested child (shape ▸ member)
  have firstMember := List.mem_of_mem_head? head
  have lastMember := List.mem_of_getLast? ending
  have apart := (node_nested tree.text block nested).apart
  rw [shape] at apart
  obtain ⟨behind, inner⟩ := List.pairwise_cons.mp apart
  obtain ⟨named, _, across⟩ := List.pairwise_append.mp inner
  have firstNested := listed first (by simp [firstMember])
  have lastNested := listed last (by simp [lastMember])
  have ordered : first.start ≤ last.stop :=
    Nat.le_trans (between_edges _ (fun node member => (listed node (by simp [member])).ordered) named first last head ending last
      lastMember).1 lastNested.ordered
  have early := behind first (by simp [firstMember])
  have late := across last lastMember closing List.mem_cons_self
  have stop : closing.start = block.node.stop - 1 := by omega
  exact ⟨first, last, head, ending, ⟨openStop ▸ (listed opening List.mem_cons_self).last, opened⟩, openStop ▸ early, firstNested.first,
    ordered, lastNested.last, by omega, stop ▸ (listed closing (by simp)).first, closed⟩

-- What lies below a block and is no brace lies among its statements.
theorem below_statements (form : tree.Braces block.node) (first last : Node) (head : block.node.namedChildren.head? = some first)
    (ending : block.node.namedChildren.getLast? = some last) (place : Place) (below : place.Below block)
    (named : place.node.label.named = true) : first.start ≤ place.start ∧ place.stop ≤ last.stop := by
  obtain ⟨opening, closing, shape, openLeaf, closeLeaf, _⟩ := block_children tree block nested form
  obtain ⟨bare, other⟩ := braces_bare block.node opening closing shape
  obtain ⟨child, listed, within⟩ := below_child place block below
  have member : child.node ∈ block.node.children := child_node block child listed
  have leaf (brace : Node) (same : child.node = brace) (empty : brace.children = []) (unnamed : brace.label.named = false) : False := by
    rcases within with rfl | deep
    · rw [same, unnamed] at named
      exact Bool.noConfusion named
    · exact below_children place child deep (same ▸ empty)
  have statement : child.node ∈ block.node.namedChildren := by
    rw [shape, List.mem_cons, List.mem_append, List.mem_singleton] at member
    rcases member with brace | inner | brace
    · exact (leaf opening brace openLeaf bare).elim
    · exact inner
    · exact (leaf closing brace closeLeaf other).elim
  have present := fun node (inner : node ∈ block.node.namedChildren) =>
    child_of_nested tree block nested node (List.filter_sublist.subset inner)
  have apart := (node_nested tree.text block nested).apart.sublist (List.filter_sublist (p := (·.label.named)))
  have edges := between_edges _ (fun node inner => (present node inner).ordered) apart first last head ending child.node statement
  have deep := within_inside tree.text place child
    (in_nested_of_root tree.text block place nested (below_root place block below).symm) within
  exact ⟨Nat.le_trans edges.1 deep.1, Nat.le_trans deep.2 edges.2⟩

theorem block_gaps (form : tree.BlockForm space block.node) (first last : Node) (head : block.node.namedChildren.head? = some first)
    (ending : block.node.namedChildren.getLast? = some last) :
    (tree.text.between (block.node.start + 1) first.start).all space = true ∧
      (tree.text.between last.stop (block.node.stop - 1)).all space = true := by
  obtain ⟨opening, closing, shape, _, _, ⟨_, openStop, _⟩, closeStart, _⟩ := block_children tree block nested form.toBraces
  have stop : closing.start = block.node.stop - 1 := by omega
  have gaps := form.gaps
  rw [shape] at gaps
  constructor
  · obtain ⟨others, split⟩ := List.head?_eq_some_iff.mp head
    rw [split] at gaps
    exact openStop ▸ (List.isChain_cons_cons.mp gaps).1
  · rw [← List.cons_append] at gaps
    refine stop ▸ (List.isChain_append.mp gaps).2.2 last ?_ closing rfl
    rw [List.getLast?_cons, ending]
    rfl

end Blocks

section Passes

variable (tree : SourceTree) (nested : tree.Nests)

theorem unwrapped_body_filled (body : Place) (member : body ∈ tree.unwrappedBodies) : body.node.namedChildren ≠ [] := by
  intro none
  have wanted := ((mem_outermost_iff _ _ _).mp member).2.1
  simp [isUnwrappedBody, Node.needsWrapping, none] at wanted

include nested

theorem unwrapped_body_nested (body : Place) (member : body ∈ tree.unwrappedBodies) : body.InNested tree.text :=
  nests_in_nested tree nested body (mem_unwrapped_bodies tree body member)

theorem bodies_apart : tree.unwrappedBodies.Pairwise fun first second => first.stop ≤ second.start :=
  (outermost_apart_nested tree nested isUnwrappedBody).imp fun apart => apart.2.2

theorem bodies_in_order :
    InOrder tree.text 0 (tree.unwrappedBodies.map fun body => replace body.node (tree.wrappedBody body)) := by
  refine in_order_of_pairwise tree.text _ (fun edit member => ?_) (List.pairwise_map.mpr (bodies_apart tree nested))
  obtain ⟨body, listed, rfl⟩ := List.mem_map.mp member
  have own := node_nested tree.text body (unwrapped_body_nested tree nested body listed)
  exact ⟨own.ordered, own.first, own.last⟩

-- A pass puts the new text of each body in its place.
theorem pass_replaces : tree.wrapPass =
    .ok (replaced (tree.unwrappedBodies.map fun body => replace body.node (tree.wrappedBody body)) 0 tree.text) := by
  have sound := replaced_sound tree nested tree.unwrappedBodies (mem_unwrapped_bodies tree)
    (outermost_apart_nested tree nested isUnwrappedBody) tree.wrappedBody
  refine apply_replaced tree.text _ (fun edit member => ?_) sound.valid ?_
  · obtain ⟨_, _, rfl⟩ := List.mem_map.mp member
    rfl
  · exact List.pairwise_map.mpr ((bodies_apart tree nested).imp .inl)

end Passes

end SourceTree

end ScriptTidy
