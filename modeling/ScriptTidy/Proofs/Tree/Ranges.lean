import ScriptTidy.Proofs.Text.Offset
import ScriptTidy.Proofs.Tree.Order

/-! The bytes that places cover: children inside their parent, siblings one behind another. -/

set_option autoImplicit false

namespace ScriptTidy

open Text

structure Node.Nested (text : Text) (node : Node) : Prop where
  ordered : node.start ≤ node.stop
  first : text.IsBoundary node.start
  last : text.IsBoundary node.stop
  inside : ∀ child ∈ node.children, node.start ≤ child.start ∧ child.stop ≤ node.stop
  apart : node.children.Pairwise fun earlier later => earlier.stop ≤ later.start

instance (text : Text) (node : Node) : Decidable (node.Nested text) :=
  decidable_of_iff (node.start ≤ node.stop ∧ text.IsBoundary node.start ∧ text.IsBoundary node.stop ∧
      (∀ child ∈ node.children, node.start ≤ child.start ∧ child.stop ≤ node.stop) ∧
      node.children.Pairwise fun earlier later => earlier.stop ≤ later.start)
    ⟨fun ⟨ordered, first, last, inside, apart⟩ => ⟨ordered, first, last, inside, apart⟩,
      fun nested => ⟨nested.ordered, nested.first, nested.last, nested.inside, nested.apart⟩⟩

-- In a text of narrow characters each offset is a boundary.
def Node.Ordered (length : Nat) (node : Node) : Prop :=
  node.start ≤ node.stop ∧ node.stop ≤ length ∧ (∀ child ∈ node.children, node.start ≤ child.start ∧ child.stop ≤ node.stop) ∧
    node.children.Pairwise fun earlier later => earlier.stop ≤ later.start

instance (length : Nat) (node : Node) : Decidable (node.Ordered length) := inferInstanceAs (Decidable (_ ∧ _))

theorem Node.nested_of_ordered (text : Text) (narrow : text.IsNarrow) (node : Node) (ordered : node.Ordered text.length) :
    node.Nested text := by
  obtain ⟨forward, within, inside, apart⟩ := ordered
  exact ⟨forward, boundary_narrow text narrow _ (Nat.le_trans forward within), boundary_narrow text narrow _ within, inside, apart⟩

namespace Place

-- All places of the tree that a place is in have their bytes in order.
def InNested (text : Text) (place : Place) : Prop := ∀ other : Place, other.root = place.root → other.node.Nested text

variable (text : Text) (place other : Place)

theorem in_nested_of_root (nested : place.InNested text) (same : other.root = place.root) : other.InNested text :=
  fun third equal => nested third (equal.trans same)

theorem node_nested (nested : place.InNested text) : place.node.Nested text := nested place rfl

theorem parent_root (parent : Place) (above : place.parent? = some parent) : parent.root = place.root :=
  below_root place parent (parent_below place parent above)

theorem parent_children (parent : Place) (above : place.parent? = some parent) :
    parent.node.children = place.before.reverse ++ place.node :: place.after := by
  obtain ⟨node, steps⟩ := place
  cases steps with
  | nil => cases above
  | cons step higher =>
      obtain rfl := Option.some.inj above
      rfl

theorem siblings_of_root (top : place.parent? = none) : place.before = [] ∧ place.after = [] := by
  obtain ⟨node, steps⟩ := place
  cases steps with
  | nil => exact ⟨rfl, rfl⟩
  | cons step higher => cases top

theorem siblings_apart (nested : place.InNested text) :
    (∀ sibling ∈ place.before, sibling.stop ≤ place.start) ∧ (∀ sibling ∈ place.after, place.stop ≤ sibling.start) ∧
      (place.before.Pairwise fun nearer farther => farther.stop ≤ nearer.start) ∧
      place.after.Pairwise fun nearer farther => nearer.stop ≤ farther.start := by
  cases above : place.parent? with
  | none =>
      obtain ⟨front, back⟩ := siblings_of_root place above
      rw [front, back]
      exact ⟨fun _ member => absurd member List.not_mem_nil, fun _ member => absurd member List.not_mem_nil, .nil, .nil⟩
  | some parent =>
      have apart := (nested parent (parent_root place parent above)).apart
      rw [parent_children place parent above] at apart
      obtain ⟨front, tail, across⟩ := List.pairwise_append.mp apart
      obtain ⟨behind, back⟩ := List.pairwise_cons.mp tail
      exact ⟨fun sibling member => across sibling (List.mem_reverse.mpr member) place.node List.mem_cons_self, behind,
        List.pairwise_reverse.mp front, back⟩

theorem child_place (node : Node) (member : node ∈ place.node.children) : ∃ child ∈ place.children, child.node = node := by
  obtain ⟨front, back, shape⟩ := List.append_of_mem member
  exact ⟨_, (mem_children_under place.node.label place.steps place.node.children [] _).mpr ⟨front, node, back, shape, rfl⟩, rfl⟩

theorem child_node (child : Place) (member : child ∈ place.children) : child.node ∈ place.node.children := by
  obtain ⟨middle, node, rest, shape, rfl⟩ := (mem_children_under place.node.label place.steps place.node.children [] child).mp member
  exact shape ▸ List.mem_append_right middle List.mem_cons_self

-- Each sibling is a place of the same tree.
theorem sibling_place (sibling : Node) (member : sibling ∈ place.before ++ place.after) :
    ∃ other : Place, other.node = sibling ∧ other.root = place.root := by
  cases above : place.parent? with
  | none =>
      obtain ⟨front, back⟩ := siblings_of_root place above
      rw [front, back] at member
      exact absurd member List.not_mem_nil
  | some parent =>
      have present : sibling ∈ parent.node.children := by
        rw [parent_children place parent above]
        rcases List.mem_append.mp member with front | back
        · exact List.mem_append_left _ (List.mem_reverse.mpr front)
        · exact List.mem_append_right _ (List.mem_cons_of_mem _ back)
      obtain ⟨child, listed, shape⟩ := child_place parent sibling present
      have same := below_root child parent (child_below parent child listed)
      exact ⟨child, shape, same.symm.trans (parent_root place parent above)⟩

theorem siblings_nested (nested : place.InNested text) (sibling : Node) (member : sibling ∈ place.before ++ place.after) :
    sibling.Nested text := by
  obtain ⟨other, rfl, same⟩ := sibling_place place sibling member
  exact nested other same

theorem siblings_inside (nested : place.InNested text) (parent : Place) (above : place.parent? = some parent)
    (sibling : Node) (member : sibling ∈ place.before ∨ sibling = place.node ∨ sibling ∈ place.after) :
    parent.start ≤ sibling.start ∧ sibling.stop ≤ parent.stop := by
  apply (nested parent (parent_root place parent above)).inside
  rw [parent_children place parent above, List.mem_append, List.mem_reverse, List.mem_cons]
  exact member

theorem below_inside (nested : place.InNested text) (below : place.Below other) :
    other.start ≤ place.start ∧ place.stop ≤ other.stop := by
  obtain ⟨node, steps⟩ := place
  induction steps generalizing node with
  | nil => exact absurd below List.not_mem_nil
  | cons step above ih =>
      have first := siblings_inside text _ nested _ rfl node (.inr (.inl rfl))
      rcases List.mem_cons.mp below with same | higher
      · exact same ▸ first
      · have bounds := ih (step.close node) nested higher
        exact ⟨Nat.le_trans bounds.1 first.1, Nat.le_trans first.2 bounds.2⟩

omit text in
theorem below_children (below : place.Below other) : other.node.children ≠ [] := by
  obtain ⟨child, listed, _⟩ := below_child place other below
  intro empty
  rw [children, empty] at listed
  exact absurd listed List.not_mem_nil

theorem within_inside (nested : place.InNested text) (within : place.Within other) :
    other.start ≤ place.start ∧ place.stop ≤ other.stop := by
  rcases within with rfl | below
  · exact ⟨Nat.le_refl _, Nat.le_refl _⟩
  · exact below_inside text place other nested below

theorem earlier_root (earlier : place.Earlier other) : other.root = place.root := by
  cases earlier with
  | siblings parent above passed first middle second rest => simp [root, rootVia, Step.close]

theorem earlier_apart (nested : place.InNested text) (earlier : place.Earlier other) : place.stop ≤ other.start := by
  cases earlier with
  | siblings parent above passed first middle second rest =>
      exact (siblings_apart text _ nested).2.1 second (List.mem_append_right middle List.mem_cons_self)

-- Places in different siblings have no byte in common.
theorem within_apart (left right : Place) (nested : place.InNested text) (nestedOther : other.InNested text)
    (earlier : Earlier left right) (first : place.Within left) (second : other.Within right) : place.stop ≤ other.start := by
  have same : left.root = place.root := within_root place left first
  have front := within_inside text place left nested first
  have back := within_inside text other right nestedOther second
  have middle := earlier_apart text left right (in_nested_of_root text place left nested same) earlier
  omega

theorem earlier_ne (earlier : place.Earlier other) : place ≠ other := by
  cases earlier with
  | siblings parent above passed first middle second rest =>
      intro same
      have sizes := congrArg (fun place : Place => place.before.length) same
      simp [before] at sizes
      omega

theorem earlier_steps (earlier : place.Earlier other) : place.steps.length = other.steps.length := by
  cases earlier with
  | siblings parent above passed first middle second rest => rfl

-- No place lies in two siblings.
theorem within_unique (left right : Place) (earlier : Earlier left right) (first : place.Within left)
    (second : place.Within right) : False := by
  have size := earlier_steps left right earlier
  rcases first with rfl | first
  · rcases second with same | second
    · exact earlier_ne place right earlier same
    · have deep := below_steps place right second
      omega
  · rcases second with rfl | second
    · have deep := below_steps place left first
      omega
    · rcases ancestors_chain place.steps place.node left right first second with within | below
      · rcases within with same | below
        · exact earlier_ne left right earlier same
        · have deep := below_steps left right below
          omega
      · have deep := below_steps right left below
        omega

-- What comes first in a document lies in nothing that comes later.
theorem follows_out (follows : place.Follows other) : ¬ place.Within other := by
  intro within
  rcases follows with below | ⟨left, right, earlier, first, second⟩
  · have deep := below_steps other place below
    rcases within with rfl | higher
    · omega
    · have deeper := below_steps place other higher
      omega
  · exact within_unique place left right earlier first (within_trans place other right within second)

-- Two places of one tree that do not lie in each other lie in two siblings.
theorem unrelated_cases (same : place.root = other.root) (out : ¬ place.Within other) (away : ¬ other.Within place) :
    (∃ left right, Earlier left right ∧ place.Within left ∧ other.Within right) ∨
      ∃ left right, Earlier left right ∧ other.Within left ∧ place.Within right := by
  have first := (Node.mem_places_iff other.root place).mpr same
  have second := (Node.mem_places_iff other.root other).mpr rfl
  have different : place ≠ other := fun equal => out (.inl equal)
  have either := pairwise_either Follows _ (Node.places_apart other.root) place other first second different
  rcases either with (below | siblings) | (below | siblings)
  · exact absurd (.inr below) away
  · exact .inl siblings
  · exact absurd (.inr below) out
  · exact .inr siblings

-- A grammar in which comments hold nothing.
def LeafComments (place : Place) : Prop :=
  ∀ other : Place, other.root = place.root → other.node.isComment = true → other.node.children = []

theorem within_solid (top : Place) (leaves : LeafComments place) (within : place.Within top)
    (solid : place.node.isComment = false) : top.node.isComment = false := by
  rcases within with rfl | below
  · exact solid
  · cases comment : top.node.isComment with
    | false => rfl
    | true => exact absurd (leaves top (below_root place top below) comment) (below_children place top below)

end Place

end ScriptTidy
