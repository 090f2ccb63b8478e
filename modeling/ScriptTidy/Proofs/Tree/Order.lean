import ScriptTidy.Tree.Place

/-! The places of one tree: what tells them apart, and how any two of them lie to each other. -/

set_option autoImplicit false

namespace ScriptTidy

theorem pairwise_either {α : Type} (related : α → α → Prop) (list : List α) (apart : list.Pairwise related) (first second : α)
    (one : first ∈ list) (other : second ∈ list) (different : first ≠ second) : related first second ∨ related second first :=
  List.Pairwise.forall_of_forall_of_flip (R := fun one two => one ≠ two → related one two ∨ related two one)
    (fun _ _ same => absurd rfl same) (apart.imp fun given _ => .inl given) (apart.imp fun given _ => .inr given) one other
    different

namespace Place

def rootVia (node : Node) : List Step → Node
  | [] => node
  | step :: above => rootVia (step.close node) above

-- The tree that a place is in.
def root (place : Place) : Node := rootVia place.node place.steps

def Below (place other : Place) : Prop := other ∈ place.ancestors

def Within (place other : Place) : Prop := place = other ∨ place.Below other

-- Siblings, the first one in front.
inductive Earlier : Place → Place → Prop where
  | siblings (parent : Label) (above : List Step) (passed : List Node) (first : Node) (middle : List Node) (second : Node)
      (rest : List Node) :
      Earlier ⟨first, ⟨parent, passed, middle ++ second :: rest⟩ :: above⟩
        ⟨second, ⟨parent, middle.reverse ++ first :: passed, rest⟩ :: above⟩

-- Two places in document order: the second lies below the first, or they lie in siblings.
def Follows (first second : Place) : Prop :=
  second.Below first ∨ ∃ left right, Earlier left right ∧ first.Within left ∧ second.Within right

theorem close_inj (first second : Step) (one other : Node) (same : first.close one = second.close other)
    (size : first.before.length = second.before.length) : one = other ∧ first = second := by
  obtain ⟨parent, before, after⟩ := first
  obtain ⟨otherParent, otherBefore, otherAfter⟩ := second
  simp only [Step.close, Node.mk.injEq] at same
  obtain ⟨rfl, lists⟩ := same
  obtain ⟨front, back⟩ := List.append_inj lists (by simpa using size)
  obtain ⟨rfl, rfl⟩ := List.cons.inj back
  exact ⟨rfl, by rw [List.reverse_inj.mp front]⟩

theorem root_via_inj (steps : List Step) : ∀ (others : List Step) (one other : Node),
    rootVia one steps = rootVia other others → steps.map (·.before.length) = others.map (·.before.length) →
      one = other ∧ steps = others := by
  induction steps with
  | nil =>
      intro others one other same sizes
      cases others with
      | nil => exact ⟨same, rfl⟩
      | cons step above => cases sizes
  | cons step above ih =>
      intro others one other same sizes
      cases others with
      | nil => cases sizes
      | cons otherStep otherAbove =>
          obtain ⟨size, later⟩ := List.cons.inj sizes
          obtain ⟨closed, rfl⟩ := ih otherAbove _ _ same later
          obtain ⟨rfl, rfl⟩ := close_inj step otherStep one other closed size
          exact ⟨rfl, rfl⟩

-- The address tells a place from all others of its tree.
theorem is_at_iff (place other : Place) (same : place.root = other.root) : place.isAt other = true ↔ place = other := by
  rw [isAt, beq_iff_eq]
  refine ⟨fun addresses => ?_, fun equal => equal ▸ rfl⟩
  obtain ⟨node, steps⟩ := place
  obtain ⟨otherNode, otherSteps⟩ := other
  obtain ⟨rfl, rfl⟩ := root_via_inj steps otherSteps node otherNode same addresses
  rfl

theorem ancestor_root (steps : List Step) : ∀ (node : Node) (other : Place), other ∈ ancestorsVia node steps →
    other.root = rootVia node steps := by
  induction steps with
  | nil => exact fun _ _ member => absurd member List.not_mem_nil
  | cons step above ih =>
      intro node other member
      rcases List.mem_cons.mp member with same | higher
      · exact same ▸ rfl
      · exact ih _ other higher

theorem below_root (place other : Place) (below : place.Below other) : other.root = place.root :=
  ancestor_root place.steps place.node other below

theorem within_root (place other : Place) (within : place.Within other) : other.root = place.root := by
  rcases within with same | below
  · rw [same]
  · exact below_root place other below

theorem is_within_iff (place other : Place) (same : place.root = other.root) :
    place.isWithin other = true ↔ place.Within other := by
  rw [isWithin, Bool.or_eq_true, is_at_iff place other same, List.any_eq_true]
  refine or_congr Iff.rfl ⟨fun ⟨higher, member, found⟩ => ?_, fun below => ⟨other, below, ?_⟩⟩
  · rw [is_at_iff higher other ((below_root place higher member).trans same)] at found
    exact found ▸ member
  · exact (is_at_iff other other rfl).mpr rfl

theorem ancestor_trans (steps : List Step) : ∀ (node : Node) (middle top : Place), middle ∈ ancestorsVia node steps →
    top ∈ middle.ancestors → top ∈ ancestorsVia node steps := by
  induction steps with
  | nil => exact fun _ _ _ member _ => absurd member List.not_mem_nil
  | cons step above ih =>
      intro node middle top member higher
      rcases List.mem_cons.mp member with same | later
      · subst same
        exact List.mem_cons_of_mem _ higher
      · exact List.mem_cons_of_mem _ (ih _ middle top later higher)

theorem below_trans (place middle top : Place) (first : place.Below middle) (second : middle.Below top) : place.Below top :=
  ancestor_trans place.steps place.node middle top first second

theorem within_trans (place middle top : Place) (first : place.Within middle) (second : middle.Within top) :
    place.Within top := by
  rcases first with rfl | first
  · exact second
  · rcases second with rfl | second
    · exact .inr first
    · exact .inr (below_trans place middle top first second)

theorem ancestors_length (steps : List Step) : ∀ (node : Node) (other : Place), other ∈ ancestorsVia node steps →
    other.steps.length < steps.length := by
  induction steps with
  | nil => exact fun _ _ member => absurd member List.not_mem_nil
  | cons step above ih =>
      intro node other member
      rcases List.mem_cons.mp member with same | higher
      · exact same ▸ Nat.lt_succ_self _
      · exact Nat.lt_succ_of_lt (ih _ other higher)

theorem below_steps (place other : Place) (below : place.Below other) : other.steps.length < place.steps.length :=
  ancestors_length place.steps place.node other below

-- Two places above one place lie above each other.
theorem ancestors_chain (steps : List Step) : ∀ (node : Node) (one other : Place), one ∈ ancestorsVia node steps →
    other ∈ ancestorsVia node steps → one.Within other ∨ other.Below one := by
  induction steps with
  | nil => exact fun _ _ _ member _ => absurd member List.not_mem_nil
  | cons step above ih =>
      intro node one other first second
      rcases List.mem_cons.mp first with rfl | first
      · rcases List.mem_cons.mp second with same | second
        · exact .inl (.inl same.symm)
        · exact .inl (.inr second)
      · rcases List.mem_cons.mp second with rfl | second
        · exact .inr first
        · exact ih _ one other first second

theorem mem_children_under (parent : Label) (above : List Step) (children : List Node) : ∀ (passed : List Node) (place : Place),
    place ∈ childrenUnder parent above passed children ↔ ∃ middle child rest, children = middle ++ child :: rest ∧
      place = ⟨child, ⟨parent, middle.reverse ++ passed, rest⟩ :: above⟩ := by
  induction children with
  | nil => simp [childrenUnder]
  | cons first others ih =>
      intro passed place
      rw [childrenUnder, List.mem_cons, ih]
      constructor
      · rintro (rfl | ⟨middle, child, rest, rfl, rfl⟩)
        · exact ⟨[], first, others, rfl, rfl⟩
        · exact ⟨first :: middle, child, rest, rfl, by simp⟩
      · rintro ⟨middle, child, rest, shape, rfl⟩
        cases middle with
        | nil =>
            obtain ⟨rfl, rfl⟩ := List.cons.inj shape
            exact .inl rfl
        | cons head tail =>
            obtain ⟨rfl, rfl⟩ := List.cons.inj shape
            exact .inr ⟨tail, child, rest, rfl, by simp⟩

theorem children_under_earlier (parent : Label) (above : List Step) (children : List Node) : ∀ passed : List Node,
    (childrenUnder parent above passed children).Pairwise Earlier := by
  induction children with
  | nil => exact fun _ => .nil
  | cons first others ih =>
      intro passed
      refine List.pairwise_cons.mpr ⟨fun place member => ?_, ih (first :: passed)⟩
      obtain ⟨middle, child, rest, rfl, rfl⟩ := (mem_children_under parent above others (first :: passed) place).mp member
      exact .siblings parent above passed first middle child rest

theorem children_earlier (place : Place) : place.children.Pairwise Earlier :=
  children_under_earlier place.node.label place.steps place.node.children []

theorem mem_children_iff (place child : Place) : child ∈ place.children ↔ child.parent? = some place := by
  obtain ⟨⟨label, nodes⟩, steps⟩ := place
  rw [children, mem_children_under]
  constructor
  · rintro ⟨middle, node, rest, shape, rfl⟩
    have shape' : nodes = middle ++ node :: rest := shape
    simp [parent?, Step.close, shape', Node.label]
  · intro parent
    obtain ⟨node, childSteps⟩ := child
    cases childSteps with
    | nil => cases parent
    | cons step above =>
        simp only [parent?, Step.close, Option.some.injEq, mk.injEq, Node.mk.injEq] at parent
        obtain ⟨⟨rfl, rfl⟩, rfl⟩ := parent
        exact ⟨step.before.reverse, node, step.after, rfl, by simp [Node.label]⟩

theorem children_cases (parent first second : Place) (one : first.parent? = some parent) (other : second.parent? = some parent)
    (different : first ≠ second) : first.Earlier second ∨ second.Earlier first :=
  pairwise_either Earlier _ (children_earlier parent) first second ((mem_children_iff parent first).mpr one)
    ((mem_children_iff parent second).mpr other) different

theorem parent_below (place parent : Place) (above : place.parent? = some parent) : place.Below parent := by
  obtain ⟨node, steps⟩ := place
  cases steps with
  | nil => cases above
  | cons step higher =>
      obtain rfl := Option.some.inj above
      exact List.mem_cons_self

theorem child_below (place child : Place) (member : child ∈ place.children) : child.Below place :=
  parent_below child place ((mem_children_iff place child).mp member)

-- A place above another is its parent or lies above the parent.
theorem below_parent (place other : Place) (below : place.Below other) :
    ∃ parent, place.parent? = some parent ∧ parent.Within other := by
  obtain ⟨node, steps⟩ := place
  cases steps with
  | nil => exact absurd below List.not_mem_nil
  | cons step higher =>
      refine ⟨_, rfl, ?_⟩
      rcases List.mem_cons.mp below with same | later
      · exact .inl same.symm
      · exact .inr later

-- A place below another is one of its children or lies below one.
theorem below_child (place other : Place) (below : place.Below other) : ∃ child ∈ other.children, place.Within child := by
  obtain ⟨node, steps⟩ := place
  induction steps generalizing node with
  | nil => exact absurd below List.not_mem_nil
  | cons step above ih =>
      rcases List.mem_cons.mp below with same | higher
      · exact ⟨⟨node, step :: above⟩, (mem_children_iff other _).mpr (congrArg some same.symm), .inl rfl⟩
      · obtain ⟨child, listed, within⟩ := ih (step.close node) higher
        exact ⟨child, listed, within_trans _ _ _ (.inr List.mem_cons_self) within⟩

end Place

namespace Node

open Place

theorem mem_forest_places (parent : Label) (above : List Step) (place : Place) (forest : List Node) : ∀ passed : List Node,
    place ∈ forestPlacesVia parent above passed forest ↔ ∃ middle child rest, forest = middle ++ child :: rest ∧
      place ∈ placesVia (⟨parent, middle.reverse ++ passed, rest⟩ :: above) child := by
  induction forest with
  | nil => simp [forestPlacesVia]
  | cons first others ih =>
      intro passed
      rw [forestPlacesVia, List.mem_append, ih]
      constructor
      · rintro (inside | ⟨middle, child, rest, rfl, inside⟩)
        · exact ⟨[], first, others, rfl, inside⟩
        · exact ⟨first :: middle, child, rest, rfl, by simpa using inside⟩
      · rintro ⟨middle, child, rest, shape, inside⟩
        cases middle with
        | nil =>
            obtain ⟨rfl, rfl⟩ := List.cons.inj shape
            exact .inl inside
        | cons head tail =>
            obtain ⟨rfl, rfl⟩ := List.cons.inj shape
            exact .inr ⟨tail, child, rest, rfl, by simpa using inside⟩

theorem places_head (above : List Step) (node : Node) : ⟨node, above⟩ ∈ placesVia above node := by
  cases node with
  | mk label children => exact List.mem_cons_self

mutual
theorem places_within (above : List Step) (node : Node) (place : Place) (member : place ∈ placesVia above node) :
    place.Within ⟨node, above⟩ := by
  cases node with
  | mk label children =>
      rcases List.mem_cons.mp member with same | lower
      · exact .inl same
      · exact .inr (forest_places_below label above [] children place lower)
theorem forest_places_below (parent : Label) (above : List Step) (passed : List Node) (forest : List Node) (place : Place)
    (member : place ∈ forestPlacesVia parent above passed forest) :
    place.Below ⟨.mk parent (passed.reverse ++ forest), above⟩ := by
  cases forest with
  | nil => exact absurd member List.not_mem_nil
  | cons child rest =>
      rcases List.mem_append.mp member with inside | later
      · have step : (⟨child, ⟨parent, passed, rest⟩ :: above⟩ : Place).Below ⟨.mk parent (passed.reverse ++ child :: rest), above⟩ :=
          List.mem_cons_self
        rcases places_within _ child place inside with same | below
        · exact same ▸ step
        · exact below_trans place _ _ below step
      · have below := forest_places_below parent above (child :: passed) rest place later
        simpa using below
end

mutual
theorem places_follow (above : List Step) (node : Node) : (placesVia above node).Pairwise Follows := by
  cases node with
  | mk label children =>
      exact List.pairwise_cons.mpr ⟨fun place member => .inl (forest_places_below label above [] children place member),
        forest_places_follow label above [] children⟩
theorem forest_places_follow (parent : Label) (above : List Step) (passed : List Node) (forest : List Node) :
    (forestPlacesVia parent above passed forest).Pairwise Follows := by
  cases forest with
  | nil => exact .nil
  | cons child rest =>
      refine List.pairwise_append.mpr ⟨places_follow _ child, forest_places_follow parent above (child :: passed) rest,
        fun first inside second later => .inr ?_⟩
      obtain ⟨middle, other, others, rfl, inner⟩ := (mem_forest_places parent above second rest (child :: passed)).mp later
      exact ⟨_, _, .siblings parent above passed child middle other others, places_within _ child first inside,
        places_within _ other second inner⟩
end

theorem places_root (above : List Step) (node : Node) (place : Place) (member : place ∈ placesVia above node) :
    place.root = rootVia node above :=
  (within_root place ⟨node, above⟩ (places_within above node place member)).symm

mutual
theorem places_children (above : List Step) (node : Node) (place child : Place) (member : place ∈ placesVia above node)
    (lower : child ∈ place.children) : child ∈ placesVia above node := by
  cases node with
  | mk label children =>
      rcases List.mem_cons.mp member with same | inside
      · subst same
        obtain ⟨middle, inner, rest, shape, rfl⟩ := (mem_children_under label above children [] child).mp lower
        refine List.mem_cons_of_mem _ ((mem_forest_places label above _ children []).mpr ⟨middle, inner, rest, shape, ?_⟩)
        exact places_head _ inner
      · exact List.mem_cons_of_mem _ (forest_places_children label above [] children place child inside lower)
theorem forest_places_children (parent : Label) (above : List Step) (passed : List Node) (forest : List Node)
    (place child : Place) (member : place ∈ forestPlacesVia parent above passed forest) (lower : child ∈ place.children) :
    child ∈ forestPlacesVia parent above passed forest := by
  cases forest with
  | nil => exact absurd member List.not_mem_nil
  | cons first rest =>
      rcases List.mem_append.mp member with inside | later
      · exact List.mem_append_left _ (places_children _ first place child inside lower)
      · exact List.mem_append_right _ (forest_places_children parent above (first :: passed) rest place child later lower)
end

theorem mem_places_of_root (steps : List Step) : ∀ (node root : Node), rootVia node steps = root →
    (⟨node, steps⟩ : Place) ∈ root.places := by
  induction steps with
  | nil => exact fun node root same => same ▸ places_head [] node
  | cons step above ih =>
      intro node root same
      exact places_children [] root _ _ (ih (step.close node) root same) ((mem_children_iff _ _).mpr rfl)

-- The places of a tree are those that lead up to its root.
theorem mem_places_iff (root : Node) (place : Place) : place ∈ root.places ↔ place.root = root :=
  ⟨fun member => places_root [] root place member, fun same => mem_places_of_root place.steps place.node root same⟩

theorem places_apart (root : Node) : root.places.Pairwise Follows := places_follow [] root

end Node

end ScriptTidy
