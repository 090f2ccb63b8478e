import ScriptTidy.Proofs.Tree.WellFormed

/-! A place among its parent, siblings and children: what lies above it, and which child fills a field. -/

set_option autoImplicit false

namespace ScriptTidy

namespace Node

mutual
theorem places_preorder (above : List Step) (node : Node) : (node.placesVia above).map (·.node) = node.preorder := by
  cases node with
  | mk label children => rw [placesVia, preorder, List.map_cons, forest_places_preorder label above [] children]
theorem forest_places_preorder (parent : Label) (above : List Step) (passed nodes : List Node) :
    (forestPlacesVia parent above passed nodes).map (·.node) = forestPreorder nodes := by
  cases nodes with
  | nil => rfl
  | cons child rest =>
      rw [forestPlacesVia, forestPreorder, List.map_append, places_preorder _ child,
        forest_places_preorder parent above (child :: passed) rest]
end

end Node

namespace Place

theorem children_under_split (parent : Label) (above : List Step) (node : Node) (back front : List Node) : ∀ passed : List Node,
    ∃ ahead, childrenUnder parent above passed (front ++ node :: back) =
        ahead ++ ⟨node, ⟨parent, front.reverse ++ passed, back⟩ :: above⟩ ::
          childrenUnder parent above (node :: (front.reverse ++ passed)) back ∧
      ahead.map (·.node) = front := by
  induction front with
  | nil => exact fun _ => ⟨[], rfl, rfl⟩
  | cons first others ih =>
      intro passed
      obtain ⟨ahead, shape, nodes⟩ := ih (first :: passed)
      refine ⟨⟨first, ⟨parent, passed, others ++ node :: back⟩ :: above⟩ :: ahead, ?_, by rw [List.map_cons, nodes]⟩
      rw [List.cons_append, childrenUnder, shape]
      simp

theorem children_nodup (place : Place) : place.children.Nodup :=
  (children_earlier place).imp fun {first second} earlier => earlier_ne first second earlier

section Siblings

variable (place parent : Place) (above : place.parent? = some parent)

include above

-- The siblings in front of a place stand in front of it among the children of its parent.
theorem parent_split : ∃ ahead behind, parent.children = ahead ++ place :: behind ∧
    ahead.map (·.node) = place.before.reverse := by
  obtain ⟨node, steps⟩ := place
  cases steps with
  | nil => cases above
  | cons step higher =>
      obtain rfl := Option.some.inj above
      obtain ⟨ahead, shape, nodes⟩ := children_under_split step.parent higher node step.after step.before.reverse []
      refine ⟨ahead, childrenUnder step.parent higher (node :: step.before) step.after, ?_, nodes⟩
      simpa [children, Step.close, Node.label, Node.children] using shape

-- The first child with a property is the one without such a sibling in front.
theorem first_child_iff (wanted : Node → Bool) : parent.children.find? (fun child => wanted child.node) = some place ↔
    wanted place.node = true ∧ place.before.any wanted = false := by
  obtain ⟨ahead, behind, shape, nodes⟩ := parent_split place parent above
  have front : place.before.any wanted = ahead.any fun child => wanted child.node := by
    rw [← List.any_reverse, ← nodes, List.any_map]
    rfl
  rw [front, List.any_eq_false]
  constructor
  · intro found
    refine ⟨List.find?_some (p := fun child : Place => wanted child.node) found, fun other inside fits => ?_⟩
    rw [shape, List.find?_append] at found
    cases first : ahead.find? fun child => wanted child.node with
    | none => exact List.find?_eq_none.mp first other inside fits
    | some early =>
        rw [first] at found
        obtain rfl := Option.some.inj found
        have apart := children_nodup parent
        rw [shape] at apart
        exact (List.nodup_append.mp apart).2.2 early (List.mem_of_find?_eq_some first) early List.mem_cons_self rfl
  · rintro ⟨fits, clear⟩
    have none : ahead.find? (fun child => wanted child.node) = none := List.find?_eq_none.mpr clear
    rw [shape, List.find?_append, none, Option.none_or]
    exact List.find?_cons_of_pos (p := fun child : Place => wanted child.node) fits

end Siblings

theorem is_field_iff (place : Place) (field : String) : place.isField field = true ↔
    ∃ parent, place.parent? = some parent ∧ parent.childByField? field = some place := by
  cases above : place.parent? with
  | none =>
      have top : place.steps = [] := by
        obtain ⟨node, steps⟩ := place
        cases steps with
        | nil => rfl
        | cons step higher => cases above
      simp [isField, top]
  | some parent =>
      have inner : place.steps.isEmpty = false := by
        obtain ⟨node, steps⟩ := place
        cases steps with
        | nil => cases above
        | cons step higher => rfl
      have first := first_child_iff place parent above fun node => node.label.fields.contains field
      simp only [isField, inner, Bool.not_false, Bool.and_true, Bool.and_eq_true, Bool.not_eq_true']
      rw [← first]
      exact ⟨fun found => ⟨parent, rfl, found⟩, fun ⟨other, same, found⟩ => Option.some.inj same ▸ found⟩

theorem is_under_iff (place : Place) (kind : String) : place.isUnder kind = true ↔ ∃ top, place.Within top ∧ top.kind = kind := by
  rw [isUnder, Bool.or_eq_true, beq_iff_eq, List.any_eq_true]
  constructor
  · rintro (own | ⟨top, below, found⟩)
    · exact ⟨place, .inl rfl, own⟩
    · exact ⟨top, .inr below, by simpa using found⟩
  · rintro ⟨top, rfl | below, found⟩
    · exact .inl found
    · exact .inr ⟨top, below, by simpa using found⟩

-- Of two places above one, the other lies within the first or the other way round.
theorem within_chain (place one other : Place) (first : place.Within one) (second : place.Within other) :
    one.Within other ∨ other.Below one := by
  rcases first with rfl | first
  · exact .inl second
  · rcases second with rfl | second
    · exact .inr first
    · exact ancestors_chain place.steps place.node one other first second

theorem under_parent (place parent : Place) (kind : String) (above : place.parent? = some parent) :
    place.isUnder kind = (place.kind == kind || parent.isUnder kind) := by
  obtain ⟨node, steps⟩ := place
  cases steps with
  | nil => cases above
  | cons step higher =>
      obtain rfl := Option.some.inj above
      rfl

-- The address of a child ends with the number of siblings in front of it.
theorem children_under_address (parent : Label) (above : List Step) (nodes : List Node) : ∀ (passed : List Node) (index : Nat)
    (child : Place), (childrenUnder parent above passed nodes)[index]? = some child →
      child.address = (passed.length + index) :: above.map (·.before.length) := by
  induction nodes with
  | nil => exact fun _ _ _ found => absurd found (by simp [childrenUnder])
  | cons first others ih =>
      intro passed index child found
      rw [childrenUnder] at found
      cases index with
      | zero =>
          obtain rfl := Option.some.inj found
          rfl
      | succ index =>
          rw [List.getElem?_cons_succ] at found
          rw [ih (first :: passed) index child found, List.length_cons]
          congr 1
          omega

theorem child_address (place child : Place) (index : Nat) (found : place.children[index]? = some child) :
    child.address = index :: place.address := by
  have shape := children_under_address place.node.label place.steps place.node.children [] index child found
  rwa [List.length_nil, Nat.zero_add] at shape

theorem child_size (place child : Place) (member : child ∈ place.children) : sizeOf child.node < sizeOf place.node := by
  obtain ⟨⟨label, nodes⟩, steps⟩ := place
  have inside : child.node ∈ nodes := child_node _ child member
  have small := List.sizeOf_lt_of_mem inside
  simp only [Node.mk.sizeOf_spec]
  omega

theorem within_descendants (steps : List Step) : ∀ (node : Node) (top : Place), Within ⟨node, steps⟩ top →
    ⟨node, steps⟩ ∈ top.descendants := by
  induction steps with
  | nil =>
      intro node top within
      rcases within with same | below
      · exact same ▸ Node.places_head _ _
      · exact absurd below List.not_mem_nil
  | cons step above ih =>
      intro node top within
      have lower : (⟨node, step :: above⟩ : Place) ∈ children ⟨step.close node, above⟩ := (mem_children_iff _ _).mpr rfl
      rcases within with same | below
      · exact same ▸ Node.places_head _ _
      · have parent : Within ⟨step.close node, above⟩ top := by
          rcases List.mem_cons.mp below with same | higher
          · exact .inl same.symm
          · exact .inr higher
        exact Node.places_children top.steps top.node _ _ (ih _ top parent) lower

-- The nodes of the descendants are those of the tree below.
theorem descendant_nodes (place : Place) : place.descendants.map (·.node) = place.node.preorder :=
  Node.places_preorder place.steps place.node

end Place

namespace SourceTree

-- What holds of the root and passes from parents to children holds of all places.
theorem top_down (tree : SourceTree) (holds : Place → Prop) (top : holds tree.rootPlace)
    (step : ∀ parent child : Place, parent.root = tree.root → holds parent → child ∈ parent.children → holds child)
    (place : Place) (same : place.root = tree.root) : holds place := by
  obtain ⟨node, steps⟩ := place
  induction steps generalizing node with
  | nil => exact root_place_of_root tree ⟨node, []⟩ same rfl ▸ top
  | cons first above ih =>
      exact step ⟨first.close node, above⟩ ⟨node, first :: above⟩ same (ih (first.close node) same)
        ((Place.mem_children_iff _ _).mpr rfl)

end SourceTree

end ScriptTidy
