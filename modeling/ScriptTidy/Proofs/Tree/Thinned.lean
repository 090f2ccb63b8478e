import Mathlib.Data.List.Find
import Mathlib.Data.List.Nodup
import ScriptTidy.Proofs.Tree.Family

/-! Trees from which places are taken out, and where the places that are left come from. -/

set_option autoImplicit false

namespace ScriptTidy.SourceTree

open Place

-- The children that stay when all places that satisfy `gone` are taken out.
def staying (gone : Place → Bool) (place : Place) : List Place := place.children.filter fun child => !gone child

-- The place of `tree` that is still there as a place of what is left: the way down to it leads through children that stay.
def origin (tree : SourceTree) (gone : Place → Bool) (place : Place) : Place :=
  place.address.foldr (fun index parent => (staying gone parent)[index]?.getD parent) tree.rootPlace

-- What is left of a tree. A place keeps its text unless something is taken out of it.
structure Thinned (tree left : SourceTree) (gone : Place → Bool) : Prop where
  dialect : left.dialect = tree.dialect
  root : gone tree.rootPlace = false
  kinds : ∀ place ∈ left.places, place.kind = (origin tree gone place).kind
  fields : ∀ place ∈ left.places, place.node.label.fields = (origin tree gone place).node.label.fields
  named : ∀ place ∈ left.places, place.node.label.named = (origin tree gone place).node.label.named
  children : ∀ place ∈ left.places, place.children.length = (staying gone (origin tree gone place)).length
  texts : ∀ place ∈ left.places, (∀ lower ∈ (origin tree gone place).descendants, gone lower = false) →
    left.textOf place.node = tree.textOf (origin tree gone place).node

instance (tree left : SourceTree) (gone : Place → Bool) : Decidable (Thinned tree left gone) :=
  decidable_of_iff (left.dialect = tree.dialect ∧ gone tree.rootPlace = false ∧ ∀ place ∈ left.places,
      place.kind = (origin tree gone place).kind ∧
        place.node.label.fields = (origin tree gone place).node.label.fields ∧
        place.node.label.named = (origin tree gone place).node.label.named ∧
        place.children.length = (staying gone (origin tree gone place)).length ∧
        ((∀ lower ∈ (origin tree gone place).descendants, gone lower = false) →
          left.textOf place.node = tree.textOf (origin tree gone place).node))
    ⟨fun ⟨dialect, root, each⟩ => ⟨dialect, root, fun place member => (each place member).1,
        fun place member => (each place member).2.1, fun place member => (each place member).2.2.1,
        fun place member => (each place member).2.2.2.1, fun place member => (each place member).2.2.2.2⟩,
      fun thinned => ⟨thinned.dialect, thinned.root, fun place member => ⟨thinned.kinds place member,
        thinned.fields place member, thinned.named place member, thinned.children place member, thinned.texts place member⟩⟩⟩

section Origin

variable (tree left : SourceTree) (gone : Place → Bool) (place : Place)

theorem mem_staying (child : Place) : child ∈ staying gone place ↔ child ∈ place.children ∧ gone child = false := by
  rw [staying, List.mem_filter, Bool.not_eq_true']

theorem origin_root : origin tree gone left.rootPlace = tree.rootPlace := rfl

theorem origin_in_tree : (origin tree gone place).root = tree.root := by
  rw [origin]
  induction place.address with
  | nil => rfl
  | cons index above ih =>
      rw [List.foldr_cons]
      generalize above.foldr (fun index parent => (staying gone parent)[index]?.getD parent) tree.rootPlace = parent at ih ⊢
      cases found : (staying gone parent)[index]? with
      | none => exact ih
      | some child =>
          have stays := (mem_staying gone parent child).mp (List.mem_of_getElem? found)
          exact (parent_root child parent ((mem_children_iff parent child).mp stays.1)).symm.trans ih

variable (thinned : Thinned tree left gone) (same : place.root = left.root)

include thinned same

-- The children of a place come from those that stay, in their order.
theorem children_origin : place.children.map (origin tree gone) = staying gone (origin tree gone place) := by
  have length := thinned.children place ((mem_places_iff left place).mpr same)
  refine List.ext_getElem (by rw [List.length_map, length]) fun index first second => ?_
  rw [List.length_map] at first
  have address := child_address place place.children[index] index (List.getElem?_eq_getElem first)
  have below : origin tree gone place.children[index] =
      (staying gone (origin tree gone place))[index]?.getD (origin tree gone place) := by
    rw [origin, address, List.foldr_cons]
    rfl
  rw [List.getElem_map, below, List.getElem?_eq_getElem second]
  rfl

theorem origin_child (child : Place) (member : child ∈ place.children) :
    origin tree gone child ∈ (origin tree gone place).children ∧ gone (origin tree gone child) = false := by
  rw [← mem_staying, ← children_origin tree left gone place thinned same]
  exact List.mem_map_of_mem member

theorem child_of_origin (child : Place) (member : child ∈ (origin tree gone place).children) (stays : gone child = false) :
    ∃ lower ∈ place.children, origin tree gone lower = child := by
  have listed := (mem_staying gone (origin tree gone place) child).mpr ⟨member, stays⟩
  rw [← children_origin tree left gone place thinned same] at listed
  exact List.mem_map.mp listed

theorem origin_siblings (one other : Place) (first : one ∈ place.children) (second : other ∈ place.children)
    (equal : origin tree gone one = origin tree gone other) : one = other := by
  have apart : (place.children.map (origin tree gone)).Nodup := by
    rw [children_origin tree left gone place thinned same]
    exact (children_nodup (origin tree gone place)).filter _
  exact List.inj_on_of_nodup_map apart first second equal

theorem origin_parent : (origin tree gone place).parent? = place.parent?.map (origin tree gone) := by
  cases above : place.parent? with
  | none =>
      have top : place.steps = [] := by
        obtain ⟨node, steps⟩ := place
        cases steps with
        | nil => rfl
        | cons step higher => cases above
      rw [root_place_of_root left place same top]
      rfl
  | some parent =>
      have root := (parent_root place parent above).trans same
      exact (mem_children_iff _ _).mp
        (origin_child tree left gone parent thinned root place ((mem_children_iff parent place).mpr above)).1

omit same in
theorem origin_under (kind : String) : ∀ place : Place, place.root = left.root →
    (origin tree gone place).isUnder kind = place.isUnder kind := by
  refine top_down left _ ?_ fun parent child root holds member => ?_
  · have own := thinned.kinds left.rootPlace ((mem_places_iff left left.rootPlace).mpr rfl)
    have alone : ∀ other : SourceTree, other.rootPlace.isUnder kind = (other.rootPlace.kind == kind) := fun _ => Bool.or_false _
    rw [origin_root, alone, alone, own, origin_root]
  · have above := (mem_children_iff parent child).mp member
    have lower := (mem_children_iff _ _).mp (origin_child tree left gone parent thinned root child member).1
    have own := thinned.kinds child ((mem_places_iff left child).mpr ((parent_root child parent above).symm.trans root))
    rw [under_parent _ _ kind lower, under_parent child parent kind above, holds, own]

section Intact

variable (intact : ∀ child ∈ (origin tree gone place).children, gone child = false)

include intact

-- A place that loses no child has the same answers as what it comes from.
theorem find_origin (wanted : Place → Bool)
    (agree : ∀ child ∈ place.children, wanted (origin tree gone child) = wanted child) :
    (origin tree gone place).children.find? wanted = (place.children.find? wanted).map (origin tree gone) := by
  have all : staying gone (origin tree gone place) = (origin tree gone place).children :=
    List.filter_eq_self.mpr fun child member => by rw [intact child member, Bool.not_false]
  rw [← all, ← children_origin tree left gone place thinned same, List.find?_map]
  exact congrArg (Option.map (origin tree gone)) (List.find?_congr agree)

theorem field_origin (field : String) : (origin tree gone place).childByField? field =
    (place.childByField? field).map (origin tree gone) := by
  refine find_origin tree left gone place thinned same intact _ fun child member => ?_
  have root := (parent_root child place ((mem_children_iff place child).mp member)).symm.trans same
  rw [thinned.fields child ((mem_places_iff left child).mpr root)]

theorem first_named_origin : (origin tree gone place).namedChildren.head? =
    place.namedChildren.head?.map (origin tree gone) := by
  rw [namedChildren, namedChildren, List.head?_filter, List.head?_filter]
  refine find_origin tree left gone place thinned same intact _ fun child member => ?_
  have root := (parent_root child place ((mem_children_iff place child).mp member)).symm.trans same
  rw [thinned.named child ((mem_places_iff left child).mpr root)]

end Intact

-- Nothing that is left was taken out or lies below what was.
omit same in
theorem origin_stays (top : Place) : ∀ place : Place, place.root = left.root →
    (origin tree gone place).Within top → gone top = false := by
  refine top_down left _ (fun within => ?_) fun parent child root holds member within => ?_
  · rcases within with same | below
    · exact same ▸ thinned.root
    · exact absurd below List.not_mem_nil
  · have lower := origin_child tree left gone parent thinned root child member
    rcases within with same | below
    · exact same ▸ lower.2
    · obtain ⟨higher, above, within⟩ := below_parent _ _ below
      obtain rfl := Option.some.inj (((mem_children_iff _ _).mp lower.1).symm.trans above)
      exact holds within

-- All else is left.
omit same in
theorem origin_covers : ∀ place : Place, place.root = tree.root → (∀ top, place.Within top → gone top = false) →
    ∃ lower : Place, lower.root = left.root ∧ origin tree gone lower = place := by
  refine top_down tree _ (fun _ => ⟨left.rootPlace, rfl, rfl⟩) fun parent child root holds member stays => ?_
  have below := child_below parent child member
  obtain ⟨higher, same, rfl⟩ := holds fun top within => stays top (within_trans child parent top (.inr below) within)
  obtain ⟨lower, inside, equal⟩ := child_of_origin tree left gone higher thinned same child member (stays child (.inl rfl))
  exact ⟨lower, (parent_root lower higher ((mem_children_iff higher lower).mp inside)).symm.trans same, equal⟩

end Origin

end ScriptTidy.SourceTree
