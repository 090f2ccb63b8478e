import ScriptTidy.Proofs.Edit.Prepared
import ScriptTidy.Proofs.Tree.Family
import ScriptTidy.Proofs.Tree.Grammar
import ScriptTidy.Transform.AsyncBodies
import ScriptTidy.Transform.VarKeywords

/-! Transforms that put new text in the place of nodes, none of which lies within another. -/

set_option autoImplicit false

namespace ScriptTidy

open Text Place Edit Edits

namespace Place

-- Two places that do not lie in each other, the first one in front.
def Apart (first second : Place) : Prop := ¬ first.Within second ∧ ¬ second.Within first ∧ first.stop ≤ second.start

theorem apart_of_siblings (text : Text) (first second left right : Place) (nested : first.InNested text)
    (nestedOther : second.InNested text) (earlier : Earlier left right) (one : first.Within left) (other : second.Within right) :
    first.Apart second := by
  refine ⟨fun inside => ?_, fun inside => ?_, within_apart text first second left right nested nestedOther earlier one other⟩
  · exact within_unique first left right earlier one (within_trans first second right inside other)
  · exact within_unique second left right earlier (within_trans second first left inside one) other

theorem mem_outermost_iff (wanted : Place → Bool) (places : List Place) (place : Place) :
    place ∈ outermost wanted places ↔
      place ∈ places ∧ wanted place = true ∧ ∀ above, place.Below above → wanted above = false := by
  rw [outermost, List.mem_filter, List.mem_filter, and_assoc]
  simp [Below]

end Place

namespace SourceTree

variable (tree : SourceTree)

-- Ranges that are nested and in order are all that replacing nodes needs.
abbrev Nests : Prop := ∀ place ∈ tree.places, place.node.Nested tree.text

theorem nests_of_ordered (narrow : tree.text.IsNarrow) (ordered : ∀ place ∈ tree.places, place.node.Ordered tree.text.length) :
    tree.Nests := fun place member => Node.nested_of_ordered tree.text narrow place.node (ordered place member)

theorem nests_in_nested (nested : tree.Nests) (place : Place) (same : place.root = tree.root) : place.InNested tree.text :=
  fun other equal => nested other ((mem_places_iff tree other).mpr (equal.trans same))

-- Of places in document order, none of which lies below another, each begins behind the end of the one before.
theorem places_pairwise_apart (nested : tree.Nests) (places : List Place) (listed : places.Sublist tree.places)
    (out : ∀ first ∈ places, ∀ second ∈ places, ¬ second.Below first) : places.Pairwise Place.Apart := by
  have member := fun place present => (mem_places_iff tree place).mp (listed.subset present)
  refine ((Node.places_apart tree.root).sublist listed).imp_of_mem fun {first second} one other follows => ?_
  rcases follows with below | ⟨left, right, earlier, inLeft, inRight⟩
  · exact absurd below (out first one second other)
  · exact apart_of_siblings tree.text first second left right (nests_in_nested tree nested first (member first one))
      (nests_in_nested tree nested second (member second other)) earlier inLeft inRight

theorem outermost_apart_nested (nested : tree.Nests) (wanted : Place → Bool) :
    (outermost wanted tree.places).Pairwise Place.Apart := by
  refine places_pairwise_apart tree nested _ (List.filter_sublist.trans List.filter_sublist) fun first one second other below => ?_
  have outer := ((mem_outermost_iff wanted tree.places second).mp other).2.2 first below
  have named := ((mem_outermost_iff wanted tree.places first).mp one).2.1
  exact Bool.noConfusion (named.symm.trans outer)

theorem outermost_apart (valid : tree.WellFormed) (wanted : Place → Bool) :
    (outermost wanted tree.places).Pairwise Place.Apart :=
  outermost_apart_nested tree valid.nested wanted

-- What is wanted lies within a place that no other wanted one is above.
theorem outermost_above (wanted : Place → Bool) (place : Place) (same : place.root = tree.root) (fits : wanted place = true) :
    ∃ top ∈ outermost wanted tree.places, place.Within top := by
  refine top_down tree (fun place => (∃ above, place.Within above ∧ wanted above = true) →
    ∃ top ∈ outermost wanted tree.places, place.Within top) ?_ ?_ place same ⟨place, .inl rfl, fits⟩
  · rintro ⟨above, rfl | below, named⟩
    · exact ⟨_, (mem_outermost_iff _ _ _).mpr ⟨(mem_places_iff tree _).mpr rfl, named, fun _ higher =>
        absurd higher List.not_mem_nil⟩, .inl rfl⟩
    · exact absurd below List.not_mem_nil
  · rintro parent child root ih listed ⟨above, within, named⟩
    have lower := child_below parent child listed
    by_cases higher : ∃ above, parent.Within above ∧ wanted above = true
    · obtain ⟨top, member, inside⟩ := ih higher
      exact ⟨top, member, within_trans _ _ _ (.inr lower) inside⟩
    · have first : ∀ other, child.Below other → wanted other = false := by
        intro other below
        obtain ⟨own, above, inside⟩ := below_parent child other below
        obtain rfl := Option.some.inj (above.symm.trans ((mem_children_iff parent child).mp listed))
        exact Bool.eq_false_iff.mpr fun fits => higher ⟨other, inside, fits⟩
      obtain rfl : child = above := within.resolve_right fun below => by
        rw [first above below] at named
        exact Bool.noConfusion named
      have childRoot := (below_root child parent lower).symm.trans root
      exact ⟨child, (mem_outermost_iff _ _ _).mpr ⟨(mem_places_iff tree child).mpr childRoot, named, first⟩, .inl rfl⟩

theorem replaced_sound (nested : tree.Nests) (places : List Place) (present : ∀ place ∈ places, place.root = tree.root)
    (apart : places.Pairwise Place.Apart) (text : Place → Text) :
    Sound tree.text (places.map fun place => replace place.node (text place)) := by
  have made : ∀ edit ∈ places.map fun place => replace place.node (text place), edit.InText tree.text ∧ edit.kind = .splice := by
    intro edit member
    obtain ⟨place, listed, rfl⟩ := List.mem_map.mp member
    have own := node_nested tree.text place (nests_in_nested tree nested place (present place listed))
    exact ⟨⟨own.ordered, own.first, own.last⟩, rfl⟩
  refine ⟨fun edit member => (made edit member).1, fun edit member removal => ?_, ?_, fun _ _ _ run given _ => ?_⟩
  · exact absurd ((made edit member).2.symm.trans removal) (by decide)
  · exact List.pairwise_map.mpr (apart.imp fun given => .inr (.inl given.2.2))
  -- No removal is recorded.
  · obtain ⟨recorded, member, removal, _⟩ := given.first
    exact absurd ((made recorded member).2.symm.trans removal) (by decide)

theorem mem_unwrapped_bodies (body : Place) (member : body ∈ tree.unwrappedBodies) : body.root = tree.root :=
  (mem_places_iff tree body).mp ((mem_outermost_iff _ _ _).mp member).1

theorem wrap_pass_nested (nested : tree.Nests) : ∃ text, tree.wrapPass = .ok text :=
  ⟨_, apply_ok tree.text _ (replaced_sound tree nested tree.unwrappedBodies (mem_unwrapped_bodies tree)
    (outermost_apart_nested tree nested isUnwrappedBody) tree.wrappedBody)⟩

theorem wrap_pass_total (valid : tree.WellFormed) : ∃ text, tree.wrapPass = .ok text := wrap_pass_nested tree valid.nested

-- The statements that a pass moves are a piece of the text.
theorem body_statements_some (valid : tree.WellFormed) (body : Place) (member : body ∈ tree.unwrappedBodies)
    (first : Node) (others : List Node) (shape : body.node.namedChildren = first :: others) :
    (tree.text.slice? first.start (others.getLast?.getD first).stop).isSome = true := by
  have nested := in_nested tree body valid (mem_unwrapped_bodies tree body member)
  have whole := node_nested tree.text body nested
  have listed : (first :: others).Sublist body.node.children := shape ▸ List.filter_sublist
  have child : ∀ node ∈ first :: others, node.Nested tree.text := by
    intro node present
    obtain ⟨place, inside, rfl⟩ := child_place body node (listed.subset present)
    exact nested place (below_root place body (child_below body place inside)).symm
  have firstNested := child first List.mem_cons_self
  have ordered : first.stop ≤ (others.getLast?.getD first).stop ∧ (others.getLast?.getD first) ∈ first :: others := by
    cases ending : others.getLast? with
    | none => exact ⟨Nat.le_refl _, List.mem_cons_self⟩
    | some last =>
        have present := List.mem_of_getLast? ending
        have behind := (List.pairwise_cons.mp (whole.apart.sublist listed)).1 last present
        have forward := (child last (List.mem_cons_of_mem first present)).ordered
        exact ⟨Nat.le_trans behind forward, List.mem_cons_of_mem first present⟩
  have forward := firstNested.ordered
  rw [slice_of_boundaries tree.text _ _ firstNested.first (child _ ordered.2).last (by omega)]
  rfl

section Keywords

def letEdits : Edits := tree.varKeywords.map fun keyword => .replace keyword.node letKeyword

-- Without a keyword nothing is replaced either.
theorem var_to_let_edits : tree.varToLet.result = tree.print tree.letEdits := by
  unfold varToLet letEdits
  cases tree.varKeywords with
  | nil =>
      have whole := copy_ok tree.text 0 _ (boundary_zero _) (boundary_bytes _) (Nat.zero_le _)
      rw [between_bytes, after_zero] at whole
      exact whole.symm
  | cons keyword rest => rfl

theorem var_keyword_found (keyword : Place) (member : keyword ∈ tree.varKeywords) : keyword ∈ tree.find "var" := by
  obtain ⟨listed, named⟩ := List.mem_filter.mp member
  exact List.mem_filter.mpr ⟨listed, (Bool.and_eq_true_iff.mp named).1⟩

variable (nested : tree.Nests) (tokens : ∀ place ∈ tree.find "var", place.node.children = [])

include nested tokens

theorem var_keywords_apart : tree.varKeywords.Pairwise Place.Apart :=
  places_pairwise_apart tree nested _ List.filter_sublist fun first one second _ below =>
    below_children second first below (tokens first (var_keyword_found tree first one))

theorem let_edits_sound : Sound tree.text tree.letEdits :=
  replaced_sound tree nested tree.varKeywords
    (fun keyword member => ((mem_find_iff tree keyword "var").mp (var_keyword_found tree keyword member)).1)
    (var_keywords_apart tree nested tokens) fun _ => letKeyword

end Keywords

theorem var_to_let_total (grammar : tree.Grammatical) : ∃ text, tree.varToLet.result = .ok text := by
  have tokens : ∀ place ∈ tree.find "var", place.node.children = [] := by
    intro place member
    obtain ⟨same, kind⟩ := (mem_find_iff tree place "var").mp member
    exact leaf_kind tree place grammar same (by rw [kind]; decide)
  exact ⟨_, (var_to_let_edits tree).trans (apply_ok tree.text _ (let_edits_sound tree grammar.nested tokens))⟩

end SourceTree

end ScriptTidy
