import ScriptTidy.Proofs.Import.ListCuts

/-! Rendering a braced list never fails, and gives the text of its parts. -/

set_option autoImplicit false

namespace ScriptTidy.SourceTree

open Text Place Edits

theorem copy_parts (front middle back : Text) :
    copy (front ++ (middle ++ back)) (bytes front) (bytes front + bytes middle) = .ok middle := by
  rw [copy_ok _ _ _ (boundary_append front _) (boundary_middle front middle back) (Nat.le_add_right _ _), between_parts]

theorem copy_within_parts (front middle back : Text) (start first last : Nat) (lower : first = start + bytes front)
    (upper : last = first + bytes middle) : copyWithin (front ++ (middle ++ back)) start first last = .ok middle := by
  rw [copyWithin, if_pos (by omega), show first - start = bytes front by omega,
    show last - start = bytes front + bytes middle by omega, copy_parts]

-- A region of a list: from the start that its specifier has to a place behind the specifier and its comma.
structure RegionOf (tree : SourceTree) (list : Place) (region : Region) : Prop where
  member : region.specifier ∈ specifiersOf list
  start : region.start = tree.regionStart region.specifier
  boundary : tree.text.IsBoundary region.stop
  specifier : region.specifier.stop ≤ region.stop
  comma : ∀ comma ∈ commaAfter? region.specifier, comma.stop ≤ region.stop
  inside : region.stop ≤ list.stop

section Lists

variable (tree : SourceTree) (list : Place) (nested : list.InNested tree.text) (edges : tree.ListEdges list)

include nested

theorem region_start_bounds (region : Region) (given : RegionOf tree list region) : tree.text.IsBoundary region.start ∧
    region.start ≤ region.specifier.start ∧ region.start ≤ region.stop := by
  have own := specifier_nested tree list nested region.specifier given.member
  have spec := region_start_spec tree region.specifier own
  have forward := (node_nested tree.text region.specifier own).ordered
  have stop := given.specifier
  rw [given.start]
  exact ⟨spec.1, spec.2.1, Nat.le_trans spec.2.1 (Nat.le_trans forward stop)⟩

include edges

theorem regions_of_list (last : Place) (lastMember : last ∈ specifiersOf list) (specifiers : List Place) :
    specifiers.Sublist (specifiersOf list) → specifiers.getLast? = some last →
      ∀ region ∈ tree.regionsTo (tree.tailStart last) specifiers, RegionOf tree list region := by
  induction specifiers with
  | nil => exact fun _ none => by cases none
  | cons first rest ih =>
      intro fewer ending region member
      have firstMember := fewer.subset List.mem_cons_self
      cases rest with
      | nil =>
          obtain rfl := Option.some.inj ending
          obtain rfl := List.mem_singleton.mp member
          obtain ⟨boundary, stop, comma, inside⟩ := tail_start_spec tree first (specifier_nested tree list nested first lastMember)
          exact ⟨firstMember, rfl, boundary, stop, comma, inside list ((mem_specifiers_iff list first).mp firstMember).1⟩
      | cons next more =>
          rcases List.mem_cons.mp member with same | later
          · subst same
            have order := (specifiers_earlier list).sublist fewer
            have earlier := (List.pairwise_cons.mp order).1 next List.mem_cons_self
            have nextMember := fewer.subset (List.mem_cons_of_mem first List.mem_cons_self)
            have stop := region_stop_spec tree list nested edges first next firstMember nextMember earlier
            have own := specifier_nested tree list nested next nextMember
            have start := region_start_spec tree next own
            have inside := below_inside tree.text next list own
              (parent_below next list ((mem_specifiers_iff list next).mp nextMember).1)
            have forward := (node_nested tree.text next own).ordered
            exact ⟨firstMember, rfl, start.1, stop.1, stop.2, Nat.le_trans start.2.1 (Nat.le_trans forward inside.2)⟩
          · exact ih ((List.sublist_cons_self first (next :: more)).trans fewer) (by simpa using ending) region later

theorem closing_text_ok (endsWithComma : Bool) (region : Region) (given : RegionOf tree list region) :
    tree.closingText endsWithComma region = .ok (tree.closingShown endsWithComma region) := by
  obtain ⟨boundary, early, ordered⟩ := region_start_bounds tree list nested region given
  have own := specifier_nested tree list nested region.specifier given.member
  unfold closingText closingShown regionText
  rw [copy_ok tree.text _ _ boundary given.boundary ordered]
  cases found : (if endsWithComma then none else commaAfter? region.specifier) with
  | none => rfl
  | some comma =>
      have behind : commaAfter? region.specifier = some comma := by
        cases endsWithComma with
        | true => cases found
        | false => exact found
      obtain ⟨ends, commaNested, after⟩ := comma_ends tree list nested edges region.specifier given.member comma behind
      have forward := (node_nested tree.text region.specifier own).ordered
      have lower : region.start ≤ comma.start := Nat.le_trans early (Nat.le_trans forward after)
      have upper := given.comma comma behind
      have commaForward := commaNested.ordered
      have shown := trim_between tree.text region.start comma.stop region.stop boundary commaNested.last given.boundary
        (by omega) upper ends
      have parts := between_append tree.text region.start comma.start comma.stop boundary commaNested.first commaNested.last lower
        commaForward
      have front := bytes_between tree.text region.start comma.start boundary commaNested.first lower
      have middle := bytes_between tree.text comma.start comma.stop commaNested.first commaNested.last commaForward
      rw [← parts] at shown
      simp only [Bind.bind, Except.bind, pure, Except.pure, shown]
      generalize tree.text.between region.start comma.start = specifierText at front shown
      generalize tree.text.between comma.start comma.stop = commaText at middle shown
      generalize trimEnd (tree.text.between comma.stop region.stop) = back at shown
      have first := copy_within_parts [] specifierText (commaText ++ back) region.start region.start comma.start rfl (by omega)
      have second := copy_within_parts (specifierText ++ commaText) back [] region.start comma.stop
        (region.start + bytes (specifierText ++ commaText ++ back)) (by simp only [bytes_append]; omega)
        (by simp only [bytes_append]; omega)
      simp only [List.nil_append, List.append_nil, List.append_assoc] at first second ⊢
      rw [first, second]

theorem render_regions_ok (last : Place) (regions : List Region) (given : ∀ region ∈ regions, RegionOf tree list region) :
    tree.renderRegions last regions = .ok (tree.bodyText last regions) := by
  have copied (region : Region) (valid : RegionOf tree list region) :
      copy tree.text region.start region.stop = .ok (tree.regionText region) := by
    obtain ⟨boundary, _, ordered⟩ := region_start_bounds tree list nested region valid
    exact copy_ok tree.text _ _ boundary valid.boundary ordered
  induction regions with
  | nil => rfl
  | cons first rest ih =>
      have firstGiven := given first List.mem_cons_self
      cases rest with
      | nil =>
          rw [renderRegions, bodyText]
          split
          · exact copied first firstGiven
          · exact closing_text_ok tree list nested edges _ first firstGiven
      | cons next more =>
          have rendered := ih fun region member => given region (List.mem_cons_of_mem first member)
          rw [renderRegions, bodyText, copied first firstGiven, rendered]
          · rfl
          · exact List.cons_ne_nil _ _
          · exact List.cons_ne_nil _ _

-- The text of a list from which some specifiers are taken.
def cutText (tree : SourceTree) (dead : Place → Bool) (list first last : Place) : Text :=
  tree.text.between list.start (tree.regionStart first) ++
    (tree.bodyText last ((tree.regionsTo (tree.tailStart last) (specifiersOf list)).filter fun region =>
      !dead region.specifier) ++ tree.text.between (tree.tailStart last) list.stop)

theorem render_list_ok (dead : Place → Bool) :
    (∀ specifier ∈ specifiersOf list, dead specifier = true) ∧ tree.renderList dead list = .ok none ∨
      ((∃ specifier ∈ specifiersOf list, dead specifier = false) ∧ ∀ specifier ∈ specifiersOf list, dead specifier = false) ∧
          tree.renderList dead list = .ok (some (tree.textOf list.node)) ∨
        ((∃ specifier ∈ specifiersOf list, dead specifier = true) ∧ (∃ specifier ∈ specifiersOf list, dead specifier = false)) ∧
          ∃ first last, (specifiersOf list).head? = some first ∧ (specifiersOf list).getLast? = some last ∧
            tree.renderList dead list = .ok (some (tree.cutText dead list first last)) := by
  unfold renderList
  dsimp only
  rw [show (list.children.filter fun place => place.kind == "import_specifier") = specifiersOf list from rfl]
  by_cases none : ((specifiersOf list).filter fun specifier => !dead specifier).isEmpty = true
  · refine .inl ⟨fun specifier member => ?_, by rw [if_pos none]⟩
    have gone := List.filter_eq_nil_iff.mp (List.isEmpty_iff.mp none) specifier member
    simpa using gone
  · rw [if_neg none]
    have some : ∃ specifier ∈ specifiersOf list, dead specifier = false := by
      obtain ⟨specifier, present⟩ := List.exists_mem_of_ne_nil _ fun empty => none (List.isEmpty_iff.mpr empty)
      obtain ⟨member, kept⟩ := List.mem_filter.mp present
      exact ⟨specifier, member, by simpa using kept⟩
    by_cases all : ((specifiersOf list).filter fun specifier => !dead specifier).length = (specifiersOf list).length
    · refine .inr (.inl ⟨⟨some, fun specifier member => ?_⟩, by rw [if_pos all]⟩)
      have kept := List.length_filter_eq_length_iff.mp all specifier member
      simpa using kept
    · rw [if_neg all]
      have gone : ∃ specifier ∈ specifiersOf list, dead specifier = true := by
        apply Classical.byContradiction
        intro missing
        refine all (List.length_filter_eq_length_iff.mpr fun specifier member => ?_)
        cases removed : dead specifier with
        | false => rfl
        | true => exact absurd ⟨specifier, member, removed⟩ missing
      refine .inr (.inr ⟨⟨gone, some⟩, ?_⟩)
      obtain ⟨one, oneMember, _⟩ := some
      have filled : specifiersOf list ≠ [] := List.ne_nil_of_mem oneMember
      obtain ⟨first, firstSome⟩ := Option.isSome_iff_exists.mp (List.isSome_head?.mpr filled)
      obtain ⟨last, lastSome⟩ := Option.isSome_iff_exists.mp (List.getLast?_isSome.mpr filled)
      have firstMember := List.mem_of_mem_head? firstSome
      have lastMember := List.mem_of_getLast? lastSome
      refine ⟨first, last, firstSome, lastSome, ?_⟩
      have own := specifier_nested tree list nested first firstMember
      have listNested := node_nested tree.text list nested
      have front := copy_ok tree.text list.start _ listNested.first (region_start_spec tree first own).1
        (list_start_le tree list nested edges first firstMember)
      have tail := tail_start_spec tree last (specifier_nested tree list nested last lastMember)
      have inside := tail.2.2.2 list ((mem_specifiers_iff list last).mp lastMember).1
      have back := copy_ok tree.text _ list.stop tail.1 listNested.last inside
      have body := render_regions_ok tree list nested edges last
        ((tree.regionsTo (tree.tailStart last) (specifiersOf list)).filter fun region => !dead region.specifier)
        fun region member => regions_of_list tree list nested edges last lastMember _ (List.Sublist.refl _) lastSome region
          (List.mem_filter.mp member).1
      simp only [listCuts?, firstSome, lastSome, Option.map_some, Bind.bind, Except.bind, pure, Except.pure, front, body, back, cutText,
        List.append_assoc]

end Lists

end ScriptTidy.SourceTree
