import ScriptTidy.Proofs.Edit.Shown
import ScriptTidy.Proofs.Import.ClauseTokens
import ScriptTidy.Proofs.Import.CutPoints

/-! A clause from which names are taken shows less than before, the separators put between its elements included. -/

set_option autoImplicit false

namespace ScriptTidy.SourceTree

open Text Place Edits

-- The regions of specifiers make up the text from the first one to the tail.
theorem regions_whole (tree : SourceTree) (tail : Nat) (last : tree.text.IsBoundary tail) (specifiers : List Place) :
    (∀ region ∈ tree.regionsTo tail specifiers, tree.text.IsBoundary region.start ∧ tree.text.IsBoundary region.stop ∧
      region.start ≤ region.stop) → ∀ first ∈ specifiers.head?, tree.regionStart first ≤ tail ∧
        (tree.regionsTo tail specifiers).flatMap (tree.regionText ·) = tree.text.between (tree.regionStart first) tail := by
  induction specifiers with
  | nil => exact fun _ _ none => by cases none
  | cons specifier rest ih =>
      intro each first head
      obtain rfl := Option.some.inj head
      cases rest with
      | nil =>
          have only := each ⟨specifier, tree.regionStart specifier, tail⟩ List.mem_cons_self
          exact ⟨only.2.2, by simp [regionsTo, regionText]⟩
      | cons next more =>
          have here := each ⟨specifier, tree.regionStart specifier, tree.regionStart next⟩ List.mem_cons_self
          obtain ⟨early, whole⟩ := ih (fun region member => each region (List.mem_cons_of_mem _ member)) next rfl
          have joined := between_append tree.text (tree.regionStart specifier) (tree.regionStart next) tail here.1 here.2.1 last
            here.2.2 early
          refine ⟨Nat.le_trans here.2.2 early, ?_⟩
          rw [regionsTo, List.flatMap_cons, whole, ← joined]
          rfl

section Lists

variable (tree : SourceTree) (list : Place) (nested : list.InNested tree.text) (form : tree.BracedList list)

theorem closes_sublist (region : Region) (text : Text) (closes : Closes tree region text) : text.Sublist (tree.regionText region) := by
  obtain ⟨front, comma, back, blanks, whole, rfl, _⟩ := closes
  rw [whole, List.append_assoc, List.append_assoc]
  exact (List.Sublist.refl front).append ((List.sublist_append_left back blanks).trans (List.sublist_append_right comma _))

include nested form

-- All that is written of regions stands in them.
theorem body_sublist (last : Place) (regions : List Region) (each : ∀ region ∈ regions, RegionOf tree list region) :
    (tree.bodyText last regions).Sublist (regions.flatMap (tree.regionText ·)) := by
  rcases List.eq_nil_or_concat regions with rfl | ⟨front, closing, rfl⟩
  · exact List.nil_sublist _
  · rw [List.concat_eq_append] at each ⊢
    have own := closes_sublist tree closing _ (body_closes tree list nested form last closing (each closing (by simp))).2
    rw [body_text_concat, List.flatMap_append, List.flatMap_singleton]
    exact (List.Sublist.refl _).append own

theorem region_weight (region : Region) (given : RegionOf tree list region) : 0 < weight (tree.regionText region) := by
  obtain ⟨boundary, early, _⟩ := region_start_bounds tree list nested region given
  have own := specifier_nested tree list nested region.specifier given.member
  have edges := node_nested tree.text region.specifier own
  have visible := weight_ends tree.text _ _ edges.first edges.last (specifier_wide tree list form region.specifier given.member)
    (specifier_ends tree list form.toListEdges region.specifier given.member)
  exact Nat.lt_of_lt_of_le visible (weight_within tree.text _ _ boundary given.boundary _ _ edges.first edges.last early
    edges.ordered given.specifier)

-- What is written of the regions that stay is less than all of them, if one goes.
theorem body_weight (dead : Place → Bool) (last : Place) (regions : List Region) (each : ∀ region ∈ regions, RegionOf tree list region)
    (lost : Region) (member : lost ∈ regions) (dies : dead lost.specifier = true) :
    weight (tree.bodyText last (regions.filter fun region => !dead region.specifier)) <
      weight (regions.flatMap (tree.regionText ·)) := by
  have body := weight_sublist _ _ (body_sublist tree list nested form last (regions.filter fun region => !dead region.specifier)
    fun region present => each region (List.mem_filter.mp present).1)
  have listed : tree.regionText lost ∈ (regions.filter fun region => dead region.specifier).map (tree.regionText ·) :=
    List.mem_map_of_mem (List.mem_filter.mpr ⟨member, dies⟩)
  have gone := weight_sublist _ _ (List.sublist_flatten_of_mem listed)
  have visible := region_weight tree list nested form lost (each lost member)
  have split := ((List.filter_append_perm (fun region => dead region.specifier) regions).map
    fun region => weight (tree.regionText region)).sum_nat
  rw [List.map_append, List.sum_append_nat, ← weight_flat_map (tree.regionText ·), ← weight_flat_map (tree.regionText ·),
    ← weight_flat_map (tree.regionText ·)] at split
  rw [← List.flatMap_def] at gone
  omega

-- A list without a specifier shows less.
theorem cut_weight (dead : Place → Bool) (first last : Place) (head : (specifiersOf list).head? = some first)
    (ending : (specifiersOf list).getLast? = some last) (gone : ∃ specifier ∈ specifiersOf list, dead specifier = true) :
    weight (tree.cutText dead list first last) < weight (tree.textOf list.node) := by
  have lastMember := List.mem_of_getLast? ending
  have firstMember := List.mem_of_mem_head? head
  have each := regions_of_list tree list nested form.toListEdges last lastMember (specifiersOf list) (List.Sublist.refl _) ending
  have parts := cuts_part tree list nested form last ending
  obtain ⟨specifier, member, dies⟩ := gone
  obtain ⟨region, present, rfl⟩ := List.mem_map.mp (parts.specifiers.symm ▸ member)
  have less := body_weight tree list nested form dead last _ each region present dies
  have edges := node_nested tree.text list nested
  have start := (region_start_spec tree first (specifier_nested tree list nested first firstMember)).1
  have front := list_start_lt tree list nested form first firstMember
  have stop := (tail_start_spec tree last (specifier_nested tree list nested last lastMember)).1
  obtain ⟨early, whole⟩ := regions_whole tree (tree.tailStart last) stop (specifiersOf list) (fun region member =>
    have bounds := region_start_bounds tree list nested region (each region member)
    ⟨bounds.1, (each region member).boundary, bounds.2.2⟩) first head
  have outer := weight_split tree.text list.start (tree.regionStart first) list.stop edges.first start edges.last
    (Nat.le_of_lt front) (Nat.le_trans early parts.tail)
  have inner := weight_split tree.text (tree.regionStart first) (tree.tailStart last) list.stop start stop edges.last
    early parts.tail
  rw [whole] at less
  rw [text_of_nested tree list.node edges, cutText, weight_append, weight_append]
  show _ < weight (tree.text.between list.start list.stop)
  omega

theorem list_weight (dead : Place → Bool) (text : Text) (done : tree.renderList dead list = .ok (some text)) :
    weight text ≤ weight (tree.textOf list.node) ∧
      ((∃ specifier ∈ specifiersOf list, dead specifier = true) → weight text < weight (tree.textOf list.node)) := by
  rcases render_list_ok tree list nested form.toListEdges dead with
    ⟨_, other⟩ | ⟨⟨_, lives⟩, other⟩ | ⟨⟨gone, _⟩, first, last, head, ending, other⟩
  · cases done.symm.trans other
  · obtain rfl := Option.some.inj (Except.ok.inj (done.symm.trans other))
    refine ⟨Nat.le_refl _, ?_⟩
    rintro ⟨specifier, member, dies⟩
    exact absurd (lives specifier member) (by simp [dies])
  · obtain rfl := Option.some.inj (Except.ok.inj (done.symm.trans other))
    have less := cut_weight tree list nested form dead first last head ending gone
    exact ⟨Nat.le_of_lt less, fun _ => less⟩

end Lists

-- The elements of a clause, with a comma between them that can be seen.
structure ClauseShown (tree : SourceTree) (clause : Place) : Prop where
  shape : clauseShapes.contains ((solids clause.node.children).map (·.kind)) = true
  elements : ∀ child ∈ clause.children, isElement child = true → child.node.label.named = true
  commas : ∀ child ∈ clause.node.children, child.kind = "," → child.start < child.stop ∧ tree.text.StartsSolid child.start
  lists : ∀ child ∈ clause.children, child.kind = "named_imports" → tree.BracedList child

instance (tree : SourceTree) (clause : Place) : Decidable (tree.ClauseShown clause) :=
  decidable_of_iff (clauseShapes.contains ((solids clause.node.children).map (·.kind)) = true ∧
      (∀ child ∈ clause.children, isElement child = true → child.node.label.named = true) ∧
      (∀ child ∈ clause.node.children, child.kind = "," → child.start < child.stop ∧ tree.text.StartsSolid child.start) ∧
      ∀ child ∈ clause.children, child.kind = "named_imports" → tree.BracedList child)
    ⟨fun ⟨shape, elements, commas, lists⟩ => ⟨shape, elements, commas, lists⟩,
      fun shown => ⟨shown.shape, shown.elements, shown.commas, shown.lists⟩⟩

-- What is visible of texts, each counted with one separator.
def spread (texts : List Text) : Nat := (texts.map fun text => weight text + 1).sum

theorem joined_weight (texts : List Text) (some : texts ≠ []) :
    weight (List.intersperse [',', ' '] texts).flatten + 1 = spread texts := by
  have comma : weight [',', ' '] = 1 := by decide
  induction texts with
  | nil => exact absurd rfl some
  | cons first rest ih =>
      cases rest with
      | nil => simp [spread]
      | cons next more =>
          have later := ih (List.cons_ne_nil next more)
          rw [List.intersperse_cons_cons, List.flatten_cons, List.flatten_cons, weight_append, weight_append, comma]
          rw [spread, List.map_cons, List.sum_cons, ← spread, ← later]
          omega

theorem spread_append (first second : List Text) : spread (first ++ second) = spread first + spread second := by
  rw [spread, List.map_append, List.sum_append_nat, ← spread, ← spread]

-- A name goes as a whole.
theorem name_place (tree : SourceTree) (child : Place) (name : child.kind = "identifier" ∨ child.kind = "namespace_import")
    (made : ClauseElement) (present : made ∈ tree.childElements child) : made.place = child := by
  rcases name with kind | kind
  · simp only [childElements, kind, beq_self_eq_true, if_true, List.mem_singleton] at present
    rw [present]
    rfl
  · rw [childElements, if_neg (by simp [kind]), if_pos (by simp [kind])] at present
    split at present
    · rw [List.mem_singleton.mp present]
      rfl
    · exact absurd present List.not_mem_nil

section Clauses

variable (tree : SourceTree) (clause : Place) (nested : clause.InNested tree.text) (shown : tree.ClauseShown clause)

include nested

theorem solids_weight : ((solids clause.node.children).map fun child => weight (tree.textOf child)).sum ≤
    weight (tree.textOf clause.node) := by
  have own := node_nested tree.text clause nested
  have apart := own.apart.sublist (List.filter_sublist (p := fun node : Node => !node.isComment))
  obtain ⟨ranges, texts⟩ := node_ranges tree id (solids clause.node.children) clause.start clause.stop apart fun child member =>
    have listed := (List.mem_filter.mp member).1
    ⟨list_child_nested tree clause nested child listed, own.inside child listed⟩
  have bound := weight_ranges tree.text clause.stop own.last _ clause.start own.first own.ordered ranges
  calc ((solids clause.node.children).map fun child => weight (tree.textOf child)).sum =
        (((solids clause.node.children).map fun child => tree.textOf child).map weight).sum := by rw [List.map_map]; rfl
    _ ≤ weight (tree.text.between clause.start clause.stop) := by
        rw [show ((solids clause.node.children).map fun child => tree.textOf child) = _ from texts, List.map_map]
        exact bound
    _ = weight (tree.textOf clause.node) := by rw [text_of_nested tree clause.node own]; rfl

include shown

-- A clause has room for its elements, each with one separator.
theorem elements_room : spread ((clause.children.filter isElement).map fun child => tree.textOf child.node) ≤
    weight (tree.textOf clause.node) + 1 := by
  have room := solids_weight tree clause nested
  obtain ⟨element, ⟨alone, solid⟩ | ⟨name, comma, both, solid, _, kind⟩⟩ := clause_elements clause shown.shape
  · rw [solid] at room
    simpa [alone, spread] using room
  · have listed : comma ∈ clause.node.children := (List.mem_filter.mp (solid ▸ List.mem_cons_of_mem _ List.mem_cons_self :
      comma ∈ solids clause.node.children)).1
    obtain ⟨wide, starts⟩ := shown.commas comma listed kind
    have own := list_child_nested tree clause nested comma listed
    have visible := weight_starts tree.text _ _ own.first own.last wide starts
    rw [solid] at room
    simp only [List.map_cons, List.map_nil, List.sum_cons, List.sum_nil, text_of_nested tree comma own] at room
    simp only [both, spread, List.map_cons, List.map_nil, List.sum_cons, List.sum_nil]
    omega

theorem element_weight (dead : Place → Bool) (child : Place) (member : child ∈ clause.children) (element : isElement child = true)
    (answer : Option Text) (done : tree.renderElement dead child = .ok answer) :
    spread answer.toList ≤ spread [tree.textOf child.node] ∧
      ((∃ made ∈ tree.childElements child, dead made.place = true) → spread answer.toList < spread [tree.textOf child.node]) := by
  cases answer with
  | none => exact ⟨Nat.zero_le _, fun _ => Nat.succ_pos _⟩
  | some text =>
      show weight text + 1 ≤ weight (tree.textOf child.node) + 1 ∧
        (_ → weight text + 1 < weight (tree.textOf child.node) + 1)
      rw [Nat.add_le_add_iff_right, Nat.add_lt_add_iff_right]
      by_cases kind : child.kind = "named_imports"
      · have own := in_nested_of_root tree.text clause child nested (below_root child clause (child_below clause child member)).symm
        have rendered : tree.renderElement dead child = tree.renderList dead child := by simp [renderElement, kind]
        have elements : tree.childElements child = (specifiersOf child).map tree.specifierElement := by
          simp [childElements, kind, specifiersOf]
        obtain ⟨less, strict⟩ := list_weight tree child own (shown.lists child member kind) dead text (rendered ▸ done)
        refine ⟨less, ?_⟩
        rintro ⟨made, present, dies⟩
        rw [elements] at present
        obtain ⟨specifier, listed, rfl⟩ := List.mem_map.mp present
        exact strict ⟨specifier, listed, specifier_element_place tree specifier ▸ dies⟩
      · have name : child.kind = "identifier" ∨ child.kind = "namespace_import" := by
          simpa [isElement, elementKinds, kind] using element
        cases gone : dead child with
        | true => simp [renderElement, name, gone] at done
        | false =>
            obtain rfl : tree.textOf child.node = text := by simpa [renderElement, name, gone] using done
            refine ⟨Nat.le_refl _, ?_⟩
            rintro ⟨made, present, dies⟩
            rw [name_place tree child name made present, gone] at dies
            cases dies

-- Of each element no more is written than stands there, and less if a name in it is dead.
theorem elements_weight (dead : Place → Bool) (children : List Place) : ∀ texts,
    (∀ child ∈ children, child ∈ clause.children ∧ isElement child = true) → tree.renderElements dead children = .ok texts →
      spread texts ≤ spread (children.map fun child => tree.textOf child.node) ∧
        ((∃ made ∈ children.flatMap tree.childElements, dead made.place = true) →
          spread texts < spread (children.map fun child => tree.textOf child.node)) := by
  induction children with
  | nil =>
      intro texts _ done
      obtain rfl := Except.ok.inj done
      refine ⟨Nat.le_refl _, ?_⟩
      rintro ⟨made, present, _⟩
      exact absurd present List.not_mem_nil
  | cons child rest ih =>
      intro texts inside done
      rw [renderElements] at done
      cases first : tree.renderElement dead child with
      | error fault => rw [first] at done; cases done
      | ok answer =>
          cases others : tree.renderElements dead rest with
          | error fault => rw [first, others] at done; cases done
          | ok later =>
              rw [first, others] at done
              obtain rfl : answer.toList ++ later = texts := Except.ok.inj done
              obtain ⟨member, element⟩ := inside child List.mem_cons_self
              obtain ⟨here, hereLess⟩ := element_weight tree clause nested shown dead child member element answer first
              obtain ⟨there, thereLess⟩ := ih later (fun other present => inside other (List.mem_cons_of_mem child present)) others
              rw [List.map_cons, ← List.singleton_append, spread_append, spread_append]
              refine ⟨Nat.add_le_add here there, ?_⟩
              rintro ⟨made, present, dies⟩
              rw [List.flatMap_cons, List.mem_append] at present
              rcases present with own | behind
              · exact Nat.add_lt_add_of_lt_of_le (hereLess ⟨made, own, dies⟩) there
              · exact Nat.add_lt_add_of_le_of_lt here (thereLess ⟨made, behind, dies⟩)

-- A clause without a name shows less than before, whatever separators are put between what stays.
theorem clause_weight (dead : Place → Bool) (text : Text) (done : tree.renderClause dead clause = .ok (some text))
    (gone : ∃ made ∈ tree.clauseElements clause, dead made.place = true) : weight text < weight (tree.textOf clause.node) := by
  obtain ⟨rendered, elements⟩ := clause_by_elements tree clause shown.elements dead
  rw [elements] at gone
  rw [renderClause, rendered] at done
  cases made : tree.renderElements dead (clause.children.filter isElement) with
  | error fault => rw [made] at done; cases done
  | ok texts =>
      have less := (elements_weight tree clause nested shown dead _ texts (fun child member => List.mem_filter.mp member) made).2 gone
      have room := elements_room tree clause nested shown
      rw [made] at done
      cases texts with
      | nil => cases done
      | cons first rest =>
          obtain rfl := Option.some.inj (Except.ok.inj done)
          have joined := joined_weight (first :: rest) (List.cons_ne_nil first rest)
          omega

end Clauses

end ScriptTidy.SourceTree
