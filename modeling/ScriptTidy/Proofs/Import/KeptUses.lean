import ScriptTidy.Proofs.Import.Uses
import ScriptTidy.Proofs.Tree.Thinned

/-! Parts of import statements are taken out of a file: no use of a name is lost and none is new. -/

set_option autoImplicit false

namespace ScriptTidy.SourceTree

open Place

-- Rules of the grammar whose children are no statements.
def holderKinds : List String :=
  ["member_expression", "nested_identifier", "pair", "pair_pattern", "jsx_attribute", "jsx_opening_element",
    "jsx_closing_element", "jsx_self_closing_element", "interface_declaration", "type_alias_declaration", "class_declaration",
    "abstract_class_declaration", "type_parameter"]

def nameKinds : List String := ["identifier", "jsx_identifier", "shorthand_property_identifier", "type_identifier"]

-- Import statements as the grammar has them: never right below a holder, part of no name, and with one clause at most. None
-- holds JSX.
structure PlainImports (tree : SourceTree) : Prop where
  parents : ∀ statement ∈ tree.find "import_statement", ∀ parent ∈ statement.parent?, parent.kind ∉ holderKinds
  names : ∀ name ∈ tree.places, name.kind ∈ nameKinds → ∀ statement ∈ tree.find "import_statement",
    statement.isWithin name = false
  attributes : ∀ holder ∈ tree.find "jsx_attribute", ∀ name ∈ holder.namedChildren.head?,
    ∀ statement ∈ tree.find "import_statement", statement.isWithin name = false
  markup : ∀ place ∈ tree.places, place.kind ∈ "jsx_attribute" :: elementKinds → place.isUnder "import_statement" = false
  clauses : ∀ statement ∈ tree.find "import_statement", (statement.children.filter (·.kind == "import_clause")).length ≤ 1

-- All that is taken out are import statements and parts of them.
structure ImportsThinned (tree left : SourceTree) (gone : Place → Bool) : Prop extends Thinned tree left gone where
  inside : ∀ place ∈ tree.places, gone place = true → place.isUnder "import_statement" = true

instance (tree : SourceTree) : Decidable (PlainImports tree) :=
  decidable_of_iff ((∀ statement ∈ tree.find "import_statement", ∀ parent ∈ statement.parent?, parent.kind ∉ holderKinds) ∧
      (∀ name ∈ tree.places, name.kind ∈ nameKinds → ∀ statement ∈ tree.find "import_statement",
        statement.isWithin name = false) ∧
      (∀ holder ∈ tree.find "jsx_attribute", ∀ name ∈ holder.namedChildren.head?,
        ∀ statement ∈ tree.find "import_statement", statement.isWithin name = false) ∧
      (∀ place ∈ tree.places, place.kind ∈ "jsx_attribute" :: elementKinds → place.isUnder "import_statement" = false) ∧
      ∀ statement ∈ tree.find "import_statement", (statement.children.filter (·.kind == "import_clause")).length ≤ 1)
    ⟨fun ⟨parents, names, attributes, markup, clauses⟩ => ⟨parents, names, attributes, markup, clauses⟩,
      fun plain => ⟨plain.parents, plain.names, plain.attributes, plain.markup, plain.clauses⟩⟩

instance (tree left : SourceTree) (gone : Place → Bool) : Decidable (ImportsThinned tree left gone) :=
  decidable_of_iff (Thinned tree left gone ∧ ∀ place ∈ tree.places, gone place = true → place.isUnder "import_statement" = true)
    ⟨fun ⟨thinned, inside⟩ => ⟨thinned, inside⟩, fun thinned => ⟨thinned.toThinned, thinned.inside⟩⟩

section Holders

variable (tree : SourceTree) (plain : PlainImports tree)

include plain

theorem holder_child (parent child : Place) (same : parent.root = tree.root) (holder : parent.kind ∈ holderKinds)
    (outside : parent.isUnder "import_statement" = false) (member : child ∈ parent.children) :
    child.isUnder "import_statement" = false := by
  have above := (mem_children_iff parent child).mp member
  rw [under_parent child parent _ above, outside, Bool.or_false, beq_eq_false_iff_ne]
  intro kind
  have statement := (mem_find_iff tree child _).mpr ⟨child_root tree parent child same member, kind⟩
  exact plain.parents child statement parent above holder

-- What a tag is named after lies outside the imports, as the tag does, and is a name.
theorem leftmost_outside (name first : Place) (leftmost : Leftmost name first) (same : name.root = tree.root)
    (outside : name.isUnder "import_statement" = false) :
    first.isUnder "import_statement" = false ∧ first.kind ∈ nameKinds := by
  induction leftmost with
  | plain name kind => exact ⟨outside, by rcases kind with kind | kind <;> simp [kind, nameKinds]⟩
  | dotted name object first kind found deeper ih =>
      have child := object_child name object found
      have holder : name.kind ∈ holderKinds := by rcases kind with kind | kind <;> simp [kind, holderKinds]
      exact ih (child_root tree name object same child) (holder_child tree plain name object same holder outside child)

end Holders

section Origins

variable (tree left : SourceTree) (gone : Place → Bool) (plain : PlainImports tree) (thinned : ImportsThinned tree left gone)

theorem origin_member (place : Place) : origin tree gone place ∈ tree.places :=
  (mem_places_iff tree _).mpr (origin_in_tree tree gone place)

include thinned

theorem origin_kind (place : Place) (same : place.root = left.root) : (origin tree gone place).kind = place.kind :=
  (thinned.kinds place ((mem_places_iff left place).mpr same)).symm

theorem lost_inside (place : Place) (member : place ∈ tree.places) (lost : gone place = true) :
    ∃ statement ∈ tree.find "import_statement", place.Within statement := by
  obtain ⟨statement, within, kind⟩ := (is_under_iff place _).mp (thinned.inside place member lost)
  have same := (mem_places_iff tree statement).mp (above_in_tree tree place statement member within)
  exact ⟨statement, (mem_find_iff tree statement _).mpr ⟨same, kind⟩, within⟩

-- Whatever holds of places outside the imports by what they come from holds somewhere in the one tree just if in the other.
theorem outside_exists (here there : Place → Prop) (agree : ∀ place : Place, place.root = left.root →
      place.isUnder "import_statement" = false → (here place ↔ there (origin tree gone place))) :
    (∃ place ∈ left.places, place.isUnder "import_statement" = false ∧ here place) ↔
      ∃ place ∈ tree.places, place.isUnder "import_statement" = false ∧ there place := by
  constructor
  · rintro ⟨place, member, outside, holds⟩
    have same := (mem_places_iff left place).mp member
    refine ⟨origin tree gone place, origin_member tree gone place, ?_, (agree place same outside).mp holds⟩
    rw [origin_under tree left gone thinned.toThinned _ place same, outside]
  · rintro ⟨place, member, outside, holds⟩
    have stays : ∀ top, place.Within top → gone top = false := fun top within => by
      rw [← Bool.not_eq_true]
      intro lost
      obtain ⟨statement, found, above⟩ := lost_inside tree left gone thinned top (above_in_tree tree place top member within) lost
      have kind := ((mem_find_iff tree statement _).mp found).2
      rw [(is_under_iff place _).mpr ⟨statement, within_trans place top statement within above, kind⟩] at outside
      cases outside
    obtain ⟨lower, same, rfl⟩ := origin_covers tree left gone thinned.toThinned place ((mem_places_iff tree place).mp member) stays
    rw [origin_under tree left gone thinned.toThinned _ lower same] at outside
    exact ⟨lower, (mem_places_iff left lower).mpr same, outside, (agree lower same outside).mpr holds⟩

-- A name outside the imports keeps its text.
theorem outside_text (place : Place) (same : place.root = left.root) (outside : place.isUnder "import_statement" = false)
    (clear : ∀ statement ∈ tree.find "import_statement", statement.isWithin (origin tree gone place) = false) :
    left.textOf place.node = tree.textOf (origin tree gone place).node := by
  refine thinned.texts place ((mem_places_iff left place).mpr same) fun lower inside => ?_
  have within := Node.places_within _ _ lower inside
  have root := within_tree tree lower _ (origin_in_tree tree gone place) within
  rw [← Bool.not_eq_true]
  intro lost
  obtain ⟨statement, found, above⟩ := lost_inside tree left gone thinned lower ((mem_places_iff tree lower).mpr root) lost
  obtain ⟨top, kind⟩ := (mem_find_iff tree statement _).mp found
  rcases within_chain lower _ statement within above with higher | below
  · rw [← origin_under tree left gone thinned.toThinned _ place same, (is_under_iff _ _).mpr ⟨statement, higher, kind⟩] at outside
    cases outside
  · have apart := clear statement found
    rw [(is_within_iff statement _ (top.trans (origin_in_tree tree gone place).symm)).mpr (.inr below)] at apart
    cases apart

include plain

theorem name_text (place : Place) (same : place.root = left.root) (outside : place.isUnder "import_statement" = false)
    (kind : place.kind ∈ nameKinds) : left.textOf place.node = tree.textOf (origin tree gone place).node := by
  refine outside_text tree left gone thinned place same outside (plain.names _ (origin_member tree gone place) ?_)
  rwa [origin_kind tree left gone thinned place same]

-- No child of a holder is taken out.
theorem holder_intact (place : Place) (same : place.root = left.root) (outside : place.isUnder "import_statement" = false)
    (holder : place.kind ∈ holderKinds) : ∀ child ∈ (origin tree gone place).children, gone child = false := by
  intro child member
  have root := origin_in_tree tree gone place
  rw [← origin_kind tree left gone thinned place same] at holder
  rw [← origin_under tree left gone thinned.toThinned _ place same] at outside
  have away := holder_child tree plain _ child root holder outside member
  rw [← Bool.not_eq_true]
  intro taken
  rw [thinned.inside child ((mem_places_iff tree child).mpr (child_root tree _ child root member)) taken] at away
  cases away

theorem holder_child_left (place child : Place) (same : place.root = left.root)
    (outside : place.isUnder "import_statement" = false) (holder : place.kind ∈ holderKinds) (member : child ∈ place.children) :
    child.isUnder "import_statement" = false := by
  rw [← origin_under tree left gone thinned.toThinned _ place same] at outside
  rw [← origin_kind tree left gone thinned place same] at holder
  rw [← origin_under tree left gone thinned.toThinned _ child (child_root left place child same member)]
  exact holder_child tree plain _ _ (origin_in_tree tree gone place) holder outside
    (origin_child tree left gone place thinned.toThinned same child member).1

theorem fills_origin (place : Place) (same : place.root = left.root) (outside : place.isUnder "import_statement" = false)
    (field : String) (kinds : List String) (holders : kinds ⊆ holderKinds) :
    place.Fills field kinds ↔ (origin tree gone place).Fills field kinds := by
  have family := origin_parent tree left gone place thinned.toThinned same
  cases above : place.parent? with
  | none =>
      rw [above] at family
      simp [Fills, above, family]
  | some parent =>
      rw [above] at family
      have root := (parent_root place parent above).trans same
      have higher : parent.isUnder "import_statement" = false := by
        rw [under_parent place parent _ above, Bool.or_eq_false_iff] at outside
        exact outside.2
      simp only [Fills, above, family, Option.map_some, Option.some.injEq, exists_eq_left',
        origin_kind tree left gone thinned parent root]
      refine and_congr_right fun kind => ?_
      rw [field_origin tree left gone parent thinned.toThinned root
        (holder_intact tree left gone plain thinned parent root higher (holders kind))]
      constructor
      · exact fun found => by rw [found]; rfl
      · intro found
        obtain ⟨other, filled, equal⟩ := Option.map_eq_some_iff.mp found
        rw [filled, origin_siblings tree left gone parent thinned.toThinned root other place (field_child parent other field filled)
          ((mem_children_iff parent place).mpr above) equal]

theorem object_origin (name : Place) (same : name.root = left.root) (outside : name.isUnder "import_statement" = false)
    (holder : name.kind ∈ holderKinds) : (origin tree gone name).object? = name.object?.map (origin tree gone) := by
  have intact := holder_intact tree left gone plain thinned name same outside holder
  rw [object?, object?, field_origin tree left gone name thinned.toThinned same intact,
    first_named_origin tree left gone name thinned.toThinned same intact, Option.map_or]

theorem leftmost_origin (name : Place) (same : name.root = left.root) (outside : name.isUnder "import_statement" = false) :
    (origin tree gone name).leftmost? = name.leftmost?.map (origin tree gone) := by
  rw [leftmost_eq, leftmost_eq name, origin_kind tree left gone thinned name same]
  by_cases plainName : name.kind = "identifier" ∨ name.kind = "jsx_identifier"
  · rw [if_pos plainName, if_pos plainName, Option.map_some]
  · rw [if_neg plainName, if_neg plainName]
    by_cases dotted : name.kind = "member_expression" ∨ name.kind = "nested_identifier"
    · rw [if_pos dotted, if_pos dotted]
      have holder : name.kind ∈ holderKinds := by rcases dotted with kind | kind <;> simp [kind, holderKinds]
      rw [object_origin tree left gone plain thinned name same outside holder]
      cases found : name.object? with
      | none => rfl
      | some object =>
          have child := object_child name object found
          have root := child_root left name object same child
          have smaller := child_size name object child
          have away := holder_child_left tree left gone plain thinned name object same outside holder child
          exact leftmost_origin object root away
    · rw [if_neg dotted, if_neg dotted, Option.map_none]
termination_by sizeOf name.node

theorem leftmost_text (name first : Place) (same : name.root = left.root) (outside : name.isUnder "import_statement" = false)
    (found : name.leftmost? = some first) : left.textOf first.node = tree.textOf (origin tree gone first).node := by
  have root := within_tree left first name same (leftmost_within name first ((leftmost_iff name first).mp found))
  have higher := leftmost_origin tree left gone plain thinned name same outside
  rw [found] at higher
  rw [← origin_under tree left gone thinned.toThinned _ name same] at outside
  obtain ⟨away, kind⟩ := leftmost_outside tree plain _ _ ((leftmost_iff _ _).mp higher) (origin_in_tree tree gone name) outside
  rw [origin_under tree left gone thinned.toThinned _ first root] at away
  rw [origin_kind tree left gone thinned first root] at kind
  exact name_text tree left gone plain thinned first root away kind

theorem element_name_origin (element : Place) (same : element.root = left.root)
    (outside : element.isUnder "import_statement" = false) (kind : element.kind ∈ elementKinds) :
    left.elementName? element = tree.elementName? (origin tree gone element) := by
  have holder : element.kind ∈ holderKinds := by
    rcases (by simpa [elementKinds] using kind) with kind | kind | kind <;> simp [kind, holderKinds]
  rw [elementName?, elementName?, field_origin tree left gone element thinned.toThinned same
    (holder_intact tree left gone plain thinned element same outside holder)]
  cases named : element.childByField? "name" with
  | none => rfl
  | some written =>
      have child := field_child element written "name" named
      have root := child_root left element written same child
      have away := holder_child_left tree left gone plain thinned element written same outside holder child
      rw [Option.map_some, Option.bind_some, Option.bind_some, leftmost_origin tree left gone plain thinned written root away]
      cases found : written.leftmost? with
      | none => rfl
      | some first => exact congrArg some (leftmost_text tree left gone plain thinned written first root away found)

theorem attribute_name_origin (holder : Place) (same : holder.root = left.root)
    (outside : holder.isUnder "import_statement" = false) (kind : holder.kind = "jsx_attribute") (name : Text) :
    left.attributeName? holder = some name ↔ tree.attributeName? (origin tree gone holder) = some name := by
  have holds : holder.kind ∈ holderKinds := by simp [kind, holderKinds]
  have first := first_named_origin tree left gone holder thinned.toThinned same
    (holder_intact tree left gone plain thinned holder same outside holds)
  rw [attribute_name_iff, attribute_name_iff, first]
  cases named : holder.namedChildren.head? with
  | none => simp
  | some place =>
      have child := (List.mem_filter.mp (List.mem_of_head? named)).1
      have root := child_root left holder place same child
      have away := holder_child_left tree left gone plain thinned holder place same outside holds child
      have higher := (mem_find_iff tree _ "jsx_attribute").mpr ⟨origin_in_tree tree gone holder,
        (origin_kind tree left gone thinned holder same).trans kind⟩
      rw [named] at first
      have text := outside_text tree left gone thinned place root away (plain.attributes _ higher _ first)
      simp [origin_kind tree left gone thinned place root, text]

-- JSX is never part of an import, so all of it is compared.
theorem markup_exists (marked : String → Prop) (known : ∀ kind, marked kind → kind ∈ "jsx_attribute" :: elementKinds)
    (here there : Place → Prop) (agree : ∀ place : Place, place.root = left.root → place.isUnder "import_statement" = false →
      marked place.kind → (here place ↔ there (origin tree gone place))) :
    (∃ place ∈ left.places, marked place.kind ∧ here place) ↔ ∃ place ∈ tree.places, marked place.kind ∧ there place := by
  have outside : ∀ place ∈ left.places, marked place.kind → place.isUnder "import_statement" = false := fun place member kind => by
    have same := (mem_places_iff left place).mp member
    rw [← origin_under tree left gone thinned.toThinned _ place same]
    rw [← origin_kind tree left gone thinned place same] at kind
    exact plain.markup _ (origin_member tree gone place) (known _ kind)
  have reached := outside_exists tree left gone thinned (fun place => marked place.kind ∧ here place)
    (fun place => marked place.kind ∧ there place) fun place same away => by
      rw [origin_kind tree left gone thinned place same]
      exact and_congr_right fun kind => agree place same away kind
  constructor
  · rintro ⟨place, member, kind, holds⟩
    obtain ⟨other, present, _, found⟩ := reached.mp ⟨place, member, outside place member kind, kind, holds⟩
    exact ⟨other, present, found⟩
  · rintro ⟨place, member, kind, holds⟩
    obtain ⟨other, present, _, found⟩ := reached.mpr ⟨place, member, plain.markup place member (known _ kind), kind, holds⟩
    exact ⟨other, present, found⟩

theorem markup_origin (name : Text) : name ∈ left.markupNames ↔ name ∈ tree.markupNames := by
  rw [mem_markup_iff, mem_markup_iff]
  refine or_congr ?_ ?_
  · refine markup_exists tree left gone plain thinned (· ∈ elementKinds) (fun _ => List.mem_cons_of_mem _) _ _
      fun place same outside kind => ?_
    rw [element_name_origin tree left gone plain thinned place same outside kind]
  · refine markup_exists tree left gone plain thinned (· = "jsx_attribute") (fun _ kind => kind ▸ List.mem_cons_self) _ _
      fun place same outside kind => ?_
    exact attribute_name_origin tree left gone plain thinned place same outside kind name

theorem types_origin (name : Text) : name ∈ left.typeNames ↔ name ∈ tree.typeNames := by
  rw [mem_types_iff, mem_types_iff]
  refine outside_exists tree left gone thinned _ _ fun place same outside => ?_
  rw [origin_kind tree left gone thinned place same, ← fills_origin tree left gone plain thinned place same outside "name" _ (by decide)]
  refine and_congr_right fun kind => ?_
  rw [name_text tree left gone plain thinned place same outside (by simp [kind, nameKinds])]

theorem references_origin (binding kept : Binding) (imported : tree.Imports binding) (present : left.Imports kept)
    (same : kept.localName = binding.localName) : left.usage.isReferenced kept = tree.usage.isReferenced binding := by
  rw [Bool.eq_iff_iff, is_referenced_iff left kept present, is_referenced_iff tree binding imported, same]
  refine outside_exists tree left gone thinned _ _ fun place root outside => ?_
  have property := fills_origin tree left gone plain thinned place root outside "property" ["member_expression"] (by decide)
  have key := fills_origin tree left gone plain thinned place root outside "key" ["pair", "pair_pattern"] (by decide)
  rw [origin_kind tree left gone thinned place root, property, key]
  refine and_congr_right fun kind => ?_
  have name : place.kind ∈ nameKinds := by
    rcases (by simpa [referenceKinds] using kind) with kind | kind <;> simp [kind, nameKinds]
  rw [name_text tree left gone plain thinned place root outside name]

-- Each of the three indexes answers for a name as it did before.
theorem is_live_origin (binding kept : Binding) (imported : tree.Imports binding) (present : left.Imports kept)
    (same : kept.localName = binding.localName) : left.usage.isLive kept = tree.usage.isLive binding := by
  have references := references_origin tree left gone plain thinned binding kept imported present same
  have markup : left.usage.isInMarkup kept.localName = tree.usage.isInMarkup binding.localName := by
    rw [Bool.eq_iff_iff, is_in_markup_iff, is_in_markup_iff, same, markup_origin tree left gone plain thinned]
  have types : left.usage.isType kept.localName = tree.usage.isType binding.localName := by
    rw [Bool.eq_iff_iff, is_type_iff, is_type_iff, same, types_origin tree left gone plain thinned, thinned.dialect]
  rw [Usage.isLive, Usage.isLive, references, markup, types]

end Origins

end ScriptTidy.SourceTree
