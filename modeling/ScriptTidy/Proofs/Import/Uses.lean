import ScriptTidy.Proofs.Import.Bindings
import ScriptTidy.Proofs.Tree.Family

/-! What a use of a name is, and that the names collected once for a file answer for all uses in it. -/

set_option autoImplicit false

namespace ScriptTidy

open Place

namespace Place

-- The answer for a field of a parent of one of these kinds.
def Fills (place : Place) (field : String) (kinds : List String) : Prop :=
  ∃ parent, place.parent? = some parent ∧ parent.kind ∈ kinds ∧ parent.childByField? field = some place

def BelowImport (place : Place) : Prop := ∃ top, place.Below top ∧ top.kind = "import_statement"

-- The part in front of the last dot.
def object? (name : Place) : Option Place := (name.childByField? "object").or name.namedChildren.head?

inductive Leftmost : Place → Place → Prop where
  | plain (name : Place) (kind : name.kind = "identifier" ∨ name.kind = "jsx_identifier") : Leftmost name name
  | dotted (name object first : Place) (kind : name.kind = "member_expression" ∨ name.kind = "nested_identifier")
      (found : name.object? = some object) (deeper : Leftmost object first) : Leftmost name first

end Place

-- The places at which a file uses a name.
inductive Use (tree : SourceTree) (name : Text) : Place → Prop where
  | value (place : Place) (kind : place.kind = "identifier" ∨ place.kind = "shorthand_property_identifier")
      (outside : ¬ place.BelowImport) (member : ¬ place.Fills "property" ["member_expression"])
      (key : ¬ place.Fills "key" ["pair", "pair_pattern"]) (spelled : tree.textOf place.node = name) : Use tree name place
  | elementName (element written place : Place)
      (kind : element.kind ∈ ["jsx_opening_element", "jsx_closing_element", "jsx_self_closing_element"])
      (named : element.childByField? "name" = some written) (first : Leftmost written place)
      (spelled : tree.textOf place.node = name) : Use tree name place
  | attributeName (holder place : Place) (kind : holder.kind = "jsx_attribute")
      (named : holder.namedChildren.head? = some place) (plain : place.kind ≠ "jsx_namespace_name")
      (spelled : tree.textOf place.node = name) : Use tree name place
  | typeName (place : Place) (typed : tree.dialect.isTyped = true) (kind : place.kind = "type_identifier")
      (outside : ¬ place.BelowImport)
      (refers : ¬ place.Fills "name" ["interface_declaration", "type_alias_declaration", "class_declaration",
        "abstract_class_declaration", "type_parameter"])
      (spelled : tree.textOf place.node = name) : Use tree name place

namespace Place

theorem leftmost_where (wanted : Label → Bool) (parent : Label) (above : List Step) (nodes : List Node) : ∀ passed : List Node,
    leftmostWhere wanted parent above passed nodes =
      ((childrenUnder parent above passed nodes).find? fun child => wanted child.node.label).map leftmost? := by
  induction nodes with
  | nil => exact fun _ => rfl
  | cons first others ih =>
      intro passed
      rw [leftmostWhere, childrenUnder, List.find?_cons]
      by_cases fits : wanted first.label = true
      · simp [fits, leftmost?]
      · simp [fits, ih]

theorem first_of_either {α β : Type} (one other : Option α) (answer : α → Option β) :
    (one.map answer).getD ((other.map answer).getD none) = (one.or other).bind answer := by
  cases one with
  | some value => rfl
  | none => cases other <;> rfl

theorem leftmost_eq (name : Place) : name.leftmost? =
    if name.kind = "identifier" ∨ name.kind = "jsx_identifier" then some name
    else if name.kind = "member_expression" ∨ name.kind = "nested_identifier" then name.object?.bind leftmost?
    else none := by
  obtain ⟨⟨label, nodes⟩, steps⟩ := name
  have kind : (⟨.mk label nodes, steps⟩ : Place).kind = label.kind := rfl
  rw [leftmost?, leftmostVia, kind]
  simp only [Bool.or_eq_true, beq_iff_eq]
  split
  · rfl
  · split
    · rw [leftmost_where, leftmost_where, first_of_either, object?, namedChildren, List.head?_filter]
      rfl
    · rfl

theorem object_child (name object : Place) (found : name.object? = some object) : object ∈ name.children := by
  rcases Option.or_eq_some_iff.mp found with field | ⟨_, first⟩
  · exact List.mem_of_find?_eq_some field
  · exact (List.mem_filter.mp (List.mem_of_head? first)).1

theorem leftmost_of_relation (name first : Place) (leftmost : Leftmost name first) : name.leftmost? = some first := by
  induction leftmost with
  | plain name kind => rw [leftmost_eq, if_pos kind]
  | dotted name object first kind found deeper ih =>
      have dotted : ¬ (name.kind = "identifier" ∨ name.kind = "jsx_identifier") := by
        rcases kind with kind | kind <;> simp [kind]
      rw [leftmost_eq, if_neg dotted, if_pos kind, found]
      exact ih

theorem relation_of_leftmost (name first : Place) (found : name.leftmost? = some first) : Leftmost name first := by
  rw [leftmost_eq] at found
  split at found
  next plain => exact Option.some.inj found ▸ .plain name plain
  next =>
    split at found
    next dotted =>
      obtain ⟨object, front, deeper⟩ := Option.bind_eq_some_iff.mp found
      have smaller := child_size name object (object_child name object front)
      exact .dotted name object first dotted front (relation_of_leftmost object first deeper)
    next => cases found
termination_by sizeOf name.node

theorem leftmost_iff (name first : Place) : name.leftmost? = some first ↔ Leftmost name first :=
  ⟨relation_of_leftmost name first, leftmost_of_relation name first⟩

theorem leftmost_within (name first : Place) (leftmost : Leftmost name first) : first.Within name := by
  induction leftmost with
  | plain name kind => exact .inl rfl
  | dotted name object first kind found deeper ih =>
      exact within_trans first object name ih (.inr (child_below name object (object_child name object found)))

theorem member_or_key_iff (place : Place) : place.isMemberOrKey = true ↔
    place.Fills "property" ["member_expression"] ∨ place.Fills "key" ["pair", "pair_pattern"] := by
  cases above : place.parent? with
  | none => simp [isMemberOrKey, Fills, above]
  | some parent =>
      simp only [isMemberOrKey, above]
      by_cases member : parent.kind = "member_expression"
      · simp [is_field_iff, Fills, above, member]
      · by_cases pair : parent.kind = "pair" ∨ parent.kind = "pair_pattern"
        · simp [is_field_iff, Fills, above, member, pair]
        · simp [Fills, above, member, pair]

theorem type_declaration_name_iff (place : Place) : place.isTypeDeclarationName = true ↔ place.Fills "name" typeDeclarationKinds := by
  cases above : place.parent? with
  | none => simp [isTypeDeclarationName, Fills, above]
  | some parent => simp [isTypeDeclarationName, is_field_iff, Fills, above]

theorem not_below_import (place : Place) (outside : place.isUnder "import_statement" = false) : ¬ place.BelowImport := by
  rintro ⟨top, below, kind⟩
  rw [(is_under_iff place "import_statement").mpr ⟨top, .inr below, kind⟩] at outside
  cases outside

theorem not_under_import (place : Place) (outside : ¬ place.BelowImport) (other : place.kind ≠ "import_statement") :
    place.isUnder "import_statement" = false := by
  rw [← Bool.not_eq_true, is_under_iff]
  rintro ⟨top, rfl | below, kind⟩
  · exact other kind
  · exact outside ⟨top, below, kind⟩

end Place

namespace SourceTree

variable (tree : SourceTree) (name : Text)

theorem child_root (parent child : Place) (same : parent.root = tree.root) (member : child ∈ parent.children) :
    child.root = tree.root :=
  (parent_root child parent ((mem_children_iff parent child).mp member)).symm.trans same

theorem within_tree (place other : Place) (same : other.root = tree.root) (within : place.Within other) :
    place.root = tree.root := (within_root place other within).symm.trans same

theorem above_in_tree (place top : Place) (member : place ∈ tree.places) (within : place.Within top) : top ∈ tree.places :=
  (mem_places_iff tree top).mpr ((within_root place top within).trans ((mem_places_iff tree place).mp member))

theorem mem_markup_iff : name ∈ tree.markupNames ↔
    (∃ element ∈ tree.places, element.kind ∈ elementKinds ∧ tree.elementName? element = some name) ∨
      ∃ holder ∈ tree.places, holder.kind = "jsx_attribute" ∧ tree.attributeName? holder = some name := by
  simp [markupNames, find, and_assoc]

theorem element_name_iff (element : Place) : tree.elementName? element = some name ↔
    ∃ written place, element.childByField? "name" = some written ∧ Leftmost written place ∧ tree.textOf place.node = name := by
  simp [elementName?, leftmost_iff, Option.bind_eq_some_iff]

theorem attribute_name_iff (holder : Place) : tree.attributeName? holder = some name ↔
    ∃ place, holder.namedChildren.head? = some place ∧ place.kind ≠ "jsx_namespace_name" ∧
      tree.textOf place.node = name := by
  unfold attributeName?
  cases holder.namedChildren with
  | nil => simp
  | cons place rest =>
      by_cases spaced : place.kind = "jsx_namespace_name"
      · simp [spaced]
      · simp [spaced]

theorem markup_use (found : name ∈ tree.markupNames) : ∃ place ∈ tree.places, Use tree name place := by
  rcases (mem_markup_iff tree name).mp found with ⟨element, member, kind, given⟩ | ⟨holder, member, kind, given⟩
  · obtain ⟨written, place, named, first, spelled⟩ := (element_name_iff tree name element).mp given
    have inside := child_root tree element written ((mem_places_iff tree element).mp member)
      (field_child element written "name" named)
    have same := within_tree tree place written inside (leftmost_within written place first)
    exact ⟨place, (mem_places_iff tree place).mpr same, .elementName element written place kind named first spelled⟩
  · obtain ⟨place, named, plain, spelled⟩ := (attribute_name_iff tree name holder).mp given
    have child := (List.mem_filter.mp (List.mem_of_head? named)).1
    have same := child_root tree holder place ((mem_places_iff tree holder).mp member) child
    exact ⟨place, (mem_places_iff tree place).mpr same, .attributeName holder place kind named plain spelled⟩

theorem element_in_markup (element written place : Place) (member : place ∈ tree.places) (kind : element.kind ∈ elementKinds)
    (named : element.childByField? "name" = some written) (first : Leftmost written place)
    (spelled : tree.textOf place.node = name) : name ∈ tree.markupNames := by
  have below := child_below element written (field_child element written "name" named)
  have within := within_trans place written element (leftmost_within written place first) (.inr below)
  exact (mem_markup_iff tree name).mpr (.inl ⟨element, above_in_tree tree place element member within, kind,
    (element_name_iff tree name element).mpr ⟨written, place, named, first, spelled⟩⟩)

theorem attribute_in_markup (holder place : Place) (member : place ∈ tree.places) (kind : holder.kind = "jsx_attribute")
    (named : holder.namedChildren.head? = some place) (plain : place.kind ≠ "jsx_namespace_name")
    (spelled : tree.textOf place.node = name) : name ∈ tree.markupNames := by
  have below := child_below holder place (List.mem_filter.mp (List.mem_of_head? named)).1
  exact (mem_markup_iff tree name).mpr (.inr ⟨holder, above_in_tree tree place holder member (.inr below), kind,
    (attribute_name_iff tree name holder).mpr ⟨place, named, plain, spelled⟩⟩)

-- The names of types in use; a type's own declaration is no use of it.
theorem mem_types_iff : name ∈ tree.typeNames ↔ ∃ place ∈ tree.places, place.isUnder "import_statement" = false ∧
    place.kind = "type_identifier" ∧ ¬ place.Fills "name" typeDeclarationKinds ∧ tree.textOf place.node = name := by
  simp only [typeNames, find, List.mem_map, List.mem_filter, Bool.and_eq_true, Bool.not_eq_true', beq_iff_eq,
    ← type_declaration_name_iff, Bool.not_eq_true]
  refine exists_congr fun place => ?_
  constructor
  · rintro ⟨⟨⟨member, kind⟩, own, outside⟩, spelled⟩
    exact ⟨member, outside, kind, own, spelled⟩
  · rintro ⟨member, outside, kind, own, spelled⟩
    exact ⟨⟨⟨member, kind⟩, own, outside⟩, spelled⟩

section Live

variable (binding : Binding)

-- The identifier that declares an imported name lies in an import statement, where nothing counts as a reference.
def Imports : Prop := binding.declaration.root = tree.root ∧ binding.declaration.isUnder "import_statement" = true

theorem imports_of_binding (declaration : ImportDeclaration) (declared : declaration ∈ tree.importDeclarations)
    (member : binding ∈ declaration.bindings) : tree.Imports binding := by
  obtain ⟨statement, same, kind, rfl⟩ := (mem_declarations_iff tree declaration).mp declared
  obtain ⟨clause, found, bound⟩ := (mem_bindings_iff tree statement binding).mp member
  obtain ⟨other, again, below⟩ := binding_below tree statement binding member
  obtain rfl := Option.some.inj (found.symm.trans again)
  have child := child_below statement clause (declaration_clause tree statement clause found).1
  have within := within_trans binding.declaration binding.specifier statement (declaration_within tree clause binding bound)
    (.inr (below_trans binding.specifier clause statement below child))
  exact ⟨within_tree tree binding.declaration statement same within,
    (is_under_iff binding.declaration _).mpr ⟨statement, within, kind⟩⟩

variable (imported : tree.Imports binding)

include imported

theorem reference_iff (place : Place) (same : place.root = tree.root) :
    Usage.isValueReference binding.declaration place = true ↔ place.isUnder "import_statement" = false ∧
      ¬ place.Fills "property" ["member_expression"] ∧ ¬ place.Fills "key" ["pair", "pair_pattern"] := by
  have away : place.isUnder "import_statement" = false → place.isAt binding.declaration = false := fun outside => by
    rw [← Bool.not_eq_true, is_at_iff place binding.declaration (same.trans imported.1.symm)]
    rintro rfl
    rw [imported.2] at outside
    cases outside
  simp only [Usage.isValueReference, Bool.and_eq_true, Bool.not_eq_true', ← not_or, ← member_or_key_iff, Bool.not_eq_true]
  constructor
  · exact fun ⟨⟨_, free⟩, outside⟩ => ⟨outside, free⟩
  · exact fun ⟨outside, free⟩ => ⟨⟨away outside, free⟩, outside⟩

theorem is_referenced_iff : tree.usage.isReferenced binding = true ↔ ∃ place ∈ tree.places,
    place.isUnder "import_statement" = false ∧ place.kind ∈ referenceKinds ∧ ¬ place.Fills "property" ["member_expression"] ∧
      ¬ place.Fills "key" ["pair", "pair_pattern"] ∧ tree.textOf place.node = binding.localName := by
  simp only [Usage.isReferenced, usage, List.any_map, List.any_eq_true, List.mem_filter, List.contains_eq_mem,
    decide_eq_true_eq, Function.comp_apply, Bool.and_eq_true, beq_iff_eq, and_assoc]
  refine exists_congr fun place => and_congr_right fun member => ?_
  rw [reference_iff tree binding imported place ((mem_places_iff tree place).mp member)]
  constructor
  · exact fun ⟨kind, spelled, outside, property, key⟩ => ⟨outside, kind, property, key, spelled⟩
  · exact fun ⟨outside, kind, property, key, spelled⟩ => ⟨kind, spelled, outside, property, key⟩

omit imported in
theorem is_in_markup_iff : tree.usage.isInMarkup binding.localName = true ↔ binding.localName ∈ tree.markupNames := by
  simp [Usage.isInMarkup, usage]

omit imported in
theorem is_type_iff : tree.usage.isType binding.localName = true ↔
    tree.dialect.isTyped = true ∧ binding.localName ∈ tree.typeNames := by
  by_cases typed : tree.dialect.isTyped = true
  · simp [Usage.isType, usage, typed]
  · simp [Usage.isType, usage, typed]

theorem is_live_iff : tree.usage.isLive binding = true ↔ ∃ place ∈ tree.places, Use tree binding.localName place := by
  rw [Usage.isLive, Bool.or_eq_true, Bool.or_eq_true, is_referenced_iff tree binding imported, is_in_markup_iff, is_type_iff,
    mem_types_iff]
  constructor
  · rintro ((⟨place, member, outside, kind, property, key, spelled⟩ | markup) |
      ⟨typed, place, member, outside, kind, own, spelled⟩)
    · exact ⟨place, member, .value place (by simpa [referenceKinds] using kind)
        (not_below_import place outside) property key spelled⟩
    · exact markup_use tree binding.localName markup
    · exact ⟨place, member, .typeName place typed kind (not_below_import place outside) own spelled⟩
  · rintro ⟨place, member, use⟩
    cases use with
    | value place kind outside property key spelled =>
        exact .inl (.inl ⟨place, member, not_under_import place outside (by rcases kind with kind | kind <;> simp [kind]),
          by simpa [referenceKinds] using kind, property, key, spelled⟩)
    | elementName element written place kind named first spelled =>
        exact .inl (.inr (element_in_markup tree _ element written place member kind named first spelled))
    | attributeName holder place kind named plain spelled =>
        exact .inl (.inr (attribute_in_markup tree _ holder place member kind named plain spelled))
    | typeName place typed kind outside own spelled =>
        exact .inr ⟨typed, place, member, not_under_import place outside (by simp [kind]), kind, own, spelled⟩

end Live

-- Pruning is given the names that are neither exempt nor live.
theorem handed_iff (options : Options) (declaration : ImportDeclaration) (declared : declaration ∈ tree.importDeclarations)
    (binding : Binding) (member : binding ∈ declaration.bindings) :
    (∃ dead, (declaration, dead) ∈ tree.candidates options ∧ binding ∈ dead) ↔
      isRemovable options tree.usage binding = true := by
  have named : declaration.isForEffects = false := by
    rw [ImportDeclaration.isForEffects, List.isEmpty_eq_false_iff]
    exact List.ne_nil_of_mem member
  constructor
  · rintro ⟨dead, candidate, inside⟩
    obtain ⟨_, _, rfl⟩ := (mem_candidates_iff tree options declaration dead).mp candidate
    exact ((mem_dead_iff tree options declaration binding).mp inside).2
  · exact fun removable => ⟨_, (mem_candidates_iff tree options declaration _).mpr ⟨declared, named, rfl⟩,
      (mem_dead_iff tree options declaration binding).mpr ⟨member, removable⟩⟩

-- A name is handed on for removal just if it is not exempt and nothing in the file uses it.
theorem dead_iff_unused (tree : SourceTree) (options : Options) (declaration : ImportDeclaration)
    (declared : declaration ∈ tree.importDeclarations) (binding : Binding) (member : binding ∈ declaration.bindings) :
    (tree.usage.isLive binding = true ↔ ∃ place ∈ tree.places, Use tree binding.localName place) ∧
      ((∃ dead, (declaration, dead) ∈ tree.candidates options ∧ binding ∈ dead) ↔
        options.isExempt binding.localName = false ∧ ∀ place ∈ tree.places, ¬ Use tree binding.localName place) := by
  have live := is_live_iff tree binding (imports_of_binding tree binding declaration declared member)
  have unused : tree.usage.isLive binding = false ↔ ∀ place ∈ tree.places, ¬ Use tree binding.localName place := by
    rw [← Bool.not_eq_true, live]
    exact ⟨fun none place present use => none ⟨place, present, use⟩, fun none ⟨place, present, use⟩ => none place present use⟩
  rw [handed_iff tree options declaration declared binding member, isRemovable, Bool.and_eq_true, Bool.not_eq_true', Bool.not_eq_true', unused]
  exact ⟨live, Iff.rfl⟩

open Node in
-- Names in a dotted tag, as an attribute, as a member, as an object and as a type, and one that is declared anew.
def usesSample : SourceTree where
  path := "p.tsx".toList
  dialect := .tsx
  text := "import \x7b A, b, B, c, D, E \x7d from \x22m\x22;\ninterface E \x7b d: D \x7d\n<A.x.y b=\x7bc.B\x7d />;\n".toList
  root := rule "program" 0 78 [
      rule "import_statement" 0 37 [
        token "import" 0 6,
        rule "import_clause" 7 27 [
          rule "named_imports" 7 27 [
            token "\x7b" 7 8, rule "import_specifier" 9 10 [field "name" (rule "identifier" 9 10 [])], token "," 10 11,
            rule "import_specifier" 12 13 [field "name" (rule "identifier" 12 13 [])], token "," 13 14,
            rule "import_specifier" 15 16 [field "name" (rule "identifier" 15 16 [])], token "," 16 17,
            rule "import_specifier" 18 19 [field "name" (rule "identifier" 18 19 [])], token "," 19 20,
            rule "import_specifier" 21 22 [field "name" (rule "identifier" 21 22 [])], token "," 22 23,
            rule "import_specifier" 24 25 [field "name" (rule "identifier" 24 25 [])], token "\x7d" 26 27]],
        token "from" 28 32,
        field "source" (rule "string" 33 36 [token "\x22" 33 34, rule "string_fragment" 34 35 [], token "\x22" 35 36]),
        token ";" 36 37],
      rule "interface_declaration" 38 58 [
        token "interface" 38 47, field "name" (rule "type_identifier" 48 49 []),
        field "body" (rule "interface_body" 50 58 [
          token "\x7b" 50 51,
          rule "property_signature" 52 56 [
            field "name" (rule "property_identifier" 52 53 []),
            field "type" (rule "type_annotation" 53 56 [token ":" 53 54, rule "type_identifier" 55 56 []])],
          token "\x7d" 57 58])],
      rule "expression_statement" 59 77 [
        rule "jsx_self_closing_element" 59 76 [
          token "<" 59 60,
          field "name" (rule "member_expression" 60 65 [
            field "object" (rule "member_expression" 60 63 [
              field "object" (rule "identifier" 60 61 []), token "." 61 62,
              field "property" (rule "property_identifier" 62 63 [])]),
            token "." 63 64, field "property" (rule "property_identifier" 64 65 [])]),
          field "attribute" (rule "jsx_attribute" 66 73 [
            rule "property_identifier" 66 67 [], token "=" 67 68,
            rule "jsx_expression" 68 73 [
              token "\x7b" 68 69,
              rule "member_expression" 69 72 [
                field "object" (rule "identifier" 69 70 []), token "." 70 71,
                field "property" (rule "property_identifier" 71 72 [])],
              token "\x7d" 72 73]]),
          token "/>" 74 76],
        token ";" 76 77]]

def usesDeclaration : ImportDeclaration := usesSample.importDeclarations.get ⟨0, by decide +kernel⟩

def usesBinding (index : Fin usesDeclaration.bindings.length) : Binding := usesDeclaration.bindings.get index

theorem sample_names_dead_iff_unused : usesDeclaration ∈ usesSample.importDeclarations ∧
    usesDeclaration.bindings.map (·.localName) = ["A", "b", "B", "c", "D", "E"].map String.toList ∧
    (∃ place ∈ usesSample.places, Use usesSample "A".toList place) ∧
    (∃ dead, (usesDeclaration, dead) ∈ usesSample.candidates .default ∧ usesBinding ⟨2, by decide +kernel⟩ ∈ dead) ∧
    ∀ place ∈ usesSample.places, ¬ Use usesSample "B".toList place := by
  have declared : usesDeclaration ∈ usesSample.importDeclarations := List.get_mem _ _
  have used := dead_iff_unused usesSample .default usesDeclaration declared (usesBinding ⟨0, by decide +kernel⟩) (List.get_mem _ _)
  have unused := dead_iff_unused usesSample .default usesDeclaration declared (usesBinding ⟨2, by decide +kernel⟩) (List.get_mem _ _)
  have first : (usesBinding ⟨0, by decide +kernel⟩).localName = "A".toList := by decide +kernel
  have third : (usesBinding ⟨2, by decide +kernel⟩).localName = "B".toList := by decide +kernel
  have live : usesSample.usage.isLive (usesBinding ⟨0, by decide +kernel⟩) = true := by decide +kernel
  have dead : usesSample.usage.isLive (usesBinding ⟨2, by decide +kernel⟩) = false := by decide +kernel
  rw [first] at used
  rw [third, dead] at unused
  have none : ∀ place ∈ usesSample.places, ¬ Use usesSample "B".toList place :=
    fun place present use => Bool.noConfusion (unused.1.mpr ⟨place, present, use⟩)
  exact ⟨declared, by decide +kernel, used.1.mp live, unused.2.mpr ⟨by decide +kernel, none⟩, none⟩

end SourceTree

end ScriptTidy
