import ScriptTidy.Proofs.Import.Pruned

/-! The bindings of an import clause, each with the element that makes it. -/

set_option autoImplicit false

namespace ScriptTidy.SourceTree

open Place

inductive Bound (tree : SourceTree) (clause : Place) : Binding → Prop where
  | default (name : Place) (member : name ∈ clause.children) (kind : name.kind = "identifier") :
      Bound tree clause (tree.bind .default name name)
  | wholeModule (star name : Place) (member : star ∈ clause.children) (kind : star.kind = "namespace_import")
      (found : star.children.find? (·.kind == "identifier") = some name) : Bound tree clause (tree.bind .wholeModule star name)
  | named (list specifier name : Place) (member : list ∈ clause.children) (kind : list.kind = "named_imports")
      (inside : specifier ∈ list.children) (listed : specifier.kind = "import_specifier")
      (found : (specifier.childByField? "alias").or (specifier.childByField? "name") = some name)
      (plain : name.kind = "identifier") : Bound tree clause (tree.bind .named specifier name)

variable (tree : SourceTree) (clause statement : Place) (binding : Binding)

theorem field_child (place child : Place) (field : String) (found : place.childByField? field = some child) :
    child ∈ place.children := List.mem_of_find?_eq_some found

-- The local name of a specifier is one of its children.
theorem local_name_child (specifier name : Place)
    (found : (specifier.childByField? "alias").or (specifier.childByField? "name") = some name) : name ∈ specifier.children := by
  rcases Option.or_eq_some_iff.mp found with other | ⟨_, own⟩
  · exact field_child specifier name "alias" other
  · exact field_child specifier name "name" own

theorem specifier_element_bound (specifier : Place) (bound : tree.specifierElement specifier = .bound binding) :
    ∃ name, (specifier.childByField? "alias").or (specifier.childByField? "name") = some name ∧ name.kind = "identifier" ∧
      binding = tree.bind .named specifier name := by
  unfold specifierElement at bound
  split at bound
  next name found =>
    split at bound
    next plain => exact ⟨name, found, by simpa using plain, (ClauseElement.bound.inj bound).symm⟩
    next => cases bound
  next => cases bound

theorem bound_of_element (member : ClauseElement.bound binding ∈ tree.clauseElements clause) : Bound tree clause binding := by
  obtain ⟨child, present, made⟩ := List.mem_flatMap.mp member
  unfold childElements at made
  split at made
  next name =>
    obtain rfl := ClauseElement.bound.inj (List.mem_singleton.mp made)
    exact .default child present (by simpa using name)
  next =>
    split at made
    next whole =>
      split at made
      next own found =>
        obtain rfl := ClauseElement.bound.inj (List.mem_singleton.mp made)
        exact .wholeModule child own present (by simpa using whole) found
      next => exact absurd made List.not_mem_nil
    next =>
      split at made
      next list =>
        obtain ⟨specifier, inside, shape⟩ := List.mem_map.mp made
        obtain ⟨listed, kind⟩ := List.mem_filter.mp inside
        obtain ⟨name, found, plain, rfl⟩ := specifier_element_bound tree binding specifier shape
        exact .named child specifier name present (by simpa using list) listed (by simpa using kind) found plain
      next => exact absurd made List.not_mem_nil

-- A specifier of a list is an element, whether it binds a name or not.
theorem specifier_listed (list specifier : Place) (member : list ∈ clause.children) (kind : list.kind = "named_imports")
    (inside : specifier ∈ list.children) (listed : specifier.kind = "import_specifier") :
    tree.specifierElement specifier ∈ tree.clauseElements clause := by
  have elements : tree.childElements list = (list.children.filter (·.kind == "import_specifier")).map tree.specifierElement := by
    simp [childElements, kind]
  refine List.mem_flatMap.mpr ⟨list, member, ?_⟩
  rw [elements]
  exact List.mem_map_of_mem (List.mem_filter.mpr ⟨inside, by simpa using listed⟩)

theorem element_of_bound (bound : Bound tree clause binding) : ClauseElement.bound binding ∈ tree.clauseElements clause := by
  cases bound with
  | default name member kind => exact List.mem_flatMap.mpr ⟨name, member, by simp [childElements, kind]⟩
  | wholeModule star name member kind found =>
      exact List.mem_flatMap.mpr ⟨star, member, by simp [childElements, kind, found]⟩
  | named list specifier name member kind inside listed found plain =>
      have shape : tree.specifierElement specifier = .bound (tree.bind .named specifier name) := by
        simp [specifierElement, found, plain]
      exact shape ▸ specifier_listed tree clause list specifier member kind inside listed

theorem mem_bindings_iff : binding ∈ (tree.importDeclaration statement).bindings ↔
    ∃ clause, (tree.importDeclaration statement).clause = some clause ∧ Bound tree clause binding := by
  have listed : binding ∈ (tree.importDeclaration statement).bindings ↔
      ClauseElement.bound binding ∈ (tree.importDeclaration statement).elements := by
    rw [ImportDeclaration.bindings, List.mem_filterMap]
    constructor
    · rintro ⟨element, present, shape⟩
      cases element with
      | nameless specifier => cases shape
      | bound other => exact Option.some.inj shape ▸ present
    · exact fun present => ⟨.bound binding, present, rfl⟩
  rw [listed, declaration_elements]
  cases (tree.importDeclaration statement).clause with
  | none => simp
  | some clause =>
      refine ⟨fun present => ⟨clause, rfl, bound_of_element tree clause binding present⟩, fun ⟨other, same, bound⟩ => ?_⟩
      exact element_of_bound tree clause binding (Option.some.inj same ▸ bound)

variable (bound : Bound tree clause binding)

include bound

theorem declaration_within : binding.declaration.Within binding.specifier := by
  cases bound with
  | default name member kind => exact .inl rfl
  | wholeModule star name member kind found => exact .inr (child_below star name (List.mem_of_find?_eq_some found))
  | named list specifier name member kind inside listed found plain =>
      exact .inr (child_below specifier name (local_name_child specifier name found))

end ScriptTidy.SourceTree
