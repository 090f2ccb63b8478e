import ScriptTidy.Proofs.Import.KeptUses
import ScriptTidy.Proofs.Transform.Untouched

/-! One pass is enough: with its dead names taken out, a file holds no name that could be removed. -/

set_option autoImplicit false

namespace ScriptTidy

open Place

-- Holds of the elements that pruning takes out.
def ClauseElement.isSpent (options : Options) (usage : Usage) : ClauseElement → Bool
  | .bound binding => SourceTree.isRemovable options usage binding
  | .nameless _ => false

namespace SourceTree

-- All dead names are taken out, and nothing that holds another element or is a part of one. So a statement or a braced list
-- can go only if all its elements do; commas and braces may go or stay.
structure TakesDead (tree : SourceTree) (options : Options) (gone : Place → Bool) : Prop where
  dead : ∀ declaration ∈ tree.importDeclarations, ∀ binding ∈ declaration.bindings,
    isRemovable options tree.usage binding = true → ∃ top ∈ tree.places, gone top = true ∧ binding.specifier.isWithin top = true
  only : ∀ declaration ∈ tree.importDeclarations, ∀ element ∈ declaration.elements, ∀ place ∈ tree.places, gone place = true →
    (place.isWithin element.place || element.place.isWithin place) = true → element.isSpent options tree.usage = true

instance (tree : SourceTree) (options : Options) (gone : Place → Bool) : Decidable (TakesDead tree options gone) :=
  decidable_of_iff ((∀ declaration ∈ tree.importDeclarations, ∀ binding ∈ declaration.bindings,
        isRemovable options tree.usage binding = true →
          ∃ top ∈ tree.places, gone top = true ∧ binding.specifier.isWithin top = true) ∧
      ∀ declaration ∈ tree.importDeclarations, ∀ element ∈ declaration.elements, ∀ place ∈ tree.places, gone place = true →
        (place.isWithin element.place || element.place.isWithin place) = true → element.isSpent options tree.usage = true)
    ⟨fun ⟨dead, only⟩ => ⟨dead, only⟩, fun exact => ⟨exact.dead, exact.only⟩⟩

section Settled

variable (tree left : SourceTree) (gone : Place → Bool) (plain : PlainImports tree) (thinned : ImportsThinned tree left gone)

include thinned

-- A binding whose specifier is still there is not one that was to go.
theorem kept_not_removable (options : Options) (exact : TakesDead tree options gone) (declaration : ImportDeclaration)
    (declared : declaration ∈ tree.importDeclarations) (binding : Binding) (bound : binding ∈ declaration.bindings)
    (lower : Place) (same : lower.root = left.root) (stands : origin tree gone lower = binding.specifier) :
    isRemovable options tree.usage binding = false := by
  rw [← Bool.not_eq_true]
  intro removable
  obtain ⟨top, member, lost, above⟩ := exact.dead declaration declared binding bound removable
  rw [← stands, is_within_iff _ top ((origin_in_tree tree gone lower).trans ((mem_places_iff tree top).mp member).symm)] at above
  rw [origin_stays tree left gone thinned.toThinned top lower same above] at lost
  cases lost

-- An element that is still there is there as a whole.
theorem element_whole (options : Options) (exact : TakesDead tree options gone) (declaration : ImportDeclaration)
    (declared : declaration ∈ tree.importDeclarations) (element : ClauseElement) (listed : element ∈ declaration.elements)
    (lower : Place) (same : lower.root = left.root) (stands : origin tree gone lower = element.place) (place : Place)
    (within : place.Within element.place) : gone place = false := by
  have root : element.place.root = tree.root := stands ▸ origin_in_tree tree gone lower
  have inner := within_tree tree place element.place root within
  rw [← Bool.not_eq_true]
  intro lost
  have spent := exact.only declaration declared element listed place ((mem_places_iff tree place).mpr inner) lost
    (by rw [(is_within_iff place element.place (inner.trans root.symm)).mpr within, Bool.true_or])
  cases element with
  | nameless specifier => cases spent
  | bound binding =>
      have bound : binding ∈ declaration.bindings := List.mem_filterMap.mpr ⟨.bound binding, listed, rfl⟩
      have kept := kept_not_removable tree left gone thinned options exact declaration declared binding bound lower same stands
      rw [ClauseElement.isSpent, kept] at spent
      cases spent

theorem kept_child (place child : Place) (same : place.root = left.root) (member : child ∈ place.children) :
    child.root = left.root ∧ origin tree gone child ∈ (origin tree gone place).children ∧
      (origin tree gone child).kind = child.kind := by
  have root := child_root left place child same member
  exact ⟨root, (origin_child tree left gone place thinned.toThinned same child member).1,
    origin_kind tree left gone thinned child root⟩

section Whole

variable (clause : Place) (same : clause.root = left.root)
  (whole : ∀ element ∈ tree.clauseElements (origin tree gone clause), ∀ lower : Place, lower.root = left.root →
    origin tree gone lower = element.place → ∀ place : Place, place.Within element.place → gone place = false)

include whole

theorem whole_text (element : ClauseElement) (listed : element ∈ tree.clauseElements (origin tree gone clause))
    (lower name : Place) (inner : lower.root = left.root) (stands : origin tree gone lower = element.place)
    (root : name.root = left.root) (within : (origin tree gone name).Within element.place) :
    left.textOf name.node = tree.textOf (origin tree gone name).node :=
  thinned.texts name ((mem_places_iff left name).mpr root) fun part inside =>
    whole element listed lower inner stands part (within_trans part _ element.place (Node.places_within _ _ part inside) within)

omit thinned in
theorem whole_intact (element : ClauseElement) (listed : element ∈ tree.clauseElements (origin tree gone clause))
    (lower : Place) (inner : lower.root = left.root) (stands : origin tree gone lower = element.place) :
    ∀ child ∈ (origin tree gone lower).children, gone child = false := fun child member =>
  whole element listed lower inner stands child (.inr (stands ▸ child_below _ child member))

include same

theorem whole_module_origin (star name : Place) (member : star ∈ clause.children) (kind : star.kind = "namespace_import")
    (found : star.children.find? (·.kind == "identifier") = some name) :
    Bound tree (origin tree gone clause) (tree.bind .wholeModule (origin tree gone star) (origin tree gone name)) ∧
      left.textOf name.node = tree.textOf (origin tree gone name).node := by
  obtain ⟨root, child, sameKind⟩ := kept_child tree left gone thinned clause star same member
  obtain ⟨inner, lower, nameKind⟩ := kept_child tree left gone thinned star name root (List.mem_of_find?_eq_some found)
  cases first : (origin tree gone star).children.find? (·.kind == "identifier") with
  | none =>
      have other := List.find?_eq_none.mp first _ lower
      rw [nameKind] at other
      exact absurd (List.find?_some (p := fun place : Place => place.kind == "identifier") found) other
  | some own =>
      have before : Bound tree (origin tree gone clause) (tree.bind .wholeModule (origin tree gone star) own) :=
        .wholeModule _ own child (sameKind.trans kind) first
      have listed := element_of_bound tree _ _ before
      have intact := whole_intact tree left gone clause whole _ listed star root rfl
      rw [find_origin tree left gone star thinned.toThinned root intact _ fun part inside => by
        rw [(kept_child tree left gone thinned star part root inside).2.2], found] at first
      obtain rfl := Option.some.inj first
      exact ⟨before, whole_text tree left gone thinned clause whole _ listed star name root rfl inner
        (.inr (child_below _ _ lower))⟩

theorem specifier_origin (list specifier name : Place) (member : list ∈ clause.children) (kind : list.kind = "named_imports")
    (inside : specifier ∈ list.children) (listed : specifier.kind = "import_specifier")
    (found : (specifier.childByField? "alias").or (specifier.childByField? "name") = some name)
    (plainName : name.kind = "identifier") :
    Bound tree (origin tree gone clause) (tree.bind .named (origin tree gone specifier) (origin tree gone name)) ∧
      left.textOf name.node = tree.textOf (origin tree gone name).node := by
  obtain ⟨root, child, listKind⟩ := kept_child tree left gone thinned clause list same member
  obtain ⟨inner, lower, specifierKind⟩ := kept_child tree left gone thinned list specifier root inside
  obtain ⟨nameRoot, part, nameKind⟩ := kept_child tree left gone thinned specifier name inner (local_name_child _ _ found)
  have element := specifier_listed tree (origin tree gone clause) _ _ child (listKind.trans kind) lower (specifierKind.trans listed)
  have stands := (specifier_element_place tree (origin tree gone specifier)).symm
  have field := field_origin tree left gone specifier thinned.toThinned inner
    (whole_intact tree left gone clause whole _ element specifier inner stands)
  have named : ((origin tree gone specifier).childByField? "alias").or ((origin tree gone specifier).childByField? "name") =
      some (origin tree gone name) := by
    rw [field, field, ← Option.map_or, found]
    rfl
  exact ⟨.named _ _ _ child (listKind.trans kind) lower (specifierKind.trans listed) named (nameKind.trans plainName),
    whole_text tree left gone thinned clause whole _ element specifier name inner stands nameRoot
      (.inr (stands ▸ child_below _ _ part))⟩

-- What an element of a clause binds is what it bound.
theorem bound_origin (kept : Binding) (bound : Bound left clause kept) : ∃ binding, Bound tree (origin tree gone clause) binding ∧
    binding.localName = kept.localName ∧ origin tree gone kept.specifier = binding.specifier := by
  cases bound with
  | default name member kind =>
      obtain ⟨root, child, sameKind⟩ := kept_child tree left gone thinned clause name same member
      have before : Bound tree (origin tree gone clause) (tree.bind .default (origin tree gone name) (origin tree gone name)) :=
        .default _ child (sameKind.trans kind)
      have text := whole_text tree left gone thinned clause whole _ (element_of_bound tree _ _ before) name name root rfl root
        (.inl rfl)
      exact ⟨_, before, text.symm, rfl⟩
  | wholeModule star name member kind found =>
      obtain ⟨before, text⟩ := whole_module_origin tree left gone thinned clause same whole star name member kind found
      exact ⟨_, before, text.symm, rfl⟩
  | named list specifier name member kind inside listed found plainName =>
      obtain ⟨before, text⟩ := specifier_origin tree left gone thinned clause same whole list specifier name member kind inside
        listed found plainName
      exact ⟨_, before, text.symm, rfl⟩

end Whole

include plain

theorem clause_origin (statement clause : Place) (same : statement.root = left.root) (kind : statement.kind = "import_statement")
    (found : (left.importDeclaration statement).clause = some clause) :
    (tree.importDeclaration (origin tree gone statement)).clause = some (origin tree gone clause) := by
  obtain ⟨member, clauseKind⟩ := declaration_clause left statement clause found
  obtain ⟨_, child, sameKind⟩ := kept_child tree left gone thinned statement clause same member
  have higher := (mem_find_iff tree _ "import_statement").mpr
    ⟨origin_in_tree tree gone statement, (origin_kind tree left gone thinned statement same).trans kind⟩
  have few := plain.clauses _ higher
  have listed : origin tree gone clause ∈ (origin tree gone statement).children.filter (·.kind == "import_clause") := by
    refine List.mem_filter.mpr ⟨child, ?_⟩
    rw [sameKind, clauseKind]
    rfl
  obtain ⟨only, alone⟩ := List.length_eq_one_iff.mp (Nat.le_antisymm few (List.length_pos_of_mem listed))
  rw [alone] at listed
  have last : (tree.importDeclaration (origin tree gone statement)).clause =
      ((origin tree gone statement).children.filter (·.kind == "import_clause")).getLast? := rfl
  rw [last, alone, List.mem_singleton.mp listed]
  rfl

-- A name that is bound in what is left was bound before, and was not to go.
theorem kept_binding (options : Options) (exact : TakesDead tree options gone) (declaration : ImportDeclaration)
    (declared : declaration ∈ left.importDeclarations) (kept : Binding) (bound : kept ∈ declaration.bindings) :
    ∃ before ∈ tree.importDeclarations, ∃ binding ∈ before.bindings, binding.localName = kept.localName ∧
      isRemovable options tree.usage binding = false := by
  obtain ⟨statement, same, kind, rfl⟩ := (mem_declarations_iff left declaration).mp declared
  obtain ⟨clause, found, shape⟩ := (mem_bindings_iff left statement kept).mp bound
  have foundBefore := clause_origin tree left gone plain thinned statement clause same kind found
  have declaredBefore := (mem_declarations_iff tree _).mpr ⟨origin tree gone statement, origin_in_tree tree gone statement,
    (origin_kind tree left gone thinned statement same).trans kind, rfl⟩
  have elements : (tree.importDeclaration (origin tree gone statement)).elements =
      tree.clauseElements (origin tree gone clause) := by
    rw [declaration_elements, foundBefore]
    rfl
  have root := child_root left statement clause same (declaration_clause left statement clause found).1
  have whole := element_whole tree left gone thinned options exact _ declaredBefore
  rw [elements] at whole
  obtain ⟨binding, boundBefore, name, stands⟩ := bound_origin tree left gone thinned clause root whole kept shape
  have member := (mem_bindings_iff tree _ binding).mpr ⟨_, foundBefore, boundBefore⟩
  obtain ⟨other, again, below⟩ := binding_below left statement kept bound
  obtain rfl := Option.some.inj (found.symm.trans again)
  exact ⟨_, declaredBefore, binding, member, name, kept_not_removable tree left gone thinned options exact _ declaredBefore
    binding member kept.specifier (within_tree left kept.specifier clause root (.inr below)) stands⟩

end Settled

-- Whether a name is live does not change when parts of import statements are taken out of a file. So with its dead names
-- taken out a file has none left to remove, and a second pass leaves it as it is.
theorem pruning_settles (tree left : SourceTree) (gone : Place → Bool) (plain : PlainImports tree)
    (thinned : ImportsThinned tree left gone) :
    (∀ declaration ∈ tree.importDeclarations, ∀ binding ∈ declaration.bindings, ∀ other ∈ left.importDeclarations,
        ∀ kept ∈ other.bindings, kept.localName = binding.localName →
          left.usage.isLive kept = tree.usage.isLive binding) ∧
      ∀ options, TakesDead tree options gone →
        left.HasNoRemovable options ∧ (left.removeUnusedImports options).result = .ok none := by
  have same : ∀ declaration ∈ tree.importDeclarations, ∀ binding ∈ declaration.bindings, ∀ other ∈ left.importDeclarations,
      ∀ kept ∈ other.bindings, kept.localName = binding.localName →
        left.usage.isLive kept = tree.usage.isLive binding := by
    intro declaration declared binding bound other present kept again name
    exact is_live_origin tree left gone plain thinned binding kept (imports_of_binding tree binding declaration declared bound)
      (imports_of_binding left kept other present again) name
  refine ⟨same, fun options exact => ?_⟩
  have none : left.HasNoRemovable options := by
    intro other present kept again
    obtain ⟨declaration, declared, binding, bound, name, stays⟩ :=
      kept_binding tree left gone plain thinned options exact other present kept again
    rw [← Bool.not_eq_true, not_removable_iff, name] at stays
    rwa [same declaration declared binding bound other present kept again name.symm]
  exact ⟨none, (result_none_iff left options).mpr none⟩

open Node in
-- Names in a tag and in braces, and two that nothing uses.
def unsettledSample : SourceTree where
  path := "p.tsx".toList
  dialect := .tsx
  text := "import A, \x7b b, c \x7d from \x22m\x22;\nimport d from \x22n\x22;\n<A p=\x7bb\x7d />;\n".toList
  root := rule "program" 0 61 [
      rule "import_statement" 0 28 [
        token "import" 0 6,
        rule "import_clause" 7 18 [
          rule "identifier" 7 8 [], token "," 8 9,
          rule "named_imports" 10 18 [
            token "\x7b" 10 11, rule "import_specifier" 12 13 [field "name" (rule "identifier" 12 13 [])], token "," 13 14,
            rule "import_specifier" 15 16 [field "name" (rule "identifier" 15 16 [])], token "\x7d" 17 18]],
        token "from" 19 23,
        field "source" (rule "string" 24 27 [token "\x22" 24 25, rule "string_fragment" 25 26 [], token "\x22" 26 27]),
        token ";" 27 28],
      rule "import_statement" 29 47 [
        token "import" 29 35, rule "import_clause" 36 37 [rule "identifier" 36 37 []], token "from" 38 42,
        field "source" (rule "string" 43 46 [token "\x22" 43 44, rule "string_fragment" 44 45 [], token "\x22" 45 46]),
        token ";" 46 47],
      rule "expression_statement" 48 60 [
        rule "jsx_self_closing_element" 48 59 [
          token "<" 48 49, field "name" (rule "identifier" 49 50 []),
          field "attribute" (rule "jsx_attribute" 51 56 [
            rule "property_identifier" 51 52 [], token "=" 52 53,
            rule "jsx_expression" 53 56 [token "\x7b" 53 54, rule "identifier" 54 55 [], token "\x7d" 55 56]]),
          token "/>" 57 59],
        token ";" 59 60]]

open Node in
def settledSample : SourceTree where
  path := "p.tsx".toList
  dialect := .tsx
  text := "import A, \x7b b \x7d from \x22m\x22;\n<A p=\x7bb\x7d />;\n".toList
  root := rule "program" 0 39 [
      rule "import_statement" 0 25 [
        token "import" 0 6,
        rule "import_clause" 7 15 [
          rule "identifier" 7 8 [], token "," 8 9,
          rule "named_imports" 10 15 [
            token "\x7b" 10 11, rule "import_specifier" 12 13 [field "name" (rule "identifier" 12 13 [])],
            token "\x7d" 14 15]],
        token "from" 16 20,
        field "source" (rule "string" 21 24 [token "\x22" 21 22, rule "string_fragment" 22 23 [], token "\x22" 23 24]),
        token ";" 24 25],
      rule "expression_statement" 26 38 [
        rule "jsx_self_closing_element" 26 37 [
          token "<" 26 27, field "name" (rule "identifier" 27 28 []),
          field "attribute" (rule "jsx_attribute" 29 34 [
            rule "property_identifier" 29 30 [], token "=" 30 31,
            rule "jsx_expression" 31 34 [token "\x7b" 31 32, rule "identifier" 32 33 [], token "\x7d" 33 34]]),
          token "/>" 35 37],
        token ";" 37 38]]

-- The second statement, and a specifier with the comma in front of it.
def takenOut (place : Place) : Bool := decide (place.address ∈ [[1], [2, 2, 1, 0], [3, 2, 1, 0]])

theorem settled_sample_is_done :
    (unsettledSample.removeUnusedImports .default).result = .ok (some settledSample.text) ∧
      ImportsThinned unsettledSample settledSample takenOut ∧ TakesDead unsettledSample .default takenOut ∧
      settledSample.HasNoRemovable .default ∧ (settledSample.removeUnusedImports .default).result = .ok none := by
  have plain : PlainImports unsettledSample := by decide +kernel
  have thinned : ImportsThinned unsettledSample settledSample takenOut := by decide +kernel
  have exact : TakesDead unsettledSample .default takenOut := by decide +kernel
  have settled := (pruning_settles unsettledSample settledSample takenOut plain thinned).2 .default exact
  exact ⟨ok_of_option _ _ (by decide +kernel), thinned, exact, settled⟩

end SourceTree

end ScriptTidy
