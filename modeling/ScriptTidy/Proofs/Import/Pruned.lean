import ScriptTidy.Transform.UnusedImports
import ScriptTidy.Proofs.Tree.WellFormed

/-! The declarations that pruning works on, and the edits that it records for them. -/

set_option autoImplicit false

namespace ScriptTidy

open Place

namespace ClauseElement

-- The node that goes with an element.
def place : ClauseElement → Place
  | .bound binding => binding.specifier
  | .nameless specifier => specifier

end ClauseElement

namespace SourceTree

variable (tree : SourceTree)

theorem mem_declarations_iff (declaration : ImportDeclaration) : declaration ∈ tree.importDeclarations ↔
    ∃ statement : Place, statement.root = tree.root ∧ statement.kind = "import_statement" ∧
      declaration = tree.importDeclaration statement := by
  rw [importDeclarations, List.mem_map]
  constructor
  · rintro ⟨statement, member, rfl⟩
    obtain ⟨same, kind⟩ := (mem_find_iff tree statement _).mp member
    exact ⟨statement, same, kind, rfl⟩
  · rintro ⟨statement, same, kind, rfl⟩
    exact ⟨statement, (mem_find_iff tree statement _).mpr ⟨same, kind⟩, rfl⟩

theorem declaration_clause (statement clause : Place) (found : (tree.importDeclaration statement).clause = some clause) :
    clause ∈ statement.children ∧ clause.kind = "import_clause" := by
  have member := List.mem_filter.mp (List.mem_of_getLast? found)
  exact ⟨member.1, by simpa using member.2⟩

theorem specifier_element_place (specifier : Place) : (tree.specifierElement specifier).place = specifier := by
  unfold specifierElement
  split
  · split <;> rfl
  · rfl

-- Each element of a clause is one of its children or one of theirs, and its place tells what it binds.
theorem clause_element_spec (clause : Place) (element : ClauseElement) (member : element ∈ tree.clauseElements clause) :
    element.place.Below clause ∧
      element = (tree.childElements element.place).head?.getD (tree.specifierElement element.place) := by
  obtain ⟨child, present, made⟩ := List.mem_flatMap.mp member
  have below := child_below clause child present
  by_cases name : child.kind = "identifier"
  · have elements : tree.childElements child = [.bound (tree.bind .default child child)] := by simp [childElements, name]
    rw [elements] at made
    obtain rfl := List.mem_singleton.mp made
    exact ⟨below, by simp [ClauseElement.place, bind, elements]⟩
  · by_cases whole : child.kind = "namespace_import"
    · cases found : child.children.find? (·.kind == "identifier") with
      | none => simp [childElements, whole, found] at made
      | some own =>
          have elements : tree.childElements child = [.bound (tree.bind .wholeModule child own)] := by
            simp [childElements, whole, found]
          rw [elements] at made
          obtain rfl := List.mem_singleton.mp made
          exact ⟨below, by simp [ClauseElement.place, bind, elements]⟩
    · by_cases list : child.kind = "named_imports"
      · have elements : tree.childElements child = (child.children.filter (·.kind == "import_specifier")).map tree.specifierElement := by
          simp [childElements, list]
        rw [elements] at made
        obtain ⟨specifier, inside, rfl⟩ := List.mem_map.mp made
        obtain ⟨listed, kind⟩ := List.mem_filter.mp inside
        have none : tree.childElements specifier = [] := by
          have other : specifier.kind = "import_specifier" := by simpa using kind
          simp [childElements, other]
        rw [specifier_element_place, none]
        exact ⟨below_trans specifier child clause (child_below child specifier listed) below, rfl⟩
      · simp [childElements, name, whole, list] at made

theorem declaration_elements (statement : Place) : (tree.importDeclaration statement).elements =
    ((tree.importDeclaration statement).clause.map tree.clauseElements).getD [] := by
  unfold importDeclaration
  dsimp only
  cases (statement.children.filter (·.kind == "import_clause")).getLast? <;> rfl

theorem binding_below (statement : Place) (binding : Binding) (member : binding ∈ (tree.importDeclaration statement).bindings) :
    ∃ clause, (tree.importDeclaration statement).clause = some clause ∧ binding.specifier.Below clause := by
  obtain ⟨element, present, shape⟩ := List.mem_filterMap.mp member
  cases element with
  | nameless specifier => cases shape
  | bound other =>
      obtain rfl := Option.some.inj shape
      rw [declaration_elements] at present
      cases found : (tree.importDeclaration statement).clause with
      | none => rw [found] at present; exact absurd present List.not_mem_nil
      | some clause =>
          rw [found] at present
          exact ⟨clause, rfl, (clause_element_spec tree clause (.bound other) present).1⟩

theorem mem_candidates_iff (options : Options) (declaration : ImportDeclaration) (dead : List Binding) :
    (declaration, dead) ∈ tree.candidates options ↔ declaration ∈ tree.importDeclarations ∧
      declaration.isForEffects = false ∧ dead = deadBindings options tree.usage declaration := by
  simp only [candidates, List.mem_map, List.mem_filter, Prod.mk.injEq]
  constructor
  · rintro ⟨other, ⟨member, named⟩, rfl, rfl⟩
    exact ⟨member, by simpa using named, rfl⟩
  · rintro ⟨member, named, rfl⟩
    exact ⟨declaration, ⟨member, by simpa using named⟩, rfl, rfl⟩

theorem mem_dead_iff (options : Options) (declaration : ImportDeclaration) (binding : Binding) :
    binding ∈ deadBindings options tree.usage declaration ↔
      binding ∈ declaration.bindings ∧ isRemovable options tree.usage binding = true := List.mem_filter

theorem prune_all_ok (items : List (ImportDeclaration × List Binding)) : ∀ pruned, tree.pruneAll items = .ok pruned →
    pruned.map (fun item => (item.declaration, item.dead)) = items ∧
      ∀ item ∈ pruned, tree.prune item.declaration item.dead = .ok item.pruning := by
  induction items with
  | nil =>
      intro pruned done
      obtain rfl := Except.ok.inj done
      exact ⟨rfl, fun _ member => absurd member List.not_mem_nil⟩
  | cons first rest ih =>
      intro pruned done
      obtain ⟨declaration, dead⟩ := first
      rw [pruneAll] at done
      cases front : tree.prune declaration dead with
      | error fault => rw [front] at done; cases done
      | ok pruning =>
          cases back : tree.pruneAll rest with
          | error fault => rw [front, back] at done; cases done
          | ok others =>
              rw [front, back] at done
              obtain rfl := Except.ok.inj done
              obtain ⟨shape, each⟩ := ih others back
              refine ⟨by rw [List.map_cons, shape], fun item member => ?_⟩
              rcases List.mem_cons.mp member with same | later
              · exact same ▸ front
              · exact each item later

-- The three ways in which pruning one declaration ends.
theorem prune_cases (declaration : ImportDeclaration) (dead : List Binding) (pruning : Pruning)
    (done : tree.prune declaration dead = .ok pruning) :
    (pruning = .untouched ∧ (declaration.clause = none ∨ dead = [])) ∨
      (∃ clause text, declaration.clause = some clause ∧ dead ≠ [] ∧ pruning = .rewritten (.replace clause.node text)) ∨
      (dead ≠ [] ∧ pruning = .removed (.removeStatement tree declaration.statement)) := by
  unfold prune at done
  cases shape : declaration.clause with
  | none =>
      rw [shape] at done
      exact .inl ⟨(Except.ok.inj done).symm, .inl rfl⟩
  | some clause =>
      rw [shape] at done
      cases dead with
      | nil => exact .inl ⟨(Except.ok.inj done).symm, .inr rfl⟩
      | cons first rest =>
          simp only [List.isEmpty_cons, Bool.false_eq_true, if_false] at done
          cases rendered : tree.renderClause (fun place => (first :: rest).any (·.specifier.isAt place)) clause with
          | error fault => rw [rendered] at done; cases done
          | ok result =>
              rw [rendered] at done
              cases result with
              | none => exact .inr (.inr ⟨List.cons_ne_nil _ _, (Except.ok.inj done).symm⟩)
              | some text => exact .inr (.inl ⟨clause, text, rfl, List.cons_ne_nil _ _, (Except.ok.inj done).symm⟩)

theorem untouched_iff (statement : Place) (dead : List Binding) (pruning : Pruning)
    (subset : ∀ binding ∈ dead, binding ∈ (tree.importDeclaration statement).bindings)
    (done : tree.prune (tree.importDeclaration statement) dead = .ok pruning) :
    pruning.isUntouched = true ↔ dead = [] := by
  rcases prune_cases tree _ dead pruning done with ⟨rfl, reason⟩ | ⟨clause, text, _, some, rfl⟩ | ⟨some, rfl⟩
  · refine ⟨fun _ => ?_, fun _ => rfl⟩
    rcases reason with none | empty
    · cases dead with
      | nil => rfl
      | cons binding rest =>
          obtain ⟨clause, found, _⟩ := binding_below tree statement binding (subset binding List.mem_cons_self)
          rw [none] at found
          cases found
    · exact empty
  · simp [Pruning.isUntouched, some]
  · simp [Pruning.isUntouched, some]

end SourceTree

-- No import that loses some of its names lies in one that goes.
def Untangled (pruned : List PrunedDeclaration) : Prop := ∀ outer ∈ pruned, outer.pruning.isRemoved = true → ∀ inner ∈ pruned,
  inner.declaration.statement.isWithin outer.declaration.statement = true →
    inner.pruning.isUntouched = true ∨ inner.pruning.isRemoved = true

instance (pruned : List PrunedDeclaration) : Decidable (Untangled pruned) := inferInstanceAs (Decidable (∀ _ ∈ _, _))

-- The edits that one run records, each with what led to it.
inductive PruneEdit (tree : SourceTree) (options : Options) (pruned : List PrunedDeclaration) : Edit → Prop where
  | strip (line : InterpreterLine) (found : InterpreterLine.find? tree = some line) : PruneEdit tree options pruned (line.strip tree)
  | rewritten (item : PrunedDeclaration) (member : item ∈ pruned) (clause : Place) (text : Text)
      (found : item.declaration.clause = some clause) (some : item.dead ≠ [])
      (shape : item.pruning = .rewritten (.replace clause.node text)) :
      PruneEdit tree options pruned (.replace clause.node text)
  | removed (item : PrunedDeclaration) (member : item ∈ pruned) (some : item.dead ≠ [])
      (shape : item.pruning = .removed (.removeStatement tree item.declaration.statement)) :
      PruneEdit tree options pruned (.removeStatement tree item.declaration.statement)
  | header (header : Header) (text : Text) (captured : Header.capture? tree = some header)
      (gone : SourceTree.isRemovedBy pruned header.statement = true) (copied : header.text tree = .ok text) :
      PruneEdit tree options pruned (.insert (Header.anchor tree (SourceTree.isRemovedBy pruned)) text)

namespace SourceTree

variable (tree : SourceTree) (options : Options) (pruned : List PrunedDeclaration) (restored : Option Edit)

theorem restored_header_some (edit : Edit) (done : tree.restoredHeader pruned = .ok (some edit)) :
    ∃ header text, Header.capture? tree = some header ∧ isRemovedBy pruned header.statement = true ∧
      header.text tree = .ok text ∧ edit = .insert (Header.anchor tree (isRemovedBy pruned)) text := by
  unfold restoredHeader at done
  cases captured : Header.capture? tree with
  | none => rw [captured] at done; cases done
  | some header =>
      rw [captured] at done
      simp only [Header.restore?] at done
      by_cases gone : isRemovedBy pruned header.statement = true
      · rw [if_pos gone] at done
        cases copied : header.text tree with
        | error fault => rw [copied] at done; cases done
        | ok text =>
            rw [copied] at done
            exact ⟨header, text, rfl, gone, copied, (Option.some.inj (Except.ok.inj done)).symm⟩
      · rw [if_neg gone] at done
        cases done

-- An edit of a declaration puts in another clause, or takes its statement.
theorem item_edit_cases (done : tree.pruneAll (tree.candidates options) = .ok pruned) (item : PrunedDeclaration)
    (member : item ∈ pruned) (edit : Edit) (made : edit ∈ item.pruning.edits) :
    (∃ clause text, item.declaration.clause = some clause ∧ item.dead ≠ [] ∧
        item.pruning = .rewritten (.replace clause.node text) ∧ edit = .replace clause.node text) ∨
      (item.dead ≠ [] ∧ item.pruning = .removed (.removeStatement tree item.declaration.statement) ∧
        edit = .removeStatement tree item.declaration.statement) := by
  rcases prune_cases tree _ _ _ ((prune_all_ok tree _ pruned done).2 item member) with
    ⟨shape, _⟩ | ⟨clause, text, found, some, shape⟩ | ⟨some, shape⟩
  · rw [shape] at made
    exact absurd made List.not_mem_nil
  · rw [shape] at made
    exact .inl ⟨clause, text, found, some, shape, List.mem_singleton.mp made⟩
  · rw [shape] at made
    exact .inr ⟨some, shape, List.mem_singleton.mp made⟩

theorem mem_prune_edits (done : tree.pruneAll (tree.candidates options) = .ok pruned)
    (header : tree.restoredHeader pruned = .ok restored) (edit : Edit) (member : edit ∈ tree.pruneEdits pruned restored) :
    PruneEdit tree options pruned edit := by
  simp only [pruneEdits, List.mem_append, Option.mem_toList, Option.map_eq_some_iff, List.mem_flatMap] at member
  rcases member with (⟨line, found, rfl⟩ | ⟨item, present, made⟩) | back
  · exact .strip line found
  · rcases item_edit_cases tree options pruned done item present edit made with
      ⟨clause, text, found, some, shape, rfl⟩ | ⟨some, shape, rfl⟩
    · exact .rewritten item present clause text found some shape
    · exact .removed item present some shape
  · subst back
    obtain ⟨captured, text, found, gone, copied, rfl⟩ := restored_header_some tree pruned edit header
    exact .header captured text found gone copied

theorem item_edit_listed (item : PrunedDeclaration) (member : item ∈ pruned) (edit : Edit) (made : edit ∈ item.pruning.edits) :
    edit ∈ tree.pruneEdits pruned restored :=
  List.mem_append_left _ (List.mem_append_right _ (List.mem_flatMap.mpr ⟨item, member, made⟩))

-- What pruning works on are import statements with bindings that can be removed.
theorem pruned_item (done : tree.pruneAll (tree.candidates options) = .ok pruned) (item : PrunedDeclaration)
    (member : item ∈ pruned) : ∃ statement : Place, statement.root = tree.root ∧ statement.kind = "import_statement" ∧
      item.declaration = tree.importDeclaration statement ∧ item.dead = deadBindings options tree.usage item.declaration := by
  obtain ⟨shape, _⟩ := prune_all_ok tree _ pruned done
  have present : (item.declaration, item.dead) ∈ tree.candidates options := shape ▸ List.mem_map_of_mem member
  obtain ⟨declared, _, dead⟩ := (mem_candidates_iff tree options _ _).mp present
  obtain ⟨statement, same, kind, equal⟩ := (mem_declarations_iff tree _).mp declared
  exact ⟨statement, same, kind, equal, dead⟩

theorem pruned_statement (done : tree.pruneAll (tree.candidates options) = .ok pruned) (item : PrunedDeclaration)
    (member : item ∈ pruned) :
    item.declaration.statement.root = tree.root ∧ item.declaration.statement.kind = "import_statement" := by
  obtain ⟨statement, same, kind, equal, _⟩ := pruned_item tree options pruned done item member
  rw [equal]
  exact ⟨same, kind⟩

-- A clause that pruning works on is one of the tree.
theorem item_clause (done : tree.pruneAll (tree.candidates options) = .ok pruned) (item : PrunedDeclaration)
    (member : item ∈ pruned) (clause : Place) (found : item.declaration.clause = some clause) :
    clause.root = tree.root ∧ clause ∈ tree.find "import_clause" := by
  obtain ⟨statement, same, _, equal, _⟩ := pruned_item tree options pruned done item member
  rw [equal] at found
  obtain ⟨child, kind⟩ := declaration_clause tree statement clause found
  have root := (below_root clause statement (child_below statement clause child)).symm.trans same
  exact ⟨root, (mem_find_iff tree clause _).mpr ⟨root, kind⟩⟩

theorem pruned_within_iff (done : tree.pruneAll (tree.candidates options) = .ok pruned) (inner outer : PrunedDeclaration)
    (member : inner ∈ pruned) (present : outer ∈ pruned) :
    inner.declaration.statement.isWithin outer.declaration.statement = true ↔
      inner.declaration.statement.Within outer.declaration.statement := by
  have inside := (pruned_statement tree options pruned done inner member).1
  have around := (pruned_statement tree options pruned done outer present).1
  exact is_within_iff _ _ (inside.trans around.symm)

theorem removed_item (done : tree.pruneAll (tree.candidates options) = .ok pruned) (item : PrunedDeclaration)
    (member : item ∈ pruned) (removed : item.pruning.isRemoved = true) :
    item.dead ≠ [] ∧ item.pruning = .removed (.removeStatement tree item.declaration.statement) := by
  rcases prune_cases tree _ _ _ ((prune_all_ok tree _ pruned done).2 item member) with
    ⟨shape, _⟩ | ⟨_, _, _, _, shape⟩ | ⟨some, shape⟩
  · simp [shape, Pruning.isRemoved] at removed
  · simp [shape, Pruning.isRemoved] at removed
  · exact ⟨some, shape⟩

theorem removed_by_iff (done : tree.pruneAll (tree.candidates options) = .ok pruned) (statement : Place)
    (same : statement.root = tree.root) : isRemovedBy pruned statement = true ↔
      ∃ item ∈ pruned, item.pruning.isRemoved = true ∧ item.declaration.statement = statement := by
  simp only [isRemovedBy, List.any_eq_true, Bool.and_eq_true]
  refine exists_congr fun item => and_congr_right fun member => and_congr_right fun _ => ?_
  exact is_at_iff _ statement ((pruned_statement tree options pruned done item member).1.trans same.symm)

end SourceTree

end ScriptTidy
