import ScriptTidy.Proofs.Import.PrunedList
import ScriptTidy.Proofs.Import.Total

/-! The tokens of an import clause from which bindings are taken. -/

set_option autoImplicit false

namespace ScriptTidy

open Text Place Edits Lexing

namespace SourceTree

def elementKinds : List String := ["identifier", "namespace_import", "named_imports"]

def isElement (child : Place) : Bool := elementKinds.contains child.kind

-- The kinds of what stands in a clause, comments apart.
def clauseShapes : List (List String) :=
  [["identifier"], ["namespace_import"], ["named_imports"], ["identifier", ",", "namespace_import"], ["identifier", ",", "named_imports"]]

structure ClauseForm (tree : SourceTree) (clause : Place) : Prop where
  shape : clauseShapes.contains ((solids clause.node.children).map (·.kind)) = true
  elements : ∀ child ∈ clause.children, isElement child = true → child.node.label.named = true
  names : ∀ child ∈ clause.children, child.kind = "namespace_import" → child.children.any (·.kind == "identifier") = true
  -- The default name is one word, or at least nothing that takes up a comma.
  identifiers : ∀ child ∈ clause.children, child.kind = "identifier" → (ending .free (tree.textOf child.node)).settles ',' = true
  lists : ∀ child ∈ clause.children, child.kind = "named_imports" → tree.ListForm child

instance (tree : SourceTree) (clause : Place) : Decidable (tree.ClauseForm clause) :=
  decidable_of_iff (clauseShapes.contains ((solids clause.node.children).map (·.kind)) = true ∧
      (∀ child ∈ clause.children, isElement child = true → child.node.label.named = true) ∧
      (∀ child ∈ clause.children, child.kind = "namespace_import" → child.children.any (·.kind == "identifier") = true) ∧
      (∀ child ∈ clause.children, child.kind = "identifier" → (ending .free (tree.textOf child.node)).settles ',' = true) ∧
      ∀ child ∈ clause.children, child.kind = "named_imports" → tree.ListForm child)
    ⟨fun ⟨shape, elements, names, identifiers, lists⟩ => ⟨shape, elements, names, identifiers, lists⟩,
      fun form => ⟨form.shape, form.elements, form.names, form.identifiers, form.lists⟩⟩

-- The tokens that a child of a clause has without what is dead in it, if something of it stays.
def survivingTokens (tree : SourceTree) (dead : Place → Bool) (trailing : Bool) (child : Place) : List (List Text) :=
  if child.kind = "named_imports" then
    if (keptIn dead child).isEmpty then [] else [tree.listTokens (keptIn dead child) trailing]
  else if isElement child ∧ dead child = false then [tree.nodeTokens child.node]
  else []

def clauseTokens (tree : SourceTree) (dead : Place → Bool) (trailing : Bool) (clause : Place) : List Text :=
  (List.intersperse [[',']] (clause.children.flatMap (tree.survivingTokens dead trailing))).flatten

def CleanSeams (tree : SourceTree) (dead : Place → Bool) (children : List Place) : Prop :=
  ∀ child ∈ children, child.kind = "named_imports" → tree.CleanSeam dead child

theorem children_nodes (parent : Label) (above : List Step) (children : List Node) : ∀ passed : List Node,
    (childrenUnder parent above passed children).map (·.node) = children := by
  induction children with
  | nil => exact fun _ => rfl
  | cons first rest ih => exact fun passed => by rw [childrenUnder, List.map_cons, ih]

-- The children of a clause that are elements, as nodes.
theorem element_nodes (clause : Place) : (clause.children.filter isElement).map (·.node) =
    (solids clause.node.children).filter fun node => elementKinds.contains node.kind := by
  have nodes : clause.children.map (·.node) = clause.node.children := children_nodes _ _ _ []
  rw [← nodes, solids, List.filter_map, List.filter_map, List.filter_filter]
  refine congrArg _ (List.filter_congr fun child _ => ?_)
  show isElement child = (isElement child && !child.node.isComment)
  cases comment : child.node.isComment with
  | false => rw [Bool.not_false, Bool.and_true]
  | true =>
      have kind : child.kind = "comment" := by simpa [Node.isComment, Place.kind] using comment
      rw [isElement, kind]
      decide

theorem shape_cases (nodes : List Node) (shape : clauseShapes.contains (nodes.map (·.kind)) = true) :
    (∃ element, nodes = [element] ∧ elementKinds.contains element.kind = true) ∨
      ∃ name comma element, nodes = [name, comma, element] ∧ name.kind = "identifier" ∧ comma.kind = "," ∧
        elementKinds.contains element.kind = true := by
  simp only [clauseShapes, List.contains_cons, List.contains_nil, Bool.or_false, Bool.or_eq_true, beq_iff_eq] at shape
  rcases shape with one | one | one | three | three
  all_goals first
    | obtain ⟨element, rfl, kind⟩ := List.map_eq_singleton_iff.mp one
      exact .inl ⟨element, rfl, by rw [kind]; decide⟩
    | obtain ⟨name, _, rfl, first, rest⟩ := List.map_eq_cons_iff.mp three
      obtain ⟨comma, _, rfl, second, last⟩ := List.map_eq_cons_iff.mp rest
      obtain ⟨element, rfl, kind⟩ := List.map_eq_singleton_iff.mp last
      exact .inr ⟨name, comma, element, rfl, first, second, by rw [kind]; decide⟩

-- A clause has one element, or a default name and another one behind a comma.
theorem clause_elements (clause : Place) (shape : clauseShapes.contains ((solids clause.node.children).map (·.kind)) = true) :
    ∃ element, (clause.children.filter isElement = [element] ∧ solids clause.node.children = [element.node]) ∨
      ∃ name comma, clause.children.filter isElement = [name, element] ∧
        solids clause.node.children = [name.node, comma, element.node] ∧ name.kind = "identifier" ∧ comma.kind = "," := by
  have nodes := element_nodes clause
  rcases shape_cases _ shape with ⟨one, alone, kind⟩ | ⟨first, comma, second, both, name, mark, kind⟩
  · rw [alone, List.filter_cons_of_pos (by exact kind), List.filter_nil] at nodes
    obtain ⟨element, listed, rfl⟩ := List.map_eq_singleton_iff.mp nodes
    exact ⟨element, .inl ⟨listed, alone⟩⟩
  · rw [both, List.filter_cons_of_pos (by rw [name]; decide), List.filter_cons_of_neg (by rw [mark]; decide),
      List.filter_cons_of_pos (by exact kind), List.filter_nil] at nodes
    obtain ⟨left, rest, listed, rfl, later⟩ := List.map_eq_cons_iff.mp nodes
    obtain ⟨element, rfl, rfl⟩ := List.map_eq_singleton_iff.mp later
    exact ⟨element, .inr ⟨left, comma, listed, both, name, mark⟩⟩

section Clauses

variable (tree : SourceTree) (clause : Place) (form : tree.ClauseForm clause)

include form

omit form in
-- What is no element leaves no trace in a clause.
theorem no_element (dead : Place → Bool) (child : Place) (other : isElement child = false) : tree.renderElement dead child = .ok none ∧
    (∀ trailing, tree.survivingTokens dead trailing child = []) ∧ tree.childElements child = [] := by
  simp only [isElement, elementKinds, List.contains_cons, List.contains_nil, Bool.or_false, Bool.or_eq_false_iff] at other
  refine ⟨by simp [renderElement, other], fun trailing => ?_, by simp [childElements, other]⟩
  simp only [beq_eq_false_iff_ne] at other
  simp [survivingTokens, isElement, elementKinds, other]

omit form in
theorem render_elements_filter (dead : Place → Bool) (wanted : Place → Bool) (children : List Place)
    (none : ∀ child ∈ children, wanted child = false → tree.renderElement dead child = .ok none) :
    tree.renderElements dead children = tree.renderElements dead (children.filter wanted) := by
  induction children with
  | nil => rfl
  | cons first rest ih =>
      have later := ih fun child member => none child (List.mem_cons_of_mem first member)
      cases given : wanted first with
      | true => rw [List.filter_cons_of_pos given, renderElements, renderElements, later]
      | false =>
          rw [List.filter_cons_of_neg (by simp [given]), renderElements, none first List.mem_cons_self given, ← later]
          cases tree.renderElements dead rest <;> rfl

-- A name goes with its binding.
theorem name_elements (child : Place) (member : child ∈ clause.children)
    (kind : child.kind = "identifier" ∨ child.kind = "namespace_import") :
    ∃ binding, tree.childElements child = [.bound binding] ∧ binding.specifier = child := by
  rcases kind with kind | kind
  · exact ⟨tree.bind .default child child, by simp [childElements, kind], rfl⟩
  · obtain ⟨name, found⟩ := Option.isSome_iff_exists.mp (List.find?_isSome.mpr (List.any_eq_true.mp (form.names child member kind)))
    exact ⟨tree.bind .wholeModule child name, by simp [childElements, kind, found], rfl⟩

omit form in
theorem clean_of_all_dead (nested : clause.InNested tree.text) (dead : Place → Bool) (list : Place) (member : list ∈ clause.children)
    (listForm : tree.ListForm list) (all : ∀ specifier ∈ specifiersOf list, dead specifier = true) : tree.CleanSeam dead list := by
  have own := in_nested_of_root tree.text clause list nested (below_root list clause (child_below clause list member)).symm
  intro last ending _ region present
  obtain ⟨made, lives⟩ := List.mem_filter.mp (List.mem_of_getLast? present)
  have given := regions_of_list tree list own listForm.toListEdges last (List.mem_of_getLast? ending) _ (List.Sublist.refl _) ending
    region made
  rw [all region.specifier given.member] at lives
  cases lives

-- How one element fares: it goes with all that it binds, or it stays with the rest of it.
theorem element_tokens (nested : clause.InNested tree.text) (dead : Place → Bool) (child : Place) (member : child ∈ clause.children)
    (element : isElement child = true) :
    (tree.renderElement dead child = .ok none ∧ (∀ trailing, tree.survivingTokens dead trailing child = []) ∧
        (∀ made ∈ tree.childElements child, dead made.place = true) ∧ tree.CleanSeams dead [child]) ∨
      (∃ made ∈ tree.childElements child, dead made.place = false) ∧ ∃ (text : Text) (piece : Bool → List Text),
        tree.renderElement dead child = .ok (some text) ∧ (∀ trailing, tree.survivingTokens dead trailing child = [piece trailing]) ∧
          ((∃ trailing, tokens text = piece trailing) ↔ tree.CleanSeams dead [child]) := by
  have seams : tree.CleanSeams dead [child] ↔ (child.kind = "named_imports" → tree.CleanSeam dead child) := by
    simp [CleanSeams]
  rw [seams]
  by_cases kind : child.kind = "named_imports"
  · have listForm := form.lists child member kind
    have own := in_nested_of_root tree.text clause child nested (below_root child clause (child_below clause child member)).symm
    have elements : tree.childElements child = (specifiersOf child).map tree.specifierElement := by
      simp [childElements, kind, specifiersOf]
    have rendered : tree.renderElement dead child = tree.renderList dead child := by simp [renderElement, kind]
    rw [elements, rendered]
    rcases pruned_list_tokens tree child own listForm dead with ⟨all, done⟩ | ⟨⟨specifier, present, lives⟩, text, done, same⟩
    · have empty : keptIn dead child = [] := List.filter_eq_nil_iff.mpr fun specifier present => by simp [all specifier present]
      refine .inl ⟨done, fun trailing => by simp [survivingTokens, kind, empty], fun made present => ?_,
        fun _ => clean_of_all_dead tree clause nested dead child member listForm all⟩
      obtain ⟨specifier, listed, rfl⟩ := List.mem_map.mp present
      rw [specifier_element_place]
      exact all specifier listed
    · have some : keptIn dead child ≠ [] := List.ne_nil_of_mem (List.mem_filter.mpr ⟨present, by simp [lives]⟩)
      refine .inr ⟨⟨tree.specifierElement specifier, List.mem_map_of_mem present, by rw [specifier_element_place, lives]⟩, text,
        tree.listTokens (keptIn dead child), done, fun trailing => by simp [survivingTokens, kind, some], ?_⟩
      rw [same]
      exact ⟨fun clean _ => clean, fun clean => clean kind⟩
  · have name : child.kind = "identifier" ∨ child.kind = "namespace_import" := by
      simpa [isElement, elementKinds, kind] using element
    obtain ⟨binding, elements, place⟩ := name_elements tree clause form child member name
    have own : (ClauseElement.bound binding).place = child := place
    rw [elements]
    cases gone : dead child with
    | true =>
        refine .inl ⟨by simp [renderElement, name, gone], fun trailing => by simp [survivingTokens, kind, gone], fun made present => ?_,
          fun other => absurd other kind⟩
        rw [List.mem_singleton.mp present, own, gone]
    | false =>
        refine .inr ⟨⟨_, List.mem_singleton_self _, by rw [own, gone]⟩, tree.textOf child.node, fun _ => tree.nodeTokens child.node,
          by simp [renderElement, name, gone], fun trailing => by simp [survivingTokens, kind, element, gone], ?_⟩
        exact iff_of_true ⟨true, rfl⟩ fun other => absurd other kind

-- The texts of the elements that stay, and their tokens.
structure Renders (tree : SourceTree) (dead : Place → Bool) (elements : List Place) (texts : List Text) : Prop where
  done : tree.renderElements dead elements = .ok texts
  gone : texts = [] → ∀ made ∈ elements.flatMap tree.childElements, dead made.place = true
  stays : texts ≠ [] → ∃ made ∈ elements.flatMap tree.childElements, dead made.place = false
  tokens : (∃ trailing, Text.tokens (List.intersperse [',', ' '] texts).flatten =
    (List.intersperse [[',']] (elements.flatMap (tree.survivingTokens dead trailing))).flatten) ↔ tree.CleanSeams dead elements

theorem one_renders (nested : clause.InNested tree.text) (dead : Place → Bool) (element : Place) (member : element ∈ clause.children)
    (given : isElement element = true) : ∃ texts, Renders tree dead [element] texts := by
  rcases element_tokens tree clause form nested dead element member given with ⟨done, none, gone, clean⟩ | ⟨stays, text, piece, done, some, same⟩
  · refine ⟨[], by rw [renderElements, done]; rfl, fun _ => by simpa using gone, fun other => absurd rfl other, ?_⟩
    exact iff_of_true ⟨true, by simp [none, Text.tokens, emitted, pending]⟩ clean
  · refine ⟨[text], by rw [renderElements, done]; rfl, fun other => (by cases other), fun _ => by simpa using stays, ?_⟩
    simpa [some] using same

theorem pair_renders (nested : clause.InNested tree.text) (dead : Place → Bool) (name element : Place) (first : name ∈ clause.children)
    (kind : name.kind = "identifier") (member : element ∈ clause.children) (given : isElement element = true) :
    ∃ texts, Renders tree dead [name, element] texts := by
  obtain ⟨binding, elements, place⟩ := name_elements tree clause form name first (.inl kind)
  have own : (ClauseElement.bound binding).place = name := place
  have seams : tree.CleanSeams dead [name, element] ↔ tree.CleanSeams dead [element] := by
    simp [CleanSeams, kind]
  cases dies : dead name with
  | true =>
      have rendered : tree.renderElement dead name = .ok none := by simp [renderElement, kind, dies]
      have none : ∀ trailing, tree.survivingTokens dead trailing name = [] := fun trailing => by simp [survivingTokens, kind, dies]
      obtain ⟨texts, done, gone, stays, same⟩ := one_renders tree clause form nested dead element member given
      refine ⟨texts, by rw [renderElements, rendered, done]; rfl, fun empty made present => ?_, fun some => ?_, ?_⟩
      · rw [List.flatMap_cons, elements, List.singleton_append] at present
        rcases List.mem_cons.mp present with rfl | later
        · rw [own, dies]
        · exact gone empty made later
      · obtain ⟨made, present, lives⟩ := stays some
        exact ⟨made, by rw [List.flatMap_cons]; exact List.mem_append_right _ present, lives⟩
      · rw [seams, ← same]
        simp [none]
  | false =>
      have rendered : tree.renderElement dead name = .ok (some (tree.textOf name.node)) := by simp [renderElement, kind, dies]
      have alone : ∀ trailing, tree.survivingTokens dead trailing name = [tree.nodeTokens name.node] := fun trailing => by
        simp [survivingTokens, kind, dies, isElement, elementKinds]
      have lives : ∃ made ∈ [name, element].flatMap tree.childElements, dead made.place = false :=
        ⟨.bound binding, by simp [elements], by rw [own, dies]⟩
      rcases element_tokens tree clause form nested dead element member given with ⟨done, none, _, clean⟩ | ⟨_, text, piece, done, some, same⟩
      · refine ⟨[tree.textOf name.node], by rw [renderElements, renderElements, rendered, done]; rfl, fun other => (by cases other),
          fun _ => lives, iff_of_true ⟨true, ?_⟩ (seams.mpr clean)⟩
        simp [alone, none, nodeTokens]
      · refine ⟨[tree.textOf name.node, text], by rw [renderElements, renderElements, rendered, done]; rfl, fun other => (by cases other),
          fun _ => lives, ?_⟩
        have joined := comma_append (tree.textOf name.node) text (form.identifiers name first kind)
        rw [seams, ← same]
        simp [alone, some, joined, nodeTokens]

omit form in
-- A clause is rendered element by element, and its elements bind all its names.
theorem clause_by_elements (named : ∀ child ∈ clause.children, isElement child = true → child.node.label.named = true)
    (dead : Place → Bool) :
    tree.renderElements dead clause.namedChildren = tree.renderElements dead (clause.children.filter isElement) ∧
      tree.clauseElements clause = (clause.children.filter isElement).flatMap tree.childElements := by
  constructor
  · rw [render_elements_filter tree dead isElement _ fun child member other => (no_element tree dead child other).1,
      namedChildren, List.filter_filter]
    refine congrArg _ (List.filter_congr fun child member => ?_)
    cases element : isElement child with
    | false => rfl
    | true => rw [named child member element]; rfl
  · rw [clauseElements, List.flatMap_def, List.flatMap_def]
    exact flatten_filter _ _ _ fun child _ other => (no_element tree dead child other).2.2

-- How a clause fares: it goes with all its elements, or it stays with the rest of them.
theorem clause_renders (nested : clause.InNested tree.text) (dead : Place → Bool) :
    (tree.renderClause dead clause = .ok none ∧ ∀ made ∈ tree.clauseElements clause, dead made.place = true) ∨
      (∃ made ∈ tree.clauseElements clause, dead made.place = false) ∧ ∃ text, tree.renderClause dead clause = .ok (some text) ∧
        ((∃ trailing, Text.tokens text = tree.clauseTokens dead trailing clause) ↔ tree.CleanSeams dead clause.children) := by
  obtain ⟨rendered, elements⟩ := clause_by_elements tree clause form.elements dead
  have surviving (trailing : Bool) : clause.children.flatMap (tree.survivingTokens dead trailing) =
      (clause.children.filter isElement).flatMap (tree.survivingTokens dead trailing) := by
    rw [List.flatMap_def, List.flatMap_def]
    exact flatten_filter _ _ _ fun child _ other => (no_element tree dead child other).2.1 trailing
  have seams : tree.CleanSeams dead clause.children ↔ tree.CleanSeams dead (clause.children.filter isElement) := by
    refine ⟨fun clean child member => clean child (List.mem_filter.mp member).1, fun clean child member kind => ?_⟩
    exact clean child (List.mem_filter.mpr ⟨member, by rw [isElement, kind]; decide⟩) kind
  have inside (child : Place) (listed : child ∈ clause.children.filter isElement) := List.mem_filter.mp listed
  obtain ⟨texts, done, gone, stays, same⟩ : ∃ texts, Renders tree dead (clause.children.filter isElement) texts := by
    obtain ⟨element, ⟨alone, _⟩ | ⟨name, _, both, _, kind, _⟩⟩ := clause_elements clause form.shape
    · have member := inside element (by simp [alone])
      rw [alone]
      exact one_renders tree clause form nested dead element member.1 member.2
    · have member := inside element (by simp [both])
      have first := inside name (by simp [both])
      rw [both]
      exact pair_renders tree clause form nested dead name element first.1 kind member.1 member.2
  rw [elements, seams, renderClause, rendered, done]
  simp only [clauseTokens, surviving]
  cases texts with
  | nil => exact .inl ⟨rfl, gone rfl⟩
  | cons text rest => exact .inr ⟨stays (List.cons_ne_nil _ _), _, rfl, same⟩

end Clauses

end SourceTree

end ScriptTidy
