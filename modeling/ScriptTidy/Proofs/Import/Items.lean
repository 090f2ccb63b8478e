import ScriptTidy.Proofs.Import.ListCuts

/-! The order in which specifiers, commas and braces stand in a list. -/

set_option autoImplicit false

namespace ScriptTidy

open Place

-- The kinds of what stands behind the brace of a list or behind a comma in it, comments apart.
def isItems : List String → Bool
  | [] => false
  | [kind] => kind == "\x7d"
  | first :: second :: rest =>
      first == "import_specifier" && (second == "," && isItems rest || second == "\x7d" && rest.isEmpty)

-- The kinds of what stands in a list: specifiers between braces, with commas between them and perhaps one behind the last.
def isBraced : List String → Bool
  | [] => false
  | first :: rest => first == "\x7b" && isItems rest

namespace SourceTree

-- The specifiers of a list beside the nodes that stand there behind its first brace.
inductive Items : List Place → List Node → Prop where
  | none (close : Node) (kind : close.kind = "\x7d") : Items [] [close]
  | last (place : Place) (close : Node) (kind : close.kind = "\x7d") (behind : solids place.after = [close]) :
      Items [place] [place.node, close]
  | next (place : Place) (comma : Node) (rest : List Place) (nodes : List Node) (kind : comma.kind = ",")
      (behind : solids place.after = comma :: nodes) (more : Items rest nodes) : Items (place :: rest) (place.node :: comma :: nodes)

theorem solids_cons (node : Node) (nodes : List Node) (solid : node.isComment = false) :
    solids (node :: nodes) = node :: solids nodes := List.filter_cons_of_pos (by simp [solid])

theorem mem_solids_iff (node : Node) (nodes : List Node) : node ∈ solids nodes ↔ node ∈ nodes ∧ node.isComment = false := by
  simp [solids]

-- The next node that is no comment, and what stands behind it.
theorem next_solid (parent : Label) (above : List Step) (children : List Node) : ∀ (passed : List Node) (first : Node) (more : List Node),
    solids children = first :: more → ∃ front rest, solids rest = more ∧
      (childrenUnder parent above passed children).filter (·.kind == "import_specifier") =
        (⟨first, ⟨parent, front, rest⟩ :: above⟩ :: childrenUnder parent above (first :: front) rest).filter
          (·.kind == "import_specifier") := by
  induction children with
  | nil => exact fun _ _ _ none => by cases none
  | cons child rest ih =>
      intro passed first more shape
      by_cases comment : child.isComment = true
      · rw [solids, List.filter_cons_of_neg (by simp [comment])] at shape
        obtain ⟨front, behind, same, filtered⟩ := ih (child :: passed) first more shape
        refine ⟨front, behind, same, ?_⟩
        have other : (child.kind == "import_specifier") = false := by
          have kind : child.kind = "comment" := by simpa [Node.isComment] using comment
          rw [kind]
          decide
        rw [childrenUnder, List.filter_cons_of_neg (by simpa [Place.kind] using other), filtered]
      · rw [solids_cons child rest (by simpa using comment)] at shape
        obtain ⟨rfl, rfl⟩ := List.cons.inj shape
        exact ⟨passed, rest, rfl, rfl⟩

theorem no_specifiers (parent : Label) (above : List Step) (passed children : List Node) (empty : solids children = []) :
    (childrenUnder parent above passed children).filter (·.kind == "import_specifier") = [] := by
  refine List.filter_eq_nil_iff.mpr fun place member kind => ?_
  obtain ⟨middle, child, rest, rfl, rfl⟩ := (mem_children_under parent above children passed place).mp member
  have comment := List.filter_eq_nil_iff.mp empty child (by simp)
  have other : child.kind = "import_specifier" := by simpa [Place.kind] using kind
  simp [Node.isComment, other] at comment

theorem items_of_kinds (parent : Label) (above : List Step) (kinds : List String) : ∀ (children passed : List Node),
    (solids children).map (·.kind) = kinds → isItems kinds = true →
      Items ((childrenUnder parent above passed children).filter (·.kind == "import_specifier")) (solids children) := by
  induction kinds using isItems.induct with
  | case1 => exact fun _ _ _ items => by cases items
  | case2 kind =>
      intro children passed shape items
      obtain ⟨close, alone, rfl⟩ := List.map_eq_singleton_iff.mp shape
      obtain ⟨front, rest, empty, filtered⟩ := next_solid parent above children passed close [] alone
      have brace : close.kind = "\x7d" := by simpa [isItems] using items
      rw [filtered, alone, List.filter_cons_of_neg (by simp [Place.kind, brace]), no_specifiers parent above _ rest empty]
      exact .none close brace
  | case3 first second rest ih =>
      intro children passed shape items
      simp only [isItems, Bool.and_eq_true, Bool.or_eq_true, beq_iff_eq] at items
      obtain ⟨specifier, later, split, rfl, deeper⟩ := List.map_eq_cons_iff.mp shape
      obtain ⟨mark, more, inner, rfl, rfl⟩ := List.map_eq_cons_iff.mp deeper
      obtain ⟨front, behind, after, filtered⟩ := next_solid parent above children passed specifier _ split
      rw [inner] at after split
      obtain ⟨others, final, same, refiltered⟩ := next_solid parent above behind (specifier :: front) mark more after
      have plain : (mark.kind == "import_specifier") = false := by
        rcases items.2 with ⟨kind, _⟩ | ⟨kind, _⟩ <;> rw [kind] <;> decide
      rw [filtered, List.filter_cons_of_pos (by simp [Place.kind, items.1]), refiltered,
        List.filter_cons_of_neg (by simp [Place.kind, plain]), split]
      rcases items.2 with ⟨comma, correct⟩ | ⟨brace, none⟩
      · have chain := ih final (mark :: others) (by rw [same]) correct
        rw [same] at chain
        exact .next ⟨specifier, ⟨parent, front, behind⟩ :: above⟩ mark _ more comma after chain
      · have empty : more = [] := List.map_eq_nil_iff.mp (List.isEmpty_iff.mp none)
        subst empty
        rw [no_specifiers parent above _ final same]
        exact .last ⟨specifier, ⟨parent, front, behind⟩ :: above⟩ mark brace after

-- A list opens with its brace, and its items follow.
theorem list_items (list : Place) (braced : isBraced ((solids list.node.children).map (·.kind)) = true) :
    ∃ brace nodes, solids list.node.children = brace :: nodes ∧ brace.kind = "\x7b" ∧ Items (specifiersOf list) nodes := by
  cases shape : solids list.node.children with
  | nil => rw [shape] at braced; cases braced
  | cons brace nodes =>
      rw [shape, List.map_cons, isBraced, Bool.and_eq_true, beq_iff_eq] at braced
      obtain ⟨front, rest, same, filtered⟩ := next_solid list.node.label list.steps list.node.children [] brace nodes shape
      have chain := items_of_kinds list.node.label list.steps _ rest (brace :: front) rfl (by rw [same]; exact braced.2)
      refine ⟨brace, nodes, rfl, braced.1, ?_⟩
      rw [same] at chain
      rw [specifiersOf, Place.children, filtered, List.filter_cons_of_neg (by simp [Place.kind, braced.1])]
      exact chain

theorem items_head (place : Place) (rest : List Place) (nodes : List Node) (items : Items (place :: rest) nodes) :
    nodes = place.node :: solids place.after := by
  cases items with
  | last _ close kind behind => rw [behind]
  | next _ comma others more kind behind => rw [behind]

-- Behind the last specifier stands the closing brace, perhaps behind a comma.
theorem items_last (places : List Place) (nodes : List Node) (items : Items places nodes) : ∀ last ∈ places.getLast?,
    ∃ close, close.kind = "\x7d" ∧ (solids last.after = [close] ∨ ∃ comma, comma.kind = "," ∧ solids last.after = [comma, close]) := by
  induction items with
  | none close kind => exact fun _ none => by cases none
  | last place close kind behind =>
      intro last ending
      obtain rfl := Option.some.inj ending
      exact ⟨close, kind, .inl behind⟩
  | next place comma rest nodes kind behind more ih =>
      intro last ending
      cases more with
      | none close brace =>
          obtain rfl := Option.some.inj ending
          exact ⟨close, brace, .inr ⟨comma, kind, behind⟩⟩
      | last other close brace none => exact ih last (by simpa using ending)
      | next other second others more mark later deeper => exact ih last (by simpa using ending)

end SourceTree

end ScriptTidy
