import ScriptTidy.Import.NamedList
import ScriptTidy.Proofs.Edit.Spliced
import ScriptTidy.Proofs.Tree.Attached

/-! Where a braced list is cut, and the text that is put together from the cuts. -/

set_option autoImplicit false

namespace ScriptTidy.SourceTree

open Text Place Edits

def solids (nodes : List Node) : List Node := nodes.filter fun node => !node.isComment

theorem comma_solid (comma : Node) (kind : comma.kind = ",") : comma.isComment = false := by
  rw [Node.isComment, kind]
  decide

section Heads

variable (tree : SourceTree)

theorem comment_head_cases (before : List Node) : ∀ head : Node, tree.commentHead head before = head ∨
    ∃ front rest, before = front ++ tree.commentHead head before :: rest ∧ rest ≠ [] ∧
      (∀ node ∈ front, node.isComment = true) ∧ (tree.commentHead head before).isComment = true := by
  induction before with
  | nil => exact fun head => .inl rfl
  | cons comment others ih =>
      intro head
      cases others with
      | nil => exact .inl rfl
      | cons previous more =>
          by_cases above : comment.isComment = true ∧ tree.startRow comment ≠ tree.stopRow previous
          · have step : tree.commentHead head (comment :: previous :: more) = tree.commentHead comment (previous :: more) := by
              simp [commentHead, above]
            rw [step]
            rcases ih comment with same | ⟨front, rest, shape, some, comments, isComment⟩
            · exact .inr ⟨[], previous :: more, by rw [same]; rfl, List.cons_ne_nil _ _,
                fun _ member => absurd member List.not_mem_nil, same.symm ▸ above.1⟩
            · refine .inr ⟨comment :: front, rest, by rw [List.cons_append, ← shape], some, fun node member => ?_, isComment⟩
              rcases List.mem_cons.mp member with same | later
              · exact same ▸ above.1
              · exact comments node later
          · exact .inl (by simp [commentHead, above])

variable (specifier : Place) (nested : specifier.InNested tree.text)

include nested

-- The comment lines above a specifier begin behind each sibling that is no comment.
theorem comment_head_spec : (tree.commentHead specifier.node specifier.before).start ≤ specifier.start ∧
    tree.text.IsBoundary (tree.commentHead specifier.node specifier.before).start ∧
    ∀ sibling ∈ specifier.before, sibling.isComment = false →
      sibling.stop ≤ (tree.commentHead specifier.node specifier.before).start := by
  have apart := siblings_apart tree.text specifier nested
  rcases comment_head_cases tree specifier.before specifier.node with same | ⟨front, rest, shape, _, comments, isComment⟩
  · rw [same]
    exact ⟨Nat.le_refl _, (node_nested tree.text specifier nested).first, fun sibling member _ => apart.1 sibling member⟩
  · generalize tree.commentHead specifier.node specifier.before = head at shape isComment ⊢
    have present : head ∈ specifier.before := by simp [shape]
    have headNested := siblings_nested tree.text specifier nested head (List.mem_append_left _ present)
    refine ⟨Nat.le_trans headNested.ordered (apart.1 head present), headNested.first, fun sibling member solid => ?_⟩
    rw [shape] at member apart
    rcases List.mem_append.mp member with inFront | behind
    · rw [comments sibling inFront] at solid
      exact Bool.noConfusion solid
    · rcases List.mem_cons.mp behind with same | farther
      · rw [same, isComment] at solid
        exact Bool.noConfusion solid
      · exact (List.pairwise_cons.mp (List.pairwise_append.mp apart.2.2.1).2.1).1 sibling farther

theorem region_start_spec : tree.text.IsBoundary (tree.regionStart specifier) ∧ tree.regionStart specifier ≤ specifier.start ∧
    ∀ sibling ∈ specifier.before, sibling.isComment = false → tree.text.EndsShown sibling.stop →
      sibling.stop ≤ tree.regionStart specifier := by
  obtain ⟨early, boundary, behind⟩ := comment_head_spec tree specifier nested
  obtain ⟨start, lower, _⟩ := line_start_if_indented_spec tree.text _ boundary
  refine ⟨start, Nat.le_trans lower early, fun sibling member solid shown => ?_⟩
  have last := (siblings_nested tree.text specifier nested sibling (List.mem_append_left _ member)).last
  exact shown_le_line_start tree.text _ _ last boundary (behind sibling member solid) shown

omit nested in
theorem comma_after_some (comma : Node) (found : commaAfter? specifier = some comma) :
    ∃ rest, specifier.after = comma :: rest ∧ comma.kind = "," := by
  unfold commaAfter? at found
  cases shape : specifier.after with
  | nil => rw [shape] at found; cases found
  | cons next rest =>
      rw [shape, List.head?_cons, Option.filter_some] at found
      split at found
      next kind =>
        obtain rfl := Option.some.inj found
        exact ⟨rest, rfl, by simpa using kind⟩
      next => cases found

-- The tail begins behind the last specifier, its comma and a comment that follows on its line.
omit nested in
theorem tail_start_cases : ∃ front rest, specifier.after = front ++ rest ∧
    solids front = (commaAfter? specifier).toList ∧
      tree.tailStart specifier = (front.getLast?.getD specifier.node).stop := by
  unfold tailStart
  cases found : commaAfter? specifier with
  | none =>
      simp only [Option.isSome_none, Bool.false_eq_true, if_false]
      cases shape : specifier.after with
      | nil => exact ⟨[], [], rfl, rfl, rfl⟩
      | cons next rest =>
          by_cases trailing : next.isComment = true ∧ tree.startRow next = tree.stopRow specifier.node
          · exact ⟨[next], rest, rfl, by simp [solids, trailing], by simp [trailing]⟩
          · exact ⟨[], next :: rest, rfl, rfl, by simp [trailing, Place.stop]⟩
  | some comma =>
      obtain ⟨rest, shape, kind⟩ := comma_after_some specifier comma found
      have solid := comma_solid comma kind
      simp only [Option.isSome_some, if_true, shape, List.drop_succ_cons, List.drop_zero]
      cases rest with
      | nil => exact ⟨[comma], [], rfl, by simp [solids, solid], rfl⟩
      | cons next more =>
          by_cases trailing : next.isComment = true ∧ tree.startRow next = tree.stopRow specifier.node
          · exact ⟨[comma, next], more, rfl, by simp [solids, solid, trailing], by simp [trailing]⟩
          · exact ⟨[comma], next :: more, rfl, by simp [solids, solid], by simp [trailing]⟩

theorem tail_start_spec : tree.text.IsBoundary (tree.tailStart specifier) ∧ specifier.stop ≤ tree.tailStart specifier ∧
    (∀ comma ∈ commaAfter? specifier, comma.stop ≤ tree.tailStart specifier) ∧
    ∀ parent, specifier.parent? = some parent → tree.tailStart specifier ≤ parent.stop := by
  have apart := siblings_apart tree.text specifier nested
  obtain ⟨front, rest, shape, solid, same⟩ := tail_start_cases tree specifier
  have solidMember (comma : Node) (found : comma ∈ commaAfter? specifier) : comma ∈ front := by
    have present : comma ∈ solids front := by
      rw [solid, Option.mem_toList]
      exact found
    exact (List.mem_filter.mp present).1
  rcases List.eq_nil_or_concat front with rfl | ⟨others, node, rfl⟩
  · rw [same]
    exact ⟨(node_nested tree.text specifier nested).last, Nat.le_refl _,
      fun comma found => absurd (solidMember comma found) List.not_mem_nil,
      fun parent above => (siblings_inside tree.text specifier nested parent above specifier.node (.inr (.inl rfl))).2⟩
  · rw [List.concat_eq_append] at shape solidMember same
    rw [List.getLast?_concat, Option.getD_some] at same
    have member : node ∈ specifier.after := by simp [shape]
    have nodeNested := siblings_nested tree.text specifier nested node (List.mem_append_right _ member)
    have order := apart.2.2.2
    rw [shape] at order
    rw [same]
    refine ⟨nodeNested.last, Nat.le_trans (apart.2.1 node member) nodeNested.ordered, fun comma found => ?_,
      fun parent above => (siblings_inside tree.text specifier nested parent above node (.inr (.inr member))).2⟩
    rcases List.mem_append.mp (solidMember comma found) with early | final
    · have passed := (List.pairwise_append.mp (List.pairwise_append.mp order).1).2.2 comma early node List.mem_cons_self
      exact Nat.le_trans passed nodeNested.ordered
    · rw [List.mem_singleton.mp final]

end Heads

-- The edges of what stands in a list: a brace opens it, and specifiers and commas end with visible characters.
structure ListEdges (tree : SourceTree) (list : Place) : Prop where
  opens : ∀ first ∈ list.node.children.head?, first.kind ≠ "import_specifier" ∧ first.isComment = false ∧
    tree.text.EndsShown first.stop
  items : ∀ child ∈ list.node.children, child.kind = "import_specifier" ∨ child.kind = "," → tree.text.EndsVisible child.stop

instance (tree : SourceTree) (list : Place) : Decidable (tree.ListEdges list) :=
  decidable_of_iff ((∀ first ∈ list.node.children.head?, first.kind ≠ "import_specifier" ∧ first.isComment = false ∧
      tree.text.EndsShown first.stop) ∧ ∀ child ∈ list.node.children, child.kind = "import_specifier" ∨ child.kind = "," →
        tree.text.EndsVisible child.stop)
    ⟨fun given => ⟨given.1, given.2⟩, fun edges => ⟨edges.opens, edges.items⟩⟩

def specifiersOf (list : Place) : List Place := list.children.filter (·.kind == "import_specifier")

def regionText (tree : SourceTree) (region : Region) : Text := tree.text.between region.start region.stop

-- The text of the region that becomes the last one.
def closingShown (tree : SourceTree) (endsWithComma : Bool) (region : Region) : Text :=
  match (if endsWithComma then none else commaAfter? region.specifier) with
  | none => trimEnd (tree.regionText region)
  | some comma => tree.text.between region.start comma.start ++ trimEnd (tree.text.between comma.stop region.stop)

def bodyText (tree : SourceTree) (last : Place) : List Region → Text
  | [] => []
  | [region] =>
      if region.specifier.isAt last then tree.regionText region
      else tree.closingShown (commaAfter? last).isSome region
  | region :: rest => tree.regionText region ++ bodyText tree last rest

section Lists

variable (tree : SourceTree) (list : Place)

theorem mem_specifiers_iff (specifier : Place) : specifier ∈ specifiersOf list ↔
    specifier.parent? = some list ∧ specifier.kind = "import_specifier" := by
  rw [specifiersOf, List.mem_filter, mem_children_iff, beq_iff_eq]

theorem specifiers_earlier : (specifiersOf list).Pairwise Earlier := (children_earlier list).sublist List.filter_sublist

theorem specifier_solid (specifier : Place) (member : specifier ∈ specifiersOf list) : specifier.node.isComment = false := by
  have kind : specifier.node.kind = "import_specifier" := ((mem_specifiers_iff list specifier).mp member).2
  rw [Node.isComment, kind]
  decide

theorem before_in_children (place parent : Place) (above : place.parent? = some parent) (node : Node)
    (member : node ∈ place.before ∨ node = place.node ∨ node ∈ place.after) : node ∈ parent.node.children := by
  rw [parent_children place parent above, List.mem_append, List.mem_reverse, List.mem_cons]
  exact member

-- A specifier and the comma right behind it stand in front of the next specifier.
theorem earlier_before (first second : Place) (earlier : first.Earlier second) : first.node ∈ second.before ∧
    ∀ comma ∈ commaAfter? first, comma.kind ≠ second.kind → comma ∈ second.before := by
  cases earlier with
  | siblings parent above passed one middle other rest =>
      refine ⟨by simp [Place.before], fun comma found different => ?_⟩
      obtain ⟨more, shape, _⟩ := comma_after_some _ comma found
      cases middle with
      | nil =>
          obtain ⟨rfl, _⟩ := List.cons.inj shape
          exact absurd rfl different
      | cons head tail =>
          obtain ⟨rfl, _⟩ := List.cons.inj shape
          simp [Place.before]

variable (nested : list.InNested tree.text) (edges : tree.ListEdges list)

include nested

theorem specifier_nested (specifier : Place) (member : specifier ∈ specifiersOf list) : specifier.InNested tree.text := by
  have above := ((mem_specifiers_iff list specifier).mp member).1
  exact in_nested_of_root tree.text list specifier nested (parent_root specifier list above).symm

include edges

omit nested in
theorem specifier_ends (specifier : Place) (member : specifier ∈ specifiersOf list) : tree.text.EndsVisible specifier.stop := by
  obtain ⟨above, kind⟩ := (mem_specifiers_iff list specifier).mp member
  exact edges.items specifier.node (before_in_children specifier list above specifier.node (.inr (.inl rfl))) (.inl kind)

theorem comma_ends (specifier : Place) (member : specifier ∈ specifiersOf list) (comma : Node)
    (found : commaAfter? specifier = some comma) : tree.text.EndsVisible comma.stop ∧ comma.Nested tree.text ∧
      specifier.stop ≤ comma.start := by
  obtain ⟨above, _⟩ := (mem_specifiers_iff list specifier).mp member
  obtain ⟨rest, shape, kind⟩ := comma_after_some specifier comma found
  have present : comma ∈ specifier.after := by simp [shape]
  have own := specifier_nested tree list nested specifier member
  exact ⟨edges.items comma (before_in_children specifier list above comma (.inr (.inr present))) (.inr kind),
    siblings_nested tree.text specifier own comma (List.mem_append_right _ present),
    (siblings_apart tree.text specifier own).2.1 comma present⟩

-- A region ends behind its specifier and the comma right behind that.
theorem region_stop_spec (first second : Place) (member : first ∈ specifiersOf list) (later : second ∈ specifiersOf list)
    (earlier : first.Earlier second) : first.stop ≤ tree.regionStart second ∧
      ∀ comma ∈ commaAfter? first, comma.stop ≤ tree.regionStart second := by
  have start := region_start_spec tree second (specifier_nested tree list nested second later)
  have front := earlier_before first second earlier
  refine ⟨start.2.2 first.node front.1 (specifier_solid list first member)
    (ends_visible_shown _ _ (specifier_ends tree list edges first member)), fun comma found => ?_⟩
  obtain ⟨_, _, kind⟩ := comma_after_some first comma found
  have other : comma.kind ≠ second.kind := by
    rw [kind, ((mem_specifiers_iff list second).mp later).2]
    decide
  exact start.2.2 comma (front.2 comma found other) (comma_solid comma kind)
    (ends_visible_shown _ _ (comma_ends tree list nested edges first member comma found).1)

-- The list begins in front of its first region.
theorem list_start_le (specifier : Place) (member : specifier ∈ specifiersOf list) : list.start ≤ tree.regionStart specifier := by
  obtain ⟨above, kind⟩ := (mem_specifiers_iff list specifier).mp member
  have own := specifier_nested tree list nested specifier member
  have children := parent_children specifier list above
  cases shape : specifier.before.reverse with
  | nil =>
      rw [shape, List.nil_append] at children
      exact absurd kind (edges.opens specifier.node (by rw [children]; rfl)).1
  | cons brace middle =>
      rw [shape, List.cons_append] at children
      obtain ⟨_, solid, shown⟩ := edges.opens brace (by rw [children]; rfl)
      have present : brace ∈ specifier.before := List.mem_reverse.mp (by rw [shape]; exact List.mem_cons_self)
      have behind := (region_start_spec tree specifier own).2.2 brace present solid shown
      have inside := (siblings_inside tree.text specifier own list above brace (.inl present)).1
      have forward := (siblings_nested tree.text specifier own brace (List.mem_append_left _ present)).ordered
      omega

end Lists

end ScriptTidy.SourceTree
