import ScriptTidy.Proofs.Import.ListTokens

/-! The tokens of the regions of a braced list, and where the scan stands between them. -/

set_option autoImplicit false

namespace ScriptTidy.SourceTree

open Text Place Edits Lexing

section Regions

variable (tree : SourceTree) (list : Place) (nested : list.InNested tree.text) (form : tree.ListForm list)

theorem node_in_list (specifier : Place) (member : specifier ∈ specifiersOf list) (node : Node)
    (around : node ∈ specifier.before ∨ node = specifier.node ∨ node ∈ specifier.after) : node ∈ list.node.children :=
  before_in_children specifier list ((mem_specifiers_iff list specifier).mp member).1 node around

include form

-- A mark is a token by itself, and leaves no scan behind.
theorem mark_tokens (node : Node) (member : node ∈ list.node.children)
    (mark : node.kind = "\x7b" ∨ node.kind = "\x7d" ∨ node.kind = ",") :
    tree.nodeTokens node = [node.kind.toList] ∧ ending .free (tree.textOf node) = .free := by
  have text := form.marks node member (by rcases mark with kind | kind | kind <;> rw [kind] <;> decide)
  rw [nodeTokens, text]
  rcases mark with kind | kind | kind <;> rw [kind] <;> decide

include nested

omit form in
theorem region_head (specifier : Place) (member : specifier ∈ specifiersOf list) : ∃ head ∈ list.node.children,
    head.start ≤ specifier.start ∧ tree.regionStart specifier = tree.text.lineStartIfIndented head.start := by
  have early := (comment_head_spec tree specifier (specifier_nested tree list nested specifier member)).1
  refine ⟨tree.commentHead specifier.node specifier.before, node_in_list list specifier member _ ?_, early, rfl⟩
  rcases comment_head_cases tree specifier.before specifier.node with same | ⟨front, rest, shape, _⟩
  · exact .inr (.inl same)
  · generalize tree.commentHead specifier.node specifier.before = head at shape
    exact .inl (by simp [shape])

theorem specifier_bounds (specifier : Place) (member : specifier ∈ specifiersOf list) :
    tree.regionStart specifier ≤ specifier.start ∧ specifier.start < specifier.stop :=
  ⟨(region_start_spec tree specifier (specifier_nested tree list nested specifier member)).2.1,
    (form.children specifier.node (node_in_list list specifier member _ (.inr (.inl rfl)))).1⟩

-- Where a region begins, no node is cut, and no line break stands.
theorem cut_region (specifier : Place) (member : specifier ∈ specifiersOf list) : tree.IsCut list (tree.regionStart specifier) ∧
    (tree.text.after (tree.regionStart specifier)).head?.any (fun char => !isLineBreak char) = true := by
  have own := specifier_nested tree list nested specifier member
  obtain ⟨head, listed, early, same⟩ := region_head tree list nested specifier member
  have boundary := (list_child_nested tree list nested head listed).first
  obtain ⟨start, lower, indent⟩ := line_start_if_indented_spec tree.text head.start boundary
  have inside := below_inside tree.text specifier list own (parent_below specifier list ((mem_specifiers_iff list specifier).mp member).1)
  have size := (specifier_bounds tree list nested form specifier member).2
  have first := list_start_le tree list nested form.toListEdges specifier member
  rw [same] at first ⊢
  refine ⟨⟨start, first, by omega, fun child present => ?_⟩, ?_⟩
  · rcases (cut_child tree list nested head listed head.start (.inl rfl)).apart child present with before | after
    · have childNested := list_child_nested tree list nested child present
      exact .inl (shown_le_line_start tree.text child.stop head.start childNested.last boundary before
        (form.children child present).2.2.1)
    · exact .inr (Nat.le_trans lower after)
  · have starts := (form.children head listed).2.1
    have whole := between_append_after tree.text _ head.start start boundary lower
    rw [← whole]
    cases gap : tree.text.between (tree.text.lineStartIfIndented head.start) head.start with
    | nil =>
        cases shape : tree.text.after head.start with
        | nil => rw [StartsShown, shape] at starts; cases starts
        | cons char rest =>
            rw [StartsShown, shape] at starts
            cases lineBreak : isLineBreak char with
            | false => simp [lineBreak]
            | true => simp [break_skipped char lineBreak] at starts
    | cons char rest =>
        rw [gap, List.all_cons, Bool.and_eq_true] at indent
        have plain : isLineBreak char = false := by
          simp only [isIndent, Bool.or_eq_true, beq_iff_eq] at indent
          rcases indent.1 with rfl | rfl <;> decide
        simp [plain]

theorem solid_le_region (specifier : Place) (member : specifier ∈ specifiersOf list) (node : Node)
    (listed : node ∈ list.node.children) (solid : node.isComment = false) (before : node.stop ≤ specifier.start) :
    node.stop ≤ tree.regionStart specifier := by
  have own := specifier_nested tree list nested specifier member
  have children := parent_children specifier list ((mem_specifiers_iff list specifier).mp member).1
  have size := (specifier_bounds tree list nested form specifier member).2
  have wide := (form.children node listed).1
  have shown := (form.children node listed).2.2.1
  rw [children, List.mem_append, List.mem_reverse, List.mem_cons] at listed
  rcases listed with front | same | back
  · exact (region_start_spec tree specifier own).2.2 node front solid shown
  · subst same
    exact absurd wide (Nat.not_lt.mpr before)
  · have after := (siblings_apart tree.text specifier own).2.1 node back
    omega

-- The nodes behind an offset that no node in front of a specifier passes.
omit nested in
theorem solids_from (specifier : Place) (member : specifier ∈ specifiersOf list) (start stop : Nat)
    (front : ∀ node ∈ specifier.before, node.isComment = false → node.stop ≤ start) :
    solidsIn list start stop = (specifier.node :: solids specifier.after).filter fun node =>
      decide (start ≤ node.start) && decide (node.stop ≤ stop) := by
  have children := parent_children specifier list ((mem_specifiers_iff list specifier).mp member).1
  have none : ((solids specifier.before.reverse).filter fun node =>
      decide (start ≤ node.start) && decide (node.stop ≤ stop)) = [] := by
    refine List.filter_eq_nil_iff.mpr fun node present => ?_
    obtain ⟨listed, solid⟩ := (mem_solids_iff node _).mp present
    have inFront := List.mem_reverse.mp listed
    have order := front node inFront solid
    have size := (form.children node (node_in_list list specifier member node (.inl inFront))).1
    simp only [Bool.and_eq_true, decide_eq_true_eq]
    omega
  have whole : solids list.node.children =
      solids specifier.before.reverse ++ specifier.node :: solids specifier.after := by
    rw [children, ← solids_cons _ _ (specifier_solid list specifier member)]
    exact List.filter_append _ _
  rw [solidsIn, whole, List.filter_append, none, List.nil_append]

theorem solids_behind (specifier : Place) (member : specifier ∈ specifiersOf list) (start stop : Nat)
    (behind : specifier.stop ≤ start) : solidsIn list start stop =
      (solids specifier.after).filter fun node => decide (start ≤ node.start) && decide (node.stop ≤ stop) := by
  have own := specifier_nested tree list nested specifier member
  have size := (specifier_bounds tree list nested form specifier member).2
  have here : ¬ start ≤ specifier.node.start := Nat.not_le.mpr (Nat.lt_of_lt_of_le size behind)
  rw [solids_from tree list form specifier member start stop fun node present _ => ?_, List.filter_cons_of_neg (by simp [here])]
  have order := (siblings_apart tree.text specifier own).1 node present
  omega

theorem solids_region (specifier : Place) (member : specifier ∈ specifiersOf list) (stop : Nat) :
    solidsIn list (tree.regionStart specifier) stop =
      (specifier.node :: solids specifier.after).filter fun node => decide (node.stop ≤ stop) := by
  have own := specifier_nested tree list nested specifier member
  obtain ⟨start, size⟩ := specifier_bounds tree list nested form specifier member
  have front := (region_start_spec tree specifier own).2.2
  rw [solids_from tree list form specifier member _ stop fun node present solid => front node present solid
    (form.children node (node_in_list list specifier member node (.inl present))).2.2.1]
  refine List.filter_congr fun node present => ?_
  have late : tree.regionStart specifier ≤ node.start := by
    rcases List.mem_cons.mp present with rfl | later
    · exact start
    · have order := (siblings_apart tree.text specifier own).2.1 node ((mem_solids_iff node _).mp later).1
      omega
  simp [late]

-- In front of a region the scan stands in nothing.
theorem region_free (specifier : Place) (member : specifier ∈ specifiersOf list) (start : Nat) (cut : tree.IsCut list start)
    (ordered : start ≤ tree.regionStart specifier)
    (marks : ∀ node ∈ solidsIn list start (tree.regionStart specifier), node.stop = tree.regionStart specifier →
      node.kind = "\x7b" ∨ node.kind = ",") :
    ending .free (tree.text.between start (tree.regionStart specifier)) = .free := by
  obtain ⟨region, plain⟩ := cut_region tree list nested form specifier member
  rcases (tokens_between_cuts tree list nested form start _ cut region ordered).2 with free | ⟨child, listed, late, stop, same⟩
  · exact free
  · rw [same]
    cases comment : child.isComment with
    | false =>
        have present : child ∈ solidsIn list start (tree.regionStart specifier) := by
          simp [solidsIn, mem_solids_iff, listed, comment, late, stop]
        have mark := marks child present stop
        exact (mark_tokens tree list form child listed (mark.imp id .inr)).2
    | true =>
        have settled := (form.children child listed).2.2.2
        rw [stop] at settled
        cases head : (tree.text.after (tree.regionStart specifier)).head? with
        | none => rw [head] at plain; cases plain
        | some char =>
            rw [head] at plain settled
            rcases settled_plain _ char (by simpa using plain) (by simpa using settled) with free | ⟨letters, word, _⟩
            · exact free
            · exact absurd word (not_word_of_tokens _ (form.comments child listed comment) letters)

omit form in
theorem solids_ordered (specifier : Place) (member : specifier ∈ specifiersOf list) :
    (specifier.node :: solids specifier.after).Pairwise fun first second => first.stop ≤ second.start := by
  have apart := siblings_apart tree.text specifier (specifier_nested tree list nested specifier member)
  exact List.pairwise_cons.mpr ⟨fun node present => apart.2.1 node ((mem_solids_iff node _).mp present).1,
    apart.2.2.2.sublist List.filter_sublist⟩

omit nested form in
theorem solid_listed (specifier : Place) (member : specifier ∈ specifiersOf list) (node : Node)
    (present : node ∈ solids specifier.after) : node ∈ list.node.children ∧ node.isComment = false := by
  obtain ⟨after, solid⟩ := (mem_solids_iff node _).mp present
  exact ⟨node_in_list list specifier member node (.inr (.inr after)), solid⟩

theorem region_past (specifier : Place) (member : specifier ∈ specifiersOf list) :
    ∀ node ∈ specifier.node :: solids specifier.after, tree.regionStart specifier < node.stop := by
  obtain ⟨early, size⟩ := specifier_bounds tree list nested form specifier member
  intro node present
  rcases List.mem_cons.mp present with rfl | later
  · exact Nat.lt_of_le_of_lt early size
  · have passed := (List.pairwise_cons.mp (solids_ordered tree list nested specifier member)).1 node later
    have width := (form.children node (solid_listed list specifier member node later).1).1
    have behind : specifier.stop ≤ node.start := passed
    omega

end Regions

-- Two specifiers next to each other, with the comma between them and what stands behind the second one.
structure Neighbours (list specifier next : Place) (comma : Node) (more : List Node) : Prop where
  member : specifier ∈ specifiersOf list
  later : next ∈ specifiersOf list
  behind : solids specifier.after = comma :: next.node :: more
  kind : comma.kind = ","

structure RegionOrder (tree : SourceTree) (list specifier next : Place) (comma : Node) (more : List Node) : Prop where
  start : tree.regionStart specifier ≤ specifier.start
  size : specifier.start < specifier.stop
  behind : specifier.stop ≤ comma.start
  wide : comma.start < comma.stop
  bound : comma.stop ≤ tree.regionStart next
  past : ∀ node ∈ next.node :: more, tree.regionStart next < node.stop
  listed : comma ∈ list.node.children

section Between

variable (tree : SourceTree) (list : Place) (nested : list.InNested tree.text) (form : tree.ListForm list)
  (specifier next : Place) (comma : Node) (more : List Node) (beside : Neighbours list specifier next comma more)

include nested form beside

theorem region_order : RegionOrder tree list specifier next comma more := by
  have order := solids_ordered tree list nested specifier beside.member
  rw [beside.behind] at order
  obtain ⟨first, rest⟩ := List.pairwise_cons.mp order
  obtain ⟨second, final⟩ := List.pairwise_cons.mp rest
  have commaListed := solid_listed list specifier beside.member comma (by simp [beside.behind])
  obtain ⟨start, size⟩ := specifier_bounds tree list nested form specifier beside.member
  obtain ⟨nextStart, nextSize⟩ := specifier_bounds tree list nested form next beside.later
  have bound := solid_le_region tree list nested form next beside.later comma commaListed.1 commaListed.2
    (second next.node List.mem_cons_self)
  refine ⟨start, size, first comma List.mem_cons_self, (form.children comma commaListed.1).1, bound, fun node present => ?_,
    commaListed.1⟩
  rcases List.mem_cons.mp present with rfl | deeper
  · exact Nat.lt_of_le_of_lt nextStart nextSize
  · have passed : next.stop ≤ node.start := (List.pairwise_cons.mp final).1 node deeper
    have listed := solid_listed list specifier beside.member node (by simp [beside.behind, deeper])
    have width := (form.children node listed.1).1
    omega

-- Up to an offset in front of the next region, there is at most the specifier and its comma.
theorem solids_up_to (stop : Nat) (early : stop ≤ tree.regionStart next) (behind : specifier.stop ≤ stop) :
    solidsIn list (tree.regionStart specifier) stop = specifier.node :: if comma.stop ≤ stop then [comma] else [] := by
  have order := region_order tree list nested form specifier next comma more beside
  have here : specifier.node.stop ≤ stop := behind
  have none : (next.node :: more).filter (fun node => decide (node.stop ≤ stop)) = [] := by
    apply List.filter_eq_nil_iff.mpr
    intro node present
    have past := order.past node present
    simp only [decide_eq_true_eq]
    omega
  rw [solids_region tree list nested form specifier beside.member, beside.behind, List.filter_cons_of_pos (by simp [here])]
  by_cases inside : comma.stop ≤ stop
  · rw [List.filter_cons_of_pos (by simp [inside]), none, if_pos inside]
  · rw [List.filter_cons_of_neg (by simp [inside]), none, if_neg inside]

-- A region in front of another one has the tokens of its specifier and a comma.
theorem region_tokens : tokens (tree.text.between (tree.regionStart specifier) (tree.regionStart next)) =
    tree.nodeTokens specifier.node ++ [[',']] ∧
      ending .free (tree.text.between (tree.regionStart specifier) (tree.regionStart next)) = .free := by
  have order := region_order tree list nested form specifier next comma more beside
  obtain ⟨start, size, behind, wide, bound, past, listed⟩ := order
  have inner := solids_up_to tree list nested form specifier next comma more beside (tree.regionStart next) (Nat.le_refl _) (by omega)
  rw [if_pos bound] at inner
  have cut := (cut_region tree list nested form specifier beside.member).1
  have nextCut := (cut_region tree list nested form next beside.later).1
  constructor
  · have mark := (mark_tokens tree list form comma listed (.inr (.inr beside.kind))).1
    rw [(tokens_between_cuts tree list nested form _ _ cut nextCut (by omega)).1, inner]
    simp [mark, beside.kind]
  · refine region_free tree list nested form next beside.later _ cut (by omega) fun node present stop => ?_
    rw [inner] at present
    rcases List.mem_cons.mp present with rfl | final
    · have stays : specifier.stop = tree.regionStart next := stop
      omega
    · rw [List.mem_singleton.mp final]
      exact .inr beside.kind

-- Up to its comma a region has the tokens of its specifier.
theorem specifier_tokens : tokens (tree.text.between (tree.regionStart specifier) comma.start) = tree.nodeTokens specifier.node := by
  obtain ⟨start, size, behind, wide, bound, past, listed⟩ := region_order tree list nested form specifier next comma more beside
  have inner := solids_up_to tree list nested form specifier next comma more beside comma.start (by omega) behind
  rw [if_neg (by omega)] at inner
  have cut := (cut_region tree list nested form specifier beside.member).1
  have commaCut := cut_child tree list nested comma listed comma.start (.inl rfl)
  rw [(tokens_between_cuts tree list nested form _ _ cut commaCut (by omega)).1, inner]
  simp

-- Behind the comma a region has no tokens.
theorem region_rest : tokens (tree.text.between comma.stop (tree.regionStart next)) = [] ∧
    ending .free (tree.text.between comma.stop (tree.regionStart next)) = .free := by
  obtain ⟨start, size, behind, wide, bound, past, listed⟩ := region_order tree list nested form specifier next comma more beside
  have inner : solidsIn list comma.stop (tree.regionStart next) = [] := by
    rw [solids_behind tree list nested form specifier beside.member comma.stop _ (by omega), beside.behind]
    apply List.filter_eq_nil_iff.mpr
    intro node present
    simp only [Bool.and_eq_true, decide_eq_true_eq]
    rcases List.mem_cons.mp present with rfl | deeper
    · omega
    · have upper := past node deeper
      omega
  have cut := cut_child tree list nested comma listed comma.stop (.inr rfl)
  have nextCut := (cut_region tree list nested form next beside.later).1
  constructor
  · rw [(tokens_between_cuts tree list nested form _ _ cut nextCut bound).1, inner]
    rfl
  · refine region_free tree list nested form next beside.later _ cut bound fun node present => ?_
    rw [inner] at present
    exact absurd present List.not_mem_nil

end Between

end ScriptTidy.SourceTree
