import ScriptTidy.Proofs.Import.PrunedList
import ScriptTidy.Proofs.Import.Total

/-! The cuts part a braced list: each specifier lies with its comma in one region, and what stays is copied region by region. -/

set_option autoImplicit false

namespace ScriptTidy

-- A node lies in a region as a whole.
def Region.Holds (region : Region) (node : Node) : Prop := region.start ≤ node.start ∧ node.stop ≤ region.stop

-- One region stands wholly in front of another one.
def Region.Precedes (first second : Region) : Prop := first.stop ≤ second.start ∧ second.start ≤ second.stop

instance : Trans Region.Precedes Region.Precedes Region.Precedes :=
  ⟨fun near far => ⟨Nat.le_trans near.1 (Nat.le_trans near.2 far.1), far.2⟩⟩

namespace SourceTree

open Text Place Edits Node

-- Specifiers in braces with commas between them; comments and blanks may stand anywhere.
structure BracedList (tree : SourceTree) (list : Place) : Prop extends ListEdges tree list where
  kinds : isBraced ((solids list.node.children).map (·.kind)) = true
  wide : ∀ child ∈ list.node.children, child.start < child.stop

instance (tree : SourceTree) (list : Place) : Decidable (tree.BracedList list) :=
  decidable_of_iff (ListEdges tree list ∧ isBraced ((solids list.node.children).map (·.kind)) = true ∧
      ∀ child ∈ list.node.children, child.start < child.stop)
    ⟨fun ⟨edges, kinds, wide⟩ => ⟨edges, kinds, wide⟩, fun form => ⟨form.toListEdges, form.kinds, form.wide⟩⟩

-- The second region begins where the first one ends, behind the comma that stands between their specifiers.
structure Follows (first second : Region) : Prop where
  meets : first.stop = second.start
  comma : ∃ comma more, solids first.specifier.after = comma :: second.specifier.node :: more ∧ comma.kind = "," ∧
    comma.start < comma.stop ∧ first.Holds comma

-- The regions lie one behind another, each around its specifier and no other.
structure Parts (list : Place) (cuts : ListCuts) : Prop where
  specifiers : cuts.regions.map (·.specifier) = specifiersOf list
  front : ∀ region ∈ cuts.regions, list.start < region.start
  own : ∀ region ∈ cuts.regions, region.Holds region.specifier.node ∧ region.specifier.start < region.specifier.stop
  chain : cuts.regions.IsChain Follows
  alone : cuts.regions.Pairwise fun first second => first.stop ≤ second.start ∧
    ∀ node : Node, node.start < node.stop → ¬ (first.Holds node ∧ second.Holds node)
  last : ∀ region ∈ cuts.regions.getLast?, region.stop = cuts.tail
  tail : cuts.tail ≤ list.stop

-- What is left of a region that comes to stand at the end: all but the blanks there and perhaps the comma of its specifier.
def Closes (tree : SourceTree) (region : Region) (text : Text) : Prop :=
  ∃ front comma back blanks, tree.regionText region = front ++ comma ++ back ++ blanks ∧ text = front ++ back ∧
    blanks.all isBlank = true ∧ (comma = [] ∨ ∃ node ∈ commaAfter? region.specifier,
      front = tree.text.between region.start node.start ∧ comma = tree.text.between node.start node.stop)

-- If a specifier stays, one region comes to stand at the end.
theorem kept_regions {regions : List Region} {specifiers : List Place} (same : regions.map (·.specifier) = specifiers)
    (dead : Place → Bool) (stays : ∃ specifier ∈ specifiers, dead specifier = false) : ∃ kept closing,
      (regions.filter fun region => !dead region.specifier) = kept ++ [closing] := by
  subst same
  obtain ⟨specifier, member, lives⟩ := stays
  obtain ⟨region, present, rfl⟩ := List.mem_map.mp member
  have filled : (regions.filter fun region => !dead region.specifier) ≠ [] :=
    List.ne_nil_of_mem (List.mem_filter.mpr ⟨present, by simp [lives]⟩)
  exact ⟨_, _, (List.dropLast_append_getLast filled).symm⟩

section Lists

variable (tree : SourceTree) (list : Place) (nested : list.InNested tree.text) (form : tree.BracedList list)

include nested form

omit nested in
theorem specifier_wide (specifier : Place) (member : specifier ∈ specifiersOf list) : specifier.start < specifier.stop :=
  form.wide specifier.node (node_in_list list specifier member _ (.inr (.inl rfl)))

-- The comma between two specifiers lies in the region of the first one.
theorem comma_before_region (specifier next : Place) (comma : Node) (more : List Node)
    (beside : Neighbours list specifier next comma more) : specifier.stop ≤ comma.start ∧ comma.start < comma.stop ∧
      comma.stop ≤ tree.regionStart next := by
  have order := solids_ordered tree list nested specifier beside.member
  rw [beside.behind] at order
  obtain ⟨first, rest⟩ := List.pairwise_cons.mp order
  have before : comma.stop ≤ next.start := (List.pairwise_cons.mp rest).1 next.node List.mem_cons_self
  obtain ⟨listed, solid⟩ := solid_listed list specifier beside.member comma (by simp [beside.behind])
  have wide := form.wide comma listed
  have nextWide := specifier_wide tree list form next beside.later
  have own := specifier_nested tree list nested next beside.later
  refine ⟨first comma List.mem_cons_self, wide, ?_⟩
  have children := parent_children next list ((mem_specifiers_iff list next).mp beside.later).1
  have shown := ends_visible_shown _ _ (form.items comma listed (.inr beside.kind))
  rw [children, List.mem_append, List.mem_reverse, List.mem_cons] at listed
  rcases listed with front | same | back
  · exact (region_start_spec tree next own).2.2 comma front solid shown
  · rw [same] at wide before
    exact absurd wide (Nat.not_lt.mpr before)
  · have after := (siblings_apart tree.text next own).2.1 comma back
    omega

-- A list begins with its brace, which lies in front of all regions.
theorem list_start_lt (specifier : Place) (member : specifier ∈ specifiersOf list) : list.start < tree.regionStart specifier := by
  have own := specifier_nested tree list nested specifier member
  obtain ⟨above, kind⟩ := (mem_specifiers_iff list specifier).mp member
  have children := parent_children specifier list above
  cases shape : specifier.before.reverse with
  | nil =>
      rw [shape, List.nil_append] at children
      exact absurd kind (form.opens specifier.node (by rw [children]; rfl)).1
  | cons brace middle =>
      rw [shape, List.cons_append] at children
      have listed : brace ∈ list.node.children := by rw [children]; exact List.mem_cons_self
      obtain ⟨_, solid, shown⟩ := form.opens brace (by rw [children]; rfl)
      have present : brace ∈ specifier.before := List.mem_reverse.mp (by rw [shape]; exact List.mem_cons_self)
      have behind := (region_start_spec tree specifier own).2.2 brace present solid shown
      have inside := ((node_nested tree.text list nested).inside brace listed).1
      exact Nat.lt_of_le_of_lt inside (Nat.lt_of_lt_of_le (form.wide brace listed) behind)

omit nested in
theorem list_regions (last : Place) (ending : (specifiersOf list).getLast? = some last) :
    ∃ before, Regions tree list (tree.tailStart last) (specifiersOf list) last before := by
  obtain ⟨_, _, _, _, items⟩ := list_items list form.kinds
  exact regions_of_items tree list _ _ _ items (fun _ member => member) last ending

-- Along the items of a list, each region ends where that of the next specifier begins.
theorem regions_follow (tail : Nat) (places : List Place) (nodes : List Node) (items : Items places nodes) :
    (∀ place ∈ places, place ∈ specifiersOf list) → (tree.regionsTo tail places).IsChain Follows := by
  induction items with
  | none close kind => exact fun _ => .nil
  | last place close kind behind => exact fun _ => .singleton _
  | next place comma rest nodes kind behind more ih =>
      intro fewer
      cases rest with
      | nil => exact .singleton _
      | cons next others =>
          rw [items_head next others nodes more] at behind
          have here := fewer place List.mem_cons_self
          have there := fewer next (List.mem_cons_of_mem place List.mem_cons_self)
          have beside : Neighbours list place next comma _ := ⟨here, there, behind, kind⟩
          obtain ⟨early, wide, late⟩ := comma_before_region tree list nested form place next comma _ beside
          have start := (region_start_spec tree place (specifier_nested tree list nested place here)).2.1
          have forward := specifier_wide tree list form place here
          have holds : tree.regionStart place ≤ comma.start := by omega
          have chain := ih fun other member => fewer other (List.mem_cons_of_mem place member)
          exact .cons_cons ⟨rfl, comma, _, behind, kind, wide, holds, late⟩ chain

theorem region_holds (region : Region) (given : RegionOf tree list region) :
    region.Holds region.specifier.node ∧ region.specifier.start < region.specifier.stop :=
  ⟨⟨(region_start_bounds tree list nested region given).2.1, given.specifier⟩,
    specifier_wide tree list form region.specifier given.member⟩

omit form in
-- No region reaches into another one.
theorem regions_alone (regions : List Region) (each : ∀ region ∈ regions, RegionOf tree list region)
    (chain : regions.IsChain Follows) : regions.Pairwise fun first second => first.stop ≤ second.start ∧
      ∀ node : Node, node.start < node.stop → ¬ (first.Holds node ∧ second.Holds node) := by
  have steps : regions.IsChain Region.Precedes := by
    refine List.IsChain.imp_of_mem_imp (fun first second _ member follows => ?_) chain
    exact ⟨Nat.le_of_eq follows.meets, (region_start_bounds tree list nested second (each second member)).2.2⟩
  have far := List.isChain_iff_pairwise.mp steps
  refine far.imp fun {first second} apart => ⟨apart.1, fun node wide both => ?_⟩
  have ends := both.1.2
  have starts := both.2.1
  have meets := apart.1
  omega

theorem cuts_part (last : Place) (ending : (specifiersOf list).getLast? = some last) :
    Parts list ⟨tree.regionsTo (tree.tailStart last) (specifiersOf list), tree.tailStart last⟩ := by
  obtain ⟨_, nodes, _, _, items⟩ := list_items list form.kinds
  have member := List.mem_of_getLast? ending
  obtain ⟨before, regions⟩ := list_regions tree list form last ending
  have each := regions_of_list tree list nested form.toListEdges last member (specifiersOf list) (List.Sublist.refl _) ending
  have chain := regions_follow tree list nested form (tree.tailStart last) _ nodes items fun _ present => present
  constructor
  · rw [regions.all, List.map_append]
    exact regions.specifiers.symm
  · intro region present
    have given := each region present
    rw [given.start]
    exact list_start_lt tree list nested form region.specifier given.member
  · exact fun region present => region_holds tree list nested form region (each region present)
  · exact chain
  · exact regions_alone tree list nested _ each chain
  · intro region present
    rw [regions.all, List.getLast?_concat] at present
    rw [← Option.some.inj present]
  · exact (tail_start_spec tree last (specifier_nested tree list nested last member)).2.2.2 list
      ((mem_specifiers_iff list last).mp member).1

-- The region that comes to stand at the end loses the blanks there, and at most its comma.
theorem shown_closes (endsWithComma : Bool) (region : Region) (given : RegionOf tree list region) :
    Closes tree region (tree.closingShown endsWithComma region) := by
  unfold closingShown
  cases found : (if endsWithComma then none else commaAfter? region.specifier) with
  | none =>
      obtain ⟨blanks, whole, blank⟩ := trim_end_parts (tree.regionText region)
      exact ⟨trimEnd (tree.regionText region), [], [], blanks, by simpa using whole, by simp, blank, .inl rfl⟩
  | some comma =>
      have behind : commaAfter? region.specifier = some comma := by
        cases endsWithComma with
        | true => cases found
        | false => exact found
      obtain ⟨boundary, early, _⟩ := region_start_bounds tree list nested region given
      obtain ⟨_, commaNested, after⟩ := comma_ends tree list nested form.toListEdges region.specifier given.member comma behind
      have wide := specifier_wide tree list form region.specifier given.member
      have upper := given.comma comma behind
      have forward := commaNested.ordered
      have front := between_append tree.text region.start comma.start comma.stop boundary commaNested.first commaNested.last
        (by omega) forward
      have whole := between_append tree.text region.start comma.stop region.stop boundary commaNested.last given.boundary
        (by omega) upper
      obtain ⟨blanks, rest, blank⟩ := trim_end_parts (tree.text.between comma.stop region.stop)
      refine ⟨tree.text.between region.start comma.start, tree.text.between comma.start comma.stop,
        trimEnd (tree.text.between comma.stop region.stop), blanks, ?_, rfl, blank, .inr ⟨comma, behind, rfl, rfl⟩⟩
      rw [front, List.append_assoc, ← rest, whole]
      rfl

omit nested form in
theorem body_text_concat (last : Place) (closing : Region) (front : List Region) :
    tree.bodyText last (front ++ [closing]) = front.flatMap (tree.regionText ·) ++ tree.bodyText last [closing] := by
  induction front with
  | nil => rfl
  | cons first rest ih =>
      have shape : tree.bodyText last (first :: rest ++ [closing]) = tree.regionText first ++ tree.bodyText last (rest ++ [closing]) := by
        cases rest <;> rfl
      rw [shape, ih, List.flatMap_cons, List.append_assoc]

theorem body_closes (last : Place) (closing : Region) (given : RegionOf tree list closing) :
    (closing.specifier = last → tree.bodyText last [closing] = tree.regionText closing) ∧
      Closes tree closing (tree.bodyText last [closing]) := by
  rw [bodyText]
  by_cases same : closing.specifier.isAt last = true
  · rw [if_pos same]
    exact ⟨fun _ => rfl, tree.regionText closing, [], [], [], by simp, by simp, rfl, .inl rfl⟩
  · rw [if_neg same]
    refine ⟨fun equal => absurd ?_ same, shown_closes tree list nested form _ closing given⟩
    rw [equal]
    exact (is_at_iff last last rfl).mpr rfl

/-- The regions part the list, and what stays of it is copied region by region, whichever specifiers are taken. -/
theorem list_parts (filled : specifiersOf list ≠ []) : ∃ cuts first, tree.listCuts? (specifiersOf list) = some cuts ∧
    cuts.regions.head? = some first ∧ Parts list cuts ∧ (∀ dead, ∃ answer, tree.renderList dead list = .ok answer) ∧
      ∀ dead, (∃ specifier ∈ specifiersOf list, dead specifier = true) → (∃ specifier ∈ specifiersOf list, dead specifier = false) →
        ∃ kept closing text, (cuts.regions.filter fun region => !dead region.specifier) = kept ++ [closing] ∧
          tree.renderList dead list = .ok (some (tree.text.between list.start first.start ++
            (kept.flatMap (tree.regionText ·) ++ text) ++ tree.text.between cuts.tail list.stop)) ∧
          (cuts.regions.getLast? = some closing → text = tree.regionText closing) ∧ Closes tree closing text := by
  obtain ⟨last, ending⟩ := Option.isSome_iff_exists.mp (List.getLast?_isSome.mpr filled)
  have member := List.mem_of_getLast? ending
  have parts := cuts_part tree list nested form last ending
  have each := regions_of_list tree list nested form.toListEdges last member (specifiersOf list) (List.Sublist.refl _) ending
  obtain ⟨before, regions⟩ := list_regions tree list form last ending
  obtain ⟨firstPlace, head⟩ := Option.isSome_iff_exists.mp (List.isSome_head?.mpr filled)
  obtain ⟨rest, shape⟩ := List.head?_eq_some_iff.mp head
  refine ⟨_, ⟨firstPlace, tree.regionStart firstPlace, _⟩, by rw [listCuts?, ending, Option.map_some], by rw [shape]; rfl, parts,
    fun dead => ?_, fun dead gone stays => ?_⟩
  · rcases render_list_ok tree list nested form.toListEdges dead with ⟨_, done⟩ | ⟨_, done⟩ | ⟨_, _, _, _, _, done⟩
    · exact ⟨_, done⟩
    · exact ⟨_, done⟩
    · exact ⟨_, done⟩
  · rcases render_list_ok tree list nested form.toListEdges dead with ⟨all, _⟩ | ⟨⟨_, all⟩, _⟩ | ⟨_, other, final, head', ending', done⟩
    · obtain ⟨specifier, present, lives⟩ := stays
      exact absurd (all specifier present) (by simp [lives])
    · obtain ⟨specifier, present, dies⟩ := gone
      exact absurd (all specifier present) (by simp [dies])
    · obtain rfl := Option.some.inj (head.symm.trans head')
      obtain rfl := Option.some.inj (ending.symm.trans ending')
      obtain ⟨kept, closing, split⟩ := kept_regions parts.specifiers dead stays
      have present : closing ∈ tree.regionsTo (tree.tailStart last) (specifiersOf list) :=
        (List.mem_filter.mp (split ▸ List.mem_append_right kept List.mem_cons_self)).1
      obtain ⟨whole, closes⟩ := body_closes tree list nested form last closing (each closing present)
      refine ⟨kept, closing, _, split, ?_, fun final => whole ?_, closes⟩
      · rw [done, cutText, split, body_text_concat]
        simp only [List.append_assoc]
      · rw [regions.all, List.getLast?_concat] at final
        rw [← Option.some.inj final]

end Lists

-- A list with comments behind a comma, on a line of their own and in front of a comma, and with a comma behind its last specifier.
def partedSample : SourceTree where
  path := "p.js".toList
  dialect := .javaScript
  text := "import \x7b a, // one\n  // two\n  b /* own */, c, \x7d from \x22m\x22;\n".toList
  root := rule "program" 0 58 [
      rule "import_statement" 0 57 [
        token "import" 0 6,
        rule "import_clause" 7 47 [
          rule "named_imports" 7 47 [
            token "\x7b" 7 8, rule "import_specifier" 9 10 [field "name" (rule "identifier" 9 10 [])], token "," 10 11,
            rule "comment" 12 18 [], rule "comment" 21 27 [],
            rule "import_specifier" 30 31 [field "name" (rule "identifier" 30 31 [])], rule "comment" 32 41 [], token "," 41 42,
            rule "import_specifier" 43 44 [field "name" (rule "identifier" 43 44 [])], token "," 44 45,
            token "\x7d" 46 47]],
        token "from" 48 52,
        field "source" (rule "string" 53 56 [token "\x22" 53 54, rule "string_fragment" 54 55 [], token "\x22" 55 56]),
        token ";" 56 57]]

theorem sample_parts : ∃ list ∈ partedSample.find "named_imports", list.InNested partedSample.text ∧ partedSample.BracedList list ∧
    specifiersOf list ≠ [] ∧ ∃ cuts first, partedSample.listCuts? (specifiersOf list) = some cuts ∧ cuts.regions.head? = some first ∧
      Parts list cuts ∧ partedSample.text.between list.start first.start = "\x7b ".toList ∧
      cuts.regions.map partedSample.regionText =
        ["a, // one\n".toList, "  // two\n  b /* own */, ".toList, "c,".toList] := by
  have given : (partedSample.find "named_imports").any (fun list => decide (partedSample.BracedList list) &&
      !(specifiersOf list).isEmpty && (partedSample.listCuts? (specifiersOf list)).any fun cuts =>
        cuts.regions.head?.any (fun first => partedSample.text.between list.start first.start == "\x7b ".toList) &&
        cuts.regions.map partedSample.regionText ==
          ["a, // one\n".toList, "  // two\n  b /* own */, ".toList, "c,".toList]) = true := by decide +kernel
  have valid : partedSample.WellFormed := by decide +kernel
  obtain ⟨list, found, given⟩ := List.any_eq_true.mp given
  simp only [Bool.and_eq_true, decide_eq_true_eq] at given
  obtain ⟨⟨form, some⟩, given⟩ := given
  have nested := in_nested partedSample list valid ((mem_find_iff partedSample list _).mp found).1
  have filled : specifiersOf list ≠ [] := by simpa using some
  obtain ⟨cuts, first, made, head, parts, _⟩ := list_parts partedSample list nested form filled
  rw [made, Option.any_some, Bool.and_eq_true, head, Option.any_some, beq_iff_eq, beq_iff_eq] at given
  exact ⟨list, found, nested, form, filled, cuts, first, made, head, parts, given.1, given.2⟩

end SourceTree

end ScriptTidy
