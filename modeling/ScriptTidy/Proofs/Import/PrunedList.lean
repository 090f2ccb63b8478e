import ScriptTidy.Proofs.Import.ListEnds

/-! The tokens of a braced list from which specifiers are taken. -/

set_option autoImplicit false

namespace ScriptTidy.SourceTree

open Text Place Edits Lexing

-- A list of some specifiers: a comma between neighbours, and perhaps one behind the last.
def listTokens (tree : SourceTree) (specifiers : List Place) (trailing : Bool) : List Text :=
  ['\x7b'] :: ((List.intersperse [[',']] (specifiers.map fun specifier => tree.nodeTokens specifier.node)).flatten ++
    closingTokens trailing)

def keptIn (dead : Place → Bool) (list : Place) : List Place := (specifiersOf list).filter fun specifier => !dead specifier

-- If the last specifier goes, the text of the last one that stays meets the tail of the list. The brace must not come to
-- stand in a line comment there, nor a second comma in front of it.
def CleanSeam (tree : SourceTree) (dead : Place → Bool) (list : Place) : Prop :=
  ∀ last ∈ (specifiersOf list).getLast?, dead last = true →
    ∀ region ∈ ((tree.regionsTo (tree.tailStart last) (specifiersOf list)).filter fun region => !dead region.specifier).getLast?,
      let rest := tokens (seam (tree.closingShown (commaAfter? last).isSome region) (tree.text.between (tree.tailStart last) list.stop))
      rest = closingTokens false ∨ rest = closingTokens true ∧ keepsComma (commaAfter? last).isSome region.specifier = false

instance (tree : SourceTree) (dead : Place → Bool) (list : Place) : Decidable (tree.CleanSeam dead list) := by
  unfold CleanSeam
  infer_instance

theorem separated_concat {α : Type} (comma : List α) (last : List α) (front : List (List α)) :
    (List.intersperse comma (front ++ [last])).flatten = (front.flatMap fun item => item ++ comma) ++ last := by
  induction front with
  | nil => simp
  | cons first rest ih =>
      cases rest with
      | nil => simp
      | cons second more =>
          rw [List.cons_append, List.cons_append, List.intersperse_cons_cons, ← List.cons_append, List.flatten_cons, List.flatten_cons, ih]
          simp

theorem closing_iff (keeps : Bool) (rest : List Text) : (∃ trailing, commaTokens keeps ++ rest = closingTokens trailing) ↔
    rest = closingTokens false ∨ rest = closingTokens true ∧ keeps = false := by
  constructor
  · rintro ⟨trailing, same⟩
    cases keeps with
    | false =>
        cases trailing with
        | false => exact .inl same
        | true => exact .inr ⟨same, rfl⟩
    | true =>
        cases trailing with
        | false => cases same
        | true => exact .inl (List.cons.inj same).2
  · rintro (rfl | ⟨rfl, rfl⟩)
    · exact ⟨keeps, rfl⟩
    · exact ⟨true, rfl⟩

-- The regions of a list: each but the last one ends where that of the next specifier begins.
structure Regions (tree : SourceTree) (list : Place) (tail : Nat) (places : List Place) (last : Place) (before : List Region) : Prop where
  all : tree.regionsTo tail places = before ++ [⟨last, tree.regionStart last, tail⟩]
  specifiers : places = before.map (·.specifier) ++ [last]
  beside : ∀ region ∈ before, ∃ next comma more, Neighbours list region.specifier next comma more ∧
    region = ⟨region.specifier, tree.regionStart region.specifier, tree.regionStart next⟩

theorem regions_of_items (tree : SourceTree) (list : Place) (tail : Nat) (places : List Place) (nodes : List Node)
    (items : Items places nodes) : (∀ place ∈ places, place ∈ specifiersOf list) → ∀ last ∈ places.getLast?, ∃ before,
      Regions tree list tail places last before := by
  induction items with
  | none close kind => exact fun _ _ none => by cases none
  | last place close kind behind =>
      intro _ last ending
      obtain rfl := Option.some.inj ending
      exact ⟨[], rfl, rfl, fun _ member => absurd member List.not_mem_nil⟩
  | next place comma rest nodes kind behind more ih =>
      intro fewer last ending
      cases rest with
      | nil =>
          obtain rfl := Option.some.inj ending
          exact ⟨[], rfl, rfl, fun _ member => absurd member List.not_mem_nil⟩
      | cons other others =>
          obtain ⟨before, regions, specifiers, each⟩ := ih (fun specifier member => fewer specifier (List.mem_cons_of_mem place member)) last
            (by simpa using ending)
          refine ⟨⟨place, tree.regionStart place, tree.regionStart other⟩ :: before, ?_, ?_, fun region member => ?_⟩
          · rw [regionsTo, regions]
            rfl
          · rw [List.map_cons, List.cons_append, ← specifiers]
          · rcases List.mem_cons.mp member with rfl | later
            · rw [items_head other others nodes more] at behind
              have members := fewer other (List.mem_cons_of_mem place List.mem_cons_self)
              exact ⟨other, comma, _, ⟨fewer place List.mem_cons_self, members, behind, kind⟩, rfl⟩
            · exact each region later

-- The regions in front of the last one each add their tokens.
theorem body_tokens (tree : SourceTree) (last : Place) (tail : Text) (final : Region) (front : List Region)
    (each : ∀ region ∈ front, tokens (tree.regionText region) = tree.nodeTokens region.specifier.node ++ [[',']] ∧
      ending .free (tree.regionText region) = .free) :
    tokens (tree.bodyText last (front ++ [final]) ++ tail) =
      ((front.map fun region => tree.nodeTokens region.specifier.node).flatMap fun item => item ++ [[',']]) ++
        tokens (tree.bodyText last [final] ++ tail) := by
  induction front with
  | nil => rfl
  | cons first rest ih =>
      obtain ⟨made, free⟩ := each first List.mem_cons_self
      have later := ih fun region member => each region (List.mem_cons_of_mem first member)
      have shape : tree.bodyText last (first :: rest ++ [final]) = tree.regionText first ++ tree.bodyText last (rest ++ [final]) := by
        cases rest <;> rfl
      rw [shape, List.append_assoc, free_append _ _ free, later, made, List.map_cons, List.flatMap_cons, List.append_assoc,
        List.append_assoc, List.append_assoc]

theorem items_tokens (tree : SourceTree) (places : List Place) (nodes : List Node) (items : Items places nodes) :
    (∀ node ∈ nodes, node.kind = "\x7d" ∨ node.kind = "," → tree.nodeTokens node = [node.kind.toList]) → ∃ trailing,
      (nodes.map tree.nodeTokens).flatten =
        (List.intersperse [[',']] (places.map fun place => tree.nodeTokens place.node)).flatten ++ closingTokens trailing := by
  induction items with
  | none close kind =>
      intro marks
      have mark := marks close List.mem_cons_self (.inl kind)
      exact ⟨false, by simp [mark, kind, closingTokens, commaTokens]⟩
  | last place close kind behind =>
      intro marks
      have mark := marks close (by simp) (.inl kind)
      exact ⟨false, by simp [mark, kind, closingTokens, commaTokens]⟩
  | next place comma rest nodes kind behind more ih =>
      intro marks
      have mark := marks comma (by simp) (.inr kind)
      obtain ⟨trailing, made⟩ := ih fun node member => marks node (by simp [member])
      cases rest with
      | nil =>
          cases more with
          | none close brace =>
              have final := marks close (by simp) (.inl brace)
              exact ⟨true, by simp [mark, final, kind, brace, closingTokens, commaTokens]⟩
      | cons other others => exact ⟨trailing, by simp [mark, made, kind]⟩

section Lists

variable (tree : SourceTree) (list : Place) (nested : list.InNested tree.text) (form : tree.ListForm list)

include nested form

theorem whole_list_tokens : ∃ trailing, tokens (tree.textOf list.node) = tree.listTokens (specifiersOf list) trailing := by
  have own := node_nested tree.text list nested
  obtain ⟨brace, nodes, shape, kind, items⟩ := list_items list form.kinds
  have mark (node : Node) (member : node ∈ brace :: nodes)
      (sign : node.kind = "\x7b" ∨ node.kind = "\x7d" ∨ node.kind = ",") : tree.nodeTokens node = [node.kind.toList] := by
    rw [← shape] at member
    exact (mark_tokens tree list form node ((mem_solids_iff node _).mp member).1 sign).1
  obtain ⟨trailing, made⟩ := items_tokens tree _ nodes items fun node member sign =>
    mark node (List.mem_cons_of_mem brace member) (.inr sign)
  refine ⟨trailing, ?_⟩
  have all : solidsIn list list.start list.stop = brace :: nodes := by
    rw [solidsIn, shape, List.filter_eq_self]
    intro node member
    rw [← shape] at member
    have inside := own.inside node ((mem_solids_iff node _).mp member).1
    simp only [Bool.and_eq_true, decide_eq_true_eq]
    exact inside
  rw [text_of_nested tree list.node own, listTokens]
  have cut := (tokens_between_cuts tree list nested form _ _ (cut_start tree list nested) (cut_stop tree list nested) own.ordered).1
  refine cut.trans ?_
  rw [all, List.map_cons, List.flatten_cons, mark brace List.mem_cons_self (.inl kind), made, kind]
  rfl

omit nested in
theorem beside_not_last (last : Place) (ending : (specifiersOf list).getLast? = some last) (specifier next : Place) (comma : Node)
    (more : List Node) (beside : Neighbours list specifier next comma more) : specifier.isAt last = false := by
  obtain ⟨_, _, _, _, items⟩ := list_items list form.kinds
  obtain ⟨close, brace, around⟩ := items_last _ _ items last ending
  have root := (parent_root specifier list ((mem_specifiers_iff list _).mp beside.member).1).symm.trans
    (parent_root last list ((mem_specifiers_iff list last).mp (List.mem_of_getLast? ending)).1)
  have kind : next.node.kind = "import_specifier" := ((mem_specifiers_iff list next).mp beside.later).2
  cases same : specifier.isAt last with
  | false => rfl
  | true =>
      have behind := beside.behind
      rw [(is_at_iff specifier last root).mp same] at behind
      rcases around with alone | ⟨other, _, pair⟩
      · rw [alone] at behind
        cases behind
      · rw [pair] at behind
        obtain ⟨_, deeper⟩ := List.cons.inj behind
        rw [(List.cons.inj deeper).1, kind] at brace
        exact absurd brace (by decide)

section Seams

variable (dead : Place → Bool) (last : Place) (lastSome : (specifiersOf list).getLast? = some last) (before : List Region)
  (regions : Regions tree list (tree.tailStart last) (specifiersOf list) last before)

include lastSome

-- The text that a list ends with if its last specifier stays.
theorem tail_tokens : ∃ trailing, tokens (tree.bodyText last [⟨last, tree.regionStart last, tree.tailStart last⟩] ++
    tree.text.between (tree.tailStart last) list.stop) = tree.nodeTokens last.node ++ closingTokens trailing := by
  have member := List.mem_of_getLast? lastSome
  obtain ⟨trailing, made⟩ := last_tokens tree list nested form last lastSome
  have cut := (cut_region tree list nested form last member).1
  have tail := (tail_solids tree list nested form last member).1
  have bounds := specifier_bounds tree list nested form last member
  have behind := (tail_start_spec tree last (specifier_nested tree list nested last member)).2.1
  have whole := between_append tree.text (tree.regionStart last) (tree.tailStart last) list.stop cut.boundary tail.boundary
    (cut_stop tree list nested).boundary (by omega) tail.last
  refine ⟨trailing, ?_⟩
  rw [← made, ← whole]
  simp [bodyText, isAt, regionText]

include regions

-- The text that a list ends with if its last specifier goes.
theorem seam_tokens (region : Region) (member : region ∈ before) :
    tokens (tree.bodyText last [region] ++ tree.text.between (tree.tailStart last) list.stop) =
      tree.nodeTokens region.specifier.node ++ (commaTokens (keepsComma (commaAfter? last).isSome region.specifier) ++
        tokens (seam (tree.closingShown (commaAfter? last).isSome region) (tree.text.between (tree.tailStart last) list.stop))) := by
  obtain ⟨next, comma, more, beside, shape⟩ := regions.beside region member
  obtain ⟨made, outside, plain⟩ := closing_tokens tree list nested form (commaAfter? last).isSome region.specifier next comma more beside
  rw [← shape] at made outside plain
  have marks := tail_marks tree list nested form last lastSome
  rw [bodyText, beside_not_last tree list form last lastSome region.specifier next comma more beside, if_neg Bool.false_ne_true,
    tokens_seam _ _ outside plain fun token first => marks token (List.mem_of_mem_head? first), made, List.append_assoc]

omit lastSome in
-- The tokens of the regions that stay, given those of the one that becomes the last.
theorem kept_tokens (front : List Region) (final : Region)
    (shape : (tree.regionsTo (tree.tailStart last) (specifiersOf list)).filter (fun region => !dead region.specifier) = front ++ [final])
    (inside : ∀ region ∈ front, region ∈ before) (rest : List Text)
    (ends : tokens (tree.bodyText last [final] ++ tree.text.between (tree.tailStart last) list.stop) =
      tree.nodeTokens final.specifier.node ++ rest) :
    tokens (tree.bodyText last (front ++ [final]) ++ tree.text.between (tree.tailStart last) list.stop) =
      (List.intersperse [[',']] ((keptIn dead list).map fun specifier => tree.nodeTokens specifier.node)).flatten ++ rest := by
  have each (region : Region) (member : region ∈ front) : tokens (tree.regionText region) =
      tree.nodeTokens region.specifier.node ++ [[',']] ∧ ending .free (tree.regionText region) = .free := by
    obtain ⟨next, comma, more, beside, given⟩ := regions.beside region (inside region member)
    rw [regionText, given]
    exact region_tokens tree list nested form region.specifier next comma more beside
  have specifiers : specifiersOf list = (tree.regionsTo (tree.tailStart last) (specifiersOf list)).map (·.specifier) := by
    rw [regions.all, List.map_append]
    exact regions.specifiers
  have kept : keptIn dead list = (front ++ [final]).map (·.specifier) := by
    rw [← shape]
    exact (congrArg (List.filter _) specifiers).trans List.filter_map
  rw [body_tokens tree last _ final front each, ends, kept, List.map_map, List.map_append, List.map_cons, List.map_nil,
    separated_concat]
  simp [Function.comp_def]

-- If the last specifier goes, the list is whole as far as its seam is clean.
theorem dead_last_tokens (gone : dead last = true) (front : List Region) (final : Region)
    (shape : (tree.regionsTo (tree.tailStart last) (specifiersOf list)).filter (fun region => !dead region.specifier) = front ++ [final]) :
    (∃ trailing, tokens (tree.bodyText last (front ++ [final]) ++ tree.text.between (tree.tailStart last) list.stop) =
      (List.intersperse [[',']] ((keptIn dead list).map fun specifier => tree.nodeTokens specifier.node)).flatten ++
        closingTokens trailing) ↔ tree.CleanSeam dead list := by
  have inside (region : Region) (member : region ∈ front ++ [final]) : region ∈ before := by
    rw [regions.all, List.filter_append, List.filter_cons_of_neg (by simp [gone]), List.filter_nil, List.append_nil] at shape
    rw [← shape] at member
    exact (List.mem_filter.mp member).1
  have ends := seam_tokens tree list nested form last lastSome before regions final (inside final (by simp))
  rw [kept_tokens tree list nested form dead last before regions front final shape
    (fun region member => inside region (List.mem_append_left _ member)) _ ends]
  simp only [List.append_cancel_left_eq, closing_iff]
  constructor
  · intro clean other same _ region present
    obtain rfl : last = other := Option.some.inj (lastSome.symm.trans same)
    rw [shape, List.getLast?_concat] at present
    obtain rfl := Option.some.inj present
    exact clean
  · exact fun clean => clean last lastSome gone final (by rw [shape, List.getLast?_concat]; rfl)

-- If the last specifier stays, the list is whole.
theorem kept_last_tokens (stays : dead last = false) (front : List Region) (final : Region)
    (shape : (tree.regionsTo (tree.tailStart last) (specifiersOf list)).filter (fun region => !dead region.specifier) = front ++ [final]) :
    ∃ trailing, tokens (tree.bodyText last (front ++ [final]) ++ tree.text.between (tree.tailStart last) list.stop) =
      (List.intersperse [[',']] ((keptIn dead list).map fun specifier => tree.nodeTokens specifier.node)).flatten ++
        closingTokens trailing := by
  have parts := shape
  rw [regions.all, List.filter_append, List.filter_cons_of_pos (by simp [stays]), List.filter_nil] at parts
  obtain ⟨same, equal⟩ := List.append_inj' parts rfl
  obtain rfl := (List.cons.inj equal).1
  obtain ⟨trailing, ends⟩ := tail_tokens tree list nested form last lastSome
  refine ⟨trailing, kept_tokens tree list nested form dead last before regions front _ shape (fun region member => ?_) _ ends⟩
  rw [← same] at member
  exact (List.mem_filter.mp member).1

end Seams

theorem cut_list_tokens (dead : Place → Bool) (first last : Place) (head : (specifiersOf list).head? = some first)
    (lastSome : (specifiersOf list).getLast? = some last) (stays : ∃ specifier ∈ specifiersOf list, dead specifier = false) :
    (∃ trailing, tokens (tree.cutText dead list first last) = tree.listTokens (keptIn dead list) trailing) ↔ tree.CleanSeam dead list := by
  obtain ⟨brace, nodes, _, _, items⟩ := list_items list form.kinds
  obtain ⟨before, regions⟩ := regions_of_items tree list (tree.tailStart last) _ nodes items (fun _ member => member) last lastSome
  obtain ⟨front, free⟩ := front_tokens tree list nested form first head
  obtain ⟨others, final, shape⟩ : ∃ others final, (tree.regionsTo (tree.tailStart last) (specifiersOf list)).filter
      (fun region => !dead region.specifier) = others ++ [final] := by
    rcases List.eq_nil_or_concat ((tree.regionsTo (tree.tailStart last) (specifiersOf list)).filter
      fun region => !dead region.specifier) with none | ⟨others, final, shape⟩
    · obtain ⟨specifier, present, lives⟩ := stays
      rw [regions.specifiers, List.mem_append, List.mem_singleton, List.mem_map] at present
      rw [regions.all, List.filter_eq_nil_iff] at none
      rcases present with ⟨region, member, rfl⟩ | rfl
      · exact absurd lives (by simpa using none region (List.mem_append_left _ member))
      · exact absurd lives (by simpa using none _ (List.mem_append_right _ List.mem_cons_self))
    · exact ⟨others, final, by rw [shape, List.concat_eq_append]⟩
  have whole (trailing : Bool) : tokens (tree.cutText dead list first last) = tree.listTokens (keptIn dead list) trailing ↔
      tokens (tree.bodyText last (others ++ [final]) ++ tree.text.between (tree.tailStart last) list.stop) =
        (List.intersperse [[',']] ((keptIn dead list).map fun specifier => tree.nodeTokens specifier.node)).flatten ++
          closingTokens trailing := by
    rw [cutText, free_append _ _ free, front, shape, listTokens, List.singleton_append, List.cons.injEq]
    exact and_iff_right rfl
  simp only [whole]
  by_cases gone : dead last = true
  · exact dead_last_tokens tree list nested form dead last lastSome before regions gone others final shape
  · have clean : tree.CleanSeam dead list := fun other same dies => by
      obtain rfl : last = other := Option.some.inj (lastSome.symm.trans same)
      exact absurd dies gone
    exact iff_of_true (kept_last_tokens tree list nested form dead last lastSome before regions (by simpa using gone) others final shape) clean

-- A list without its dead specifiers: none if all are dead, and else the others, if the seam is clean.
theorem pruned_list_tokens (dead : Place → Bool) :
    (∀ specifier ∈ specifiersOf list, dead specifier = true) ∧ tree.renderList dead list = .ok none ∨
      (∃ specifier ∈ specifiersOf list, dead specifier = false) ∧ ∃ text, tree.renderList dead list = .ok (some text) ∧
        ((∃ trailing, tokens text = tree.listTokens (keptIn dead list) trailing) ↔ tree.CleanSeam dead list) := by
  rcases render_list_ok tree list nested form.toListEdges dead with none | ⟨⟨some, all⟩, done⟩ | ⟨⟨_, some⟩, first, last, head, ending, done⟩
  · exact .inl none
  · refine .inr ⟨some, _, done, iff_of_true ?_ ?_⟩
    · have same : keptIn dead list = specifiersOf list :=
        List.filter_eq_self.mpr fun specifier member => by simp [all specifier member]
      rw [same]
      exact whole_list_tokens tree list nested form
    · intro last ending gone
      rw [all last (List.mem_of_getLast? ending)] at gone
      cases gone
  · exact .inr ⟨some, _, done, cut_list_tokens tree list nested form dead first last head ending some⟩

end Lists

end ScriptTidy.SourceTree
