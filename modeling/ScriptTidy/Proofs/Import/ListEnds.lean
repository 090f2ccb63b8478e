import ScriptTidy.Proofs.Import.ListText
import ScriptTidy.Proofs.Import.RegionTokens

/-! The tokens at both ends of a braced list, and those of the region that comes to stand at its end. -/

set_option autoImplicit false

namespace ScriptTidy.SourceTree

open Text Place Edits Lexing

-- Holds if the region that becomes the last one keeps its comma.
def keepsComma (endsWithComma : Bool) (specifier : Place) : Bool := endsWithComma || (commaAfter? specifier).isNone

def commaTokens (present : Bool) : List Text := if present then [[',']] else []

-- The end of a list, with or without a comma in front of the brace.
def closingTokens (trailing : Bool) : List Text := commaTokens trailing ++ [['\x7d']]

section Ends

variable (tree : SourceTree) (list : Place) (nested : list.InNested tree.text) (form : tree.ListForm list)

include nested form

theorem cut_before_comma (comma : Node) (listed : comma ∈ list.node.children) (kind : comma.kind = ",") (start : Nat)
    (cut : tree.IsCut list start) (ordered : start ≤ comma.start) :
    ending .free (tree.text.between start comma.start) = .free ∨
      ∃ letters, ending .free (tree.text.between start comma.start) = .word letters := by
  have own := list_child_nested tree list nested comma listed
  have commaCut := cut_child tree list nested comma listed comma.start (.inl rfl)
  rcases (tokens_between_cuts tree list nested form start _ cut commaCut ordered).2 with free | ⟨child, present, _, stop, same⟩
  · exact .inl free
  · have settled := (form.children child present).2.2.2
    have shape := form.marks comma listed (by rw [kind]; decide)
    rw [text_of_nested tree comma own, kind] at shape
    rw [stop, ← between_append_after tree.text comma.start comma.stop own.first own.last own.ordered, shape] at settled
    rcases settled_plain _ ',' (by decide) (by simpa using settled) with free | ⟨letters, word, _⟩
    · exact .inl (by rw [same, free])
    · exact .inr ⟨letters, by rw [same, word]⟩

-- The text of a region that becomes the last one has its tokens, and no comment or string is left open but a line comment.
theorem closing_tokens (endsWithComma : Bool) (specifier next : Place) (comma : Node) (more : List Node)
    (beside : Neighbours list specifier next comma more) :
    let closing := tree.closingShown endsWithComma ⟨specifier, tree.regionStart specifier, tree.regionStart next⟩
    tokens closing = tree.nodeTokens specifier.node ++ commaTokens (keepsComma endsWithComma specifier) ∧
      (ending .free closing).inside = false ∧ ending .free closing ≠ .slash := by
  unfold closingShown
  cases found : (if endsWithComma then none else commaAfter? specifier) with
  | none =>
      obtain ⟨made, free⟩ := region_tokens tree list nested form specifier next comma more beside
      have keeps : keepsComma endsWithComma specifier = true := by
        cases endsWithComma with
        | true => rfl
        | false =>
            have absent : commaAfter? specifier = none := found
            simp [keepsComma, absent]
      obtain ⟨same, outside⟩ := trimmed_tokens _ free
      rw [made] at same
      simp only [regionText, keeps, commaTokens, if_true]
      refine ⟨same, outside, not_slash_of_tokens _ fun token last => ?_⟩
      rw [same, List.getLast?_concat] at last
      obtain rfl := Option.some.inj last
      decide
  | some other =>
      have absent : endsWithComma = false := by
        cases endsWithComma with
        | true => cases found
        | false => rfl
      subst absent
      have right : commaAfter? specifier = some other := found
      have equal : other = comma := by
        obtain ⟨rest, shape, isComma⟩ := comma_after_some specifier other right
        have behind := beside.behind
        rw [shape, solids_cons other rest (comma_solid other isComma)] at behind
        exact (List.cons.inj behind).1
      subst equal
      have order := region_order tree list nested form specifier next other more beside
      have lower : tree.regionStart specifier ≤ other.start :=
        Nat.le_trans order.start (Nat.le_trans (Nat.le_of_lt order.size) order.behind)
      have cut := (cut_region tree list nested form specifier beside.member).1
      have stands := cut_before_comma tree list nested form other order.listed beside.kind _ cut lower
      obtain ⟨quiet, restFree⟩ := region_rest tree list nested form specifier next other more beside
      obtain ⟨same, outside⟩ := trimmed_tokens _ restFree
      rw [quiet] at same
      obtain ⟨joined, inner, plain⟩ := quiet_append _ _ stands same outside
      refine ⟨?_, inner, plain⟩
      have front := specifier_tokens tree list nested form specifier next other more beside
      simp [joined, front, keepsComma, right, commaTokens]

-- Behind the tail stand the nodes behind the last specifier, but its comma.
theorem tail_solids (last : Place) (member : last ∈ specifiersOf list) : tree.IsCut list (tree.tailStart last) ∧
    solids last.after = (commaAfter? last).toList ++ solidsIn list (tree.tailStart last) list.stop := by
  have own := specifier_nested tree list nested last member
  have apart := siblings_apart tree.text last own
  have behind := (tail_start_spec tree last own).2.1
  obtain ⟨front, rest, shape, comma, same⟩ := tail_start_cases tree last
  have order : (last.node :: last.after).Pairwise fun first second => first.stop ≤ second.start :=
    List.pairwise_cons.mpr ⟨apart.2.1, apart.2.2.2⟩
  obtain ⟨others, final, split⟩ : ∃ others final, last.node :: front = others ++ [final] := by
    rcases List.eq_nil_or_concat (last.node :: front) with none | ⟨others, final, concat⟩
    · cases none
    · exact ⟨others, final, by rw [concat, List.concat_eq_append]⟩
  have ending : front.getLast?.getD last.node = final := by
    have both := List.getLast?_cons (a := last.node) (l := front)
    rw [split, List.getLast?_concat] at both
    exact (Option.some.inj both).symm
  rw [ending] at same
  rw [shape, ← List.cons_append, split] at order
  obtain ⟨left, _, across⟩ := List.pairwise_append.mp order
  have listed (node : Node) (present : node ∈ last.node :: last.after) : node ∈ list.node.children :=
    node_in_list list last member node (.inr (List.mem_cons.mp present))
  have finalListed := listed final (by rw [shape, ← List.cons_append, split]; simp)
  have forward := (list_child_nested tree list nested final finalListed).ordered
  have early (node : Node) (present : node ∈ front) : node.stop ≤ tree.tailStart last := by
    have inside : node ∈ others ++ [final] := split ▸ List.mem_cons_of_mem last.node present
    rw [same]
    rcases List.mem_append.mp inside with other | equal
    · exact Nat.le_trans ((List.pairwise_append.mp left).2.2 node other final List.mem_cons_self) forward
    · rw [List.mem_singleton.mp equal]
  refine ⟨same ▸ cut_child tree list nested final finalListed final.stop (.inr rfl), ?_⟩
  have none : (solids front).filter (fun node => decide (tree.tailStart last ≤ node.start) && decide (node.stop ≤ list.stop)) = [] := by
    refine List.filter_eq_nil_iff.mpr fun node present => ?_
    have inFront := ((mem_solids_iff node _).mp present).1
    have bound := early node inFront
    have size := (form.children node (listed node (by simp [shape, inFront]))).1
    simp only [Bool.and_eq_true, decide_eq_true_eq]
    omega
  have all : (solids rest).filter (fun node => decide (tree.tailStart last ≤ node.start) && decide (node.stop ≤ list.stop)) =
      solids rest := by
    refine List.filter_eq_self.mpr fun node present => ?_
    have inRest := ((mem_solids_iff node _).mp present).1
    have bound := across final (by simp) node inRest
    have inside := ((node_nested tree.text list nested).inside node (listed node (by simp [shape, inRest]))).2
    simp only [Bool.and_eq_true, decide_eq_true_eq]
    exact ⟨by omega, inside⟩
  have whole : solids last.after = solids front ++ solids rest := by
    rw [shape]
    exact List.filter_append _ _
  rw [solids_behind tree list nested form last member _ _ behind, whole, List.filter_append, none, all, comma, List.nil_append]

omit nested in
theorem items_listed (last : Place) (ending : (specifiersOf list).getLast? = some last) : last ∈ specifiersOf list ∧
    ∃ trailing, ((solids last.after).map tree.nodeTokens).flatten = closingTokens trailing ∧
      ∀ node ∈ solids last.after, tree.nodeTokens node = [[',']] ∨ tree.nodeTokens node = [['\x7d']] := by
  have member := List.mem_of_getLast? ending
  obtain ⟨_, _, _, _, items⟩ := list_items list form.kinds
  have tokensOf (node : Node) (present : node ∈ solids last.after) (kind : node.kind = "," ∨ node.kind = "\x7d") :
      tree.nodeTokens node = [node.kind.toList] :=
    (mark_tokens tree list form node (solid_listed list last member node present).1 (.inr kind.symm)).1
  obtain ⟨close, brace, alone | ⟨comma, kind, pair⟩⟩ := items_last _ _ items last ending
  · have closeTokens := tokensOf close (by simp [alone]) (.inr brace)
    rw [brace] at closeTokens
    refine ⟨member, false, by simp [alone, closeTokens, closingTokens, commaTokens], fun node present => ?_⟩
    rw [alone] at present
    rw [List.mem_singleton.mp present]
    exact .inr closeTokens
  · have closeTokens := tokensOf close (by simp [pair]) (.inr brace)
    have commaTokens := tokensOf comma (by simp [pair]) (.inl kind)
    rw [brace] at closeTokens
    rw [kind] at commaTokens
    refine ⟨member, true, by simp [pair, closeTokens, commaTokens, closingTokens, SourceTree.commaTokens], fun node present => ?_⟩
    rw [pair] at present
    rcases List.mem_cons.mp present with rfl | final
    · exact .inl commaTokens
    · rw [List.mem_singleton.mp final]
      exact .inr closeTokens

-- From the last specifier on, a list has the tokens of that specifier and those that end the list.
theorem last_tokens (last : Place) (ending : (specifiersOf list).getLast? = some last) : ∃ trailing,
    tokens (tree.text.between (tree.regionStart last) list.stop) = tree.nodeTokens last.node ++ closingTokens trailing := by
  obtain ⟨member, trailing, made, _⟩ := items_listed tree list form last ending
  have region := (cut_region tree list nested form last member).1
  refine ⟨trailing, ?_⟩
  have all : (last.node :: solids last.after).filter (fun node => decide (node.stop ≤ list.stop)) = last.node :: solids last.after := by
    refine List.filter_eq_self.mpr fun node present => ?_
    have listed : node ∈ list.node.children := by
      rcases List.mem_cons.mp present with rfl | later
      · exact node_in_list list last member _ (.inr (.inl rfl))
      · exact (solid_listed list last member node later).1
    exact decide_eq_true ((node_nested tree.text list nested).inside node listed).2
  rw [(tokens_between_cuts tree list nested form _ _ region (cut_stop tree list nested) region.last).1,
    solids_region tree list nested form last member, all, List.map_cons, List.flatten_cons, made]

-- The tail of a list has no other tokens than marks.
theorem tail_marks (last : Place) (ending : (specifiersOf list).getLast? = some last) :
    ∀ token ∈ tokens (tree.text.between (tree.tailStart last) list.stop), ∃ mark, token = [mark] ∧ isMark mark = true := by
  obtain ⟨member, _, _, each⟩ := items_listed tree list form last ending
  obtain ⟨cut, shape⟩ := tail_solids tree list nested form last member
  rw [(tokens_between_cuts tree list nested form _ _ cut (cut_stop tree list nested) cut.last).1]
  intro token present
  obtain ⟨made, listed, inside⟩ := List.mem_flatten.mp present
  obtain ⟨node, mapped, rfl⟩ := List.mem_map.mp listed
  have behind : node ∈ solids last.after := by
    rw [shape]
    exact List.mem_append_right _ mapped
  rcases each node behind with comma | brace
  · rw [comma] at inside
    exact ⟨',', List.mem_singleton.mp inside, rfl⟩
  · rw [brace] at inside
    exact ⟨'\x7d', List.mem_singleton.mp inside, rfl⟩

-- In front of its first region a list has its brace.
theorem front_solids (first : Place) (head : (specifiersOf list).head? = some first) : ∃ brace ∈ list.node.children,
    brace.kind = "\x7b" ∧ solidsIn list list.start (tree.regionStart first) = [brace] := by
  have member := List.mem_of_mem_head? head
  have own := node_nested tree.text list nested
  obtain ⟨brace, nodes, shape, kind, items⟩ := list_items list form.kinds
  obtain ⟨rest, given⟩ : ∃ rest, specifiersOf list = first :: rest := List.head?_eq_some_iff.mp head
  rw [given] at items
  rw [items_head first rest nodes items] at shape
  have listed := (mem_solids_iff brace list.node.children).mp (by rw [shape]; exact List.mem_cons_self)
  have order : (solids list.node.children).Pairwise fun first second => first.stop ≤ second.start :=
    own.apart.sublist List.filter_sublist
  rw [shape] at order
  have before := (List.pairwise_cons.mp order).1 first.node List.mem_cons_self
  have bound := solid_le_region tree list nested form first member brace listed.1 listed.2 before
  have none : (first.node :: solids first.after).filter (fun node =>
      decide (list.start ≤ node.start) && decide (node.stop ≤ tree.regionStart first)) = [] := by
    refine List.filter_eq_nil_iff.mpr fun node present => ?_
    have past := region_past tree list nested form first member node present
    simp only [Bool.and_eq_true, decide_eq_true_eq]
    omega
  refine ⟨brace, listed.1, kind, ?_⟩
  rw [solidsIn, shape, List.filter_cons_of_pos, none]
  simp only [Bool.and_eq_true, decide_eq_true_eq]
  exact ⟨(own.inside brace listed.1).1, bound⟩

theorem front_tokens (first : Place) (head : (specifiersOf list).head? = some first) :
    tokens (tree.text.between list.start (tree.regionStart first)) = [['\x7b']] ∧
      ending .free (tree.text.between list.start (tree.regionStart first)) = .free := by
  have member := List.mem_of_mem_head? head
  obtain ⟨brace, listed, kind, alone⟩ := front_solids tree list nested form first head
  have region := (cut_region tree list nested form first member).1
  have cut := cut_start tree list nested
  constructor
  · have mark := (mark_tokens tree list form brace listed (.inl kind)).1
    rw [(tokens_between_cuts tree list nested form _ _ cut region region.first).1, alone]
    simp [mark, kind]
  · refine region_free tree list nested form first member _ cut region.first fun node present _ => ?_
    rw [alone] at present
    rw [List.mem_singleton.mp present]
    exact .inl kind

end Ends

end ScriptTidy.SourceTree
