import ScriptTidy.Proofs.Edit.InPlace
import ScriptTidy.Proofs.Transform.Outermost
import ScriptTidy.Proofs.Transform.Untouched

/-! Turning `var` into `let` moves nothing: the text changes in the keywords, and each node stays where it is. -/

set_option autoImplicit false

namespace ScriptTidy

open Text Place Edit Edits

namespace Place

-- The keyword of a declaration, or the one that a loop head has for its kind.
def Introduces (place : Place) : Prop :=
  place.kind = "var" ∧ ∃ parent, place.parent? = some parent ∧ (parent.kind = "variable_declaration" ∨
    parent.kind = "for_in_statement" ∧ parent.childByField? "kind" = some place)

theorem is_var_keyword_iff (place : Place) : place.isVarKeyword = true ↔ place.Introduces := by
  have field := is_field_iff place "kind"
  unfold isVarKeyword Introduces
  cases above : place.parent? with
  | none => simp
  | some parent =>
      rw [above] at field
      simp [field]

end Place

namespace SourceTree

-- Each `var` is a token, and it is spelled so.
def SpellsVar (tree : SourceTree) : Prop :=
  ∀ place ∈ tree.find "var", place.node.children = [] ∧ tree.textOf place.node = "var".toList

instance (tree : SourceTree) : Decidable tree.SpellsVar := inferInstanceAs (Decidable (∀ _ ∈ _, _ ∧ _))

def inRange (places : List Place) (offset : Nat) : Bool := places.any fun place => place.start ≤ offset && offset < place.stop

theorem in_range_iff (places : List Place) (offset : Nat) :
    inRange places offset = true ↔ ∃ place ∈ places, place.start ≤ offset ∧ offset < place.stop := by
  simp [inRange]

section Keywords

variable (tree : SourceTree)

theorem mem_var_keywords_iff (place : Place) : place ∈ tree.varKeywords ↔ place.root = tree.root ∧ place.Introduces := by
  rw [varKeywords, List.mem_filter, mem_places_iff, is_var_keyword_iff]

theorem covers_let_edits (offset : Nat) : covers tree.letEdits offset = inRange tree.varKeywords offset := by
  rw [covers, letEdits, List.any_map]
  rfl

theorem let_fits (offset : Nat) : DiffersAt (fun _ => true) offset "var".toList letKeyword :=
  .cons _ _ _ _ _ (by decide) (by decide) (.cons _ _ _ _ _ (by decide) (by decide)
    (.cons _ _ _ _ _ (by decide) (by decide) (.nil _)))

variable (nested : tree.Nests) (spelled : tree.SpellsVar)

include nested spelled

theorem keyword_text (keyword : Place) (member : keyword ∈ tree.varKeywords) : keyword.node.Nested tree.text ∧
    keyword.node.children = [] ∧ tree.text.between keyword.start keyword.stop = "var".toList := by
  have found := var_keyword_found tree keyword member
  have same := ((mem_find_iff tree keyword "var").mp found).1
  have own := nested keyword ((mem_places_iff tree keyword).mpr same)
  obtain ⟨token, text⟩ := spelled keyword found
  rw [text_of_nested tree keyword.node own] at text
  exact ⟨own, token, text⟩

theorem keyword_width (keyword : Place) (member : keyword ∈ tree.varKeywords) : keyword.start + 3 = keyword.stop := by
  obtain ⟨own, _, text⟩ := keyword_text tree nested spelled keyword member
  have size := bytes_between tree.text keyword.start keyword.stop own.first own.last own.ordered
  rwa [text] at size

theorem let_edits_fit (edit : Edit) (member : edit ∈ tree.letEdits) : FitsIn tree.text edit := by
  obtain ⟨keyword, listed, rfl⟩ := List.mem_map.mp member
  obtain ⟨_, _, text⟩ := keyword_text tree nested spelled keyword listed
  unfold FitsIn
  rw [show tree.text.between (replace keyword.node letKeyword).start (replace keyword.node letKeyword).stop = _ from text]
  exact let_fits _

-- What the transform prints differs from the text in the keywords, and reads `let` there.
theorem let_printed : ∃ out, tree.varToLet.result = .ok out ∧ DiffersAt (inRange tree.varKeywords) 0 tree.text out ∧
    ∀ keyword ∈ tree.varKeywords, out.slice? keyword.start keyword.stop = some letKeyword := by
  have tokens := fun place member => (spelled place member).1
  have sound := let_edits_sound tree nested tokens
  have splices : ∀ edit ∈ tree.letEdits, edit.kind = .splice := by
    intro edit member
    obtain ⟨keyword, _, rfl⟩ := List.mem_map.mp member
    rfl
  have ordered := prepared_in_order tree.text _ sound
  have applied := apply_ok tree.text _ sound
  rw [prepared_splices tree.text _ splices] at ordered applied
  have fits : ∀ edit ∈ tree.letEdits.sorted, FitsIn tree.text edit := fun edit member =>
    let_edits_fit tree nested spelled edit ((sorted_perm _).mem_iff.mp member)
  refine ⟨_, (var_to_let_edits tree).trans applied, ?_, fun keyword member => ?_⟩
  · have inText := fun edit member => (in_order_bounds tree.text _ 0 ordered edit member).2
    have differs := spliced_differs tree.text _ (boundary_bytes _) _ 0 (boundary_zero _) (Nat.zero_le _) ordered
      (fun edit member => boundary_le tree.text _ (inText edit member).2.2) fits
    have same : covers tree.letEdits.sorted = inRange tree.varKeywords := by
      funext offset
      rw [covers_sorted, covers_let_edits]
    rwa [same, between_bytes, after_zero] at differs
  · exact spliced_reads tree.text _ ordered fits (replace keyword.node letKeyword)
      ((sorted_perm _).mem_iff.mpr (List.mem_map_of_mem member))

-- A keyword that does not lie in a place has no byte in common with it.
theorem keyword_outside (keyword place : Place) (member : keyword ∈ tree.varKeywords) (same : place.root = tree.root)
    (out : ¬ keyword.Within place) : keyword.stop ≤ place.start ∨ place.stop ≤ keyword.start := by
  have root := ((mem_var_keywords_iff tree keyword).mp member).1
  have token := (keyword_text tree nested spelled keyword member).2.1
  have away : ¬ place.Within keyword := by
    rintro (rfl | below)
    · exact out (.inl rfl)
    · exact below_children place keyword below token
  have inner := nests_in_nested tree nested keyword root
  have other := nests_in_nested tree nested place same
  rcases unrelated_cases keyword place (root.trans same.symm) out away with
    ⟨left, right, earlier, first, second⟩ | ⟨left, right, earlier, first, second⟩
  · exact .inl (within_apart tree.text keyword place left right inner other earlier first second)
  · exact .inr (within_apart tree.text place keyword left right other inner earlier first second)

theorem in_range_within (place : Place) (same : place.root = tree.root) (offset : Nat) (lower : place.start ≤ offset)
    (upper : offset < place.stop) :
    inRange tree.varKeywords offset = inRange (tree.varKeywords.filter (·.isWithin place)) offset := by
  rw [Bool.eq_iff_iff, in_range_iff, in_range_iff]
  refine exists_congr fun keyword => ⟨fun ⟨member, range⟩ => ?_, fun ⟨member, range⟩ => ⟨(List.mem_filter.mp member).1, range⟩⟩
  have root := ((mem_var_keywords_iff tree keyword).mp member).1
  refine ⟨List.mem_filter.mpr ⟨member, (is_within_iff keyword place (root.trans same.symm)).mpr ?_⟩, range⟩
  by_contra out
  rcases keyword_outside tree nested spelled keyword place member same out with before | after <;> omega

-- Each place is found again in a text that differs in the keywords, and there it differs in those that it holds.
theorem place_stays (out : Text) (differs : DiffersAt (inRange tree.varKeywords) 0 tree.text out) (place : Place)
    (listed : place ∈ tree.places) : place.node.Nested out ∧
      DiffersAt (inRange (tree.varKeywords.filter (·.isWithin place))) place.start (tree.textOf place.node)
        ({ tree with text := out }.textOf place.node) := by
  have own := nested place listed
  have same := (mem_places_iff tree place).mp listed
  have moved : place.node.Nested out :=
    ⟨own.ordered, (differs_boundary _ _ out differs _).mpr own.first, (differs_boundary _ _ out differs _).mpr own.last,
      own.inside, own.apart⟩
  refine ⟨moved, ?_⟩
  rw [text_of_nested tree place.node own, text_of_nested { tree with text := out } place.node moved]
  have piece := differs_between _ tree.text out differs place.start place.stop own.first own.last own.ordered
  refine differs_congr _ _ place.start _ _ piece fun offset lower upper => ?_
  have size := bytes_between tree.text place.start place.stop own.first own.last own.ordered
  exact in_range_within tree nested spelled place same offset lower (Nat.lt_of_lt_of_eq upper size)

theorem keyword_ranges_nodup : (tree.varKeywords.map fun keyword => (keyword.start, keyword.stop)).Nodup := by
  refine List.pairwise_map.mpr ((var_keywords_apart tree nested fun place member => (spelled place member).1).imp_of_mem ?_)
  intro first second one _ apart same
  have width := keyword_width tree nested spelled first one
  have start := congrArg Prod.fst same
  have behind := apart.2.2
  simp only at start
  omega

omit nested spelled in
theorem var_to_let_events : tree.varToLet.events =
    if tree.varKeywords = [] then [] else [.changedKeywords tree.path tree.varKeywords.length] := by
  unfold varToLet
  cases tree.varKeywords <;> rfl

end Keywords

-- Only the keywords change, each in its place, and their number is told. Every node covers the range that it covered,
-- with the same text but for the keywords that it holds.
theorem var_to_let_in_place (tree : SourceTree) (nested : tree.Nests) (spelled : tree.SpellsVar) :
    ∃ out, tree.varToLet.result = .ok out ∧
      (∀ (parser : Parser Id) (options : Options) (file : SourceFile), (file.parse parser).run.result = .ok tree →
        (Transform.varToLet.apply parser options file).run.result = .ok out) ∧
      out.bytes = tree.text.bytes ∧ DiffersAt (inRange tree.varKeywords) 0 tree.text out ∧
      (∀ place, place ∈ tree.varKeywords ↔ place.root = tree.root ∧ place.Introduces) ∧
      (∀ keyword ∈ tree.varKeywords, tree.text.slice? keyword.start keyword.stop = some "var".toList ∧
        out.slice? keyword.start keyword.stop = some "let".toList) ∧
      (∀ place ∈ tree.places, place.node.Nested out ∧
        DiffersAt (inRange (tree.varKeywords.filter (·.isWithin place))) place.start (tree.textOf place.node)
          ({ tree with text := out }.textOf place.node)) ∧
      (∀ place ∈ tree.places, (∀ keyword ∈ tree.varKeywords, ¬ keyword.Within place) →
        { tree with text := out }.textOf place.node = tree.textOf place.node) ∧
      (tree.varKeywords.map fun keyword => (keyword.start, keyword.stop)).Nodup ∧
      tree.varToLet.events = if tree.varKeywords = [] then [] else [.changedKeywords tree.path tree.varKeywords.length] := by
  obtain ⟨out, done, differs, reads⟩ := let_printed tree nested spelled
  refine ⟨out, done, fun parser options file parsed => ?_, differs_bytes _ _ _ _ differs, differs, mem_var_keywords_iff tree,
    fun keyword member => ?_, place_stays tree nested spelled out differs, fun place listed clear => ?_,
    keyword_ranges_nodup tree nested spelled, var_to_let_events tree⟩
  · have applied : (Transform.varToLet.apply parser options file).run = (file.parse parser).run.andThen varToLet := rfl
    rw [applied, Report.andThen, parsed]
    exact done
  · obtain ⟨own, _, text⟩ := keyword_text tree nested spelled keyword member
    exact ⟨text ▸ slice_of_boundaries _ _ _ own.first own.last own.ordered, reads keyword member⟩
  · have same := (mem_places_iff tree place).mp listed
    have none : tree.varKeywords.filter (·.isWithin place) = [] := by
      refine List.filter_eq_nil_iff.mpr fun keyword member within => clear keyword member ?_
      have root := ((mem_var_keywords_iff tree keyword).mp member).1
      exact (is_within_iff keyword place (root.trans same.symm)).mp within
    have stays := (place_stays tree nested spelled out differs place listed).2
    rw [none] at stays
    exact equal_of_differs _ _ _ stays

open Node in
-- A wide character, `var` in a string, and a declaration within the head of a loop.
def keywordSample : SourceTree where
  path := "k.js".toList
  dialect := .javaScript
  text := "var é = \x27var\x27;\nfor (var k in (() => \x7b var q; \x7d)()) ;\n".toList
  root := rule "program" 0 54 [
    rule "variable_declaration" 0 15 [
      token "var" 0 3,
      rule "variable_declarator" 4 14 [
        field "name" (rule "identifier" 4 6 []), token "=" 7 8,
        field "value" (rule "string" 9 14 [token "\x27" 9 10, rule "string_fragment" 10 13 [], token "\x27" 13 14])],
      token ";" 14 15],
    rule "for_in_statement" 16 53 [
      token "for" 16 19, token "(" 20 21, field "kind" (token "var" 21 24), field "left" (rule "identifier" 25 26 []),
      field "operator" (token "in" 27 29),
      field "right" (rule "call_expression" 30 50 [
        field "function" (rule "parenthesized_expression" 30 48 [
          token "(" 30 31,
          rule "arrow_function" 31 47 [
            field "parameters" (rule "formal_parameters" 31 33 [token "(" 31 32, token ")" 32 33]), token "=>" 34 36,
            field "body" (rule "statement_block" 37 47 [
              token "\x7b" 37 38,
              rule "variable_declaration" 39 45 [
                token "var" 39 42, rule "variable_declarator" 43 44 [field "name" (rule "identifier" 43 44 [])],
                token ";" 44 45],
              token "\x7d" 46 47])],
          token ")" 47 48]),
        field "arguments" (rule "arguments" 48 50 [token "(" 48 49, token ")" 49 50])]),
      token ")" 50 51, field "body" (rule "empty_statement" 52 53 [token ";" 52 53])]]

theorem keyword_sample_stays : keywordSample.Nests ∧ keywordSample.SpellsVar ∧
    (∃ out, keywordSample.varToLet.result = .ok out ∧ out.bytes = 54 ∧
      ∀ range ∈ [(0, 3), (21, 24), (39, 42)], out.slice? range.1 range.2 = some "let".toList) ∧
    keywordSample.varToLet.events = [.changedKeywords "k.js".toList 3] := by
  have nested : keywordSample.Nests := by decide +kernel
  have spelled : keywordSample.SpellsVar := by decide +kernel
  obtain ⟨out, done, _, size, _, _, reads, _, _, _, events⟩ := var_to_let_in_place keywordSample nested spelled
  have ranges : keywordSample.varKeywords.map (fun keyword => (keyword.start, keyword.stop)) = [(0, 3), (21, 24), (39, 42)] := by
    decide +kernel
  refine ⟨nested, spelled, ⟨out, done, size.trans (by decide +kernel), fun range member => ?_⟩, events.trans ?_⟩
  · rw [← ranges] at member
    obtain ⟨keyword, listed, rfl⟩ := List.mem_map.mp member
    exact (reads keyword listed).2
  · have count := congrArg List.length ranges
    rw [List.length_map] at count
    rw [count, if_neg fun none => by rw [none] at count; cases count]
    rfl

end SourceTree

end ScriptTidy
