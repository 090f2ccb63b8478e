import ScriptTidy.Proofs.Edit.Joined
import ScriptTidy.Proofs.Edit.Removed
import ScriptTidy.Proofs.Import.Fenced
import ScriptTidy.Proofs.Transform.ConsoleGone

/-! Neighbours share the comments between them exactly; if both go, they go as one. -/

set_option autoImplicit false

namespace ScriptTidy.SourceTree

open Text Place Edit Edits

variable (tree : SourceTree)

-- No more than blanks stand between siblings.
def Packed : Prop := ∀ place ∈ tree.places, place.node.children.IsChain fun one next =>
  (tree.text.between one.stop next.start).all isBlank = true

instance : Decidable tree.Packed := inferInstanceAs (Decidable (∀ _ ∈ _, _))

-- Siblings that are no comments, with no more than comments between them.
structure Adjoin (first : Place) (comments : List Node) (second : Place) : Prop where
  listed : first ∈ tree.places
  flank : Flank first comments second
  firstSolid : first.node.isComment = false
  secondSolid : second.node.isComment = false
  between : ∀ node ∈ comments, node.isComment = true

-- One merged removal takes both statements, the comments attached to them, and all between.
def GoAsOne (edits : Edits) (first second : Place) : Prop := ∃ joined ∈ merged tree.text edits.sorted,
  joined.kind = .removal ∧ joined.start ≤ tree.attachedStart first ∧ tree.attachedStop second ≤ joined.stop

section Statements

variable (grammar : tree.Grammatical) (packed : tree.Packed) (first second : Place) (comments : List Node)
  (neighbours : tree.Adjoin first comments second)

include packed neighbours in
theorem gap_blank : (tree.text.between (tree.attachedStop first) (tree.attachedStart second)).all isBlank = true := by
  obtain ⟨listed, flank, firstSolid, secondSolid, between⟩ := neighbours
  obtain ⟨front, one, other, back, shape, stop, start⟩ := attached_meet tree first second comments flank firstSolid secondSolid between
  rw [stop, start]
  cases flank with
  | siblings parent above passed node _ next rest =>
      have same := (mem_places_iff tree _).mp listed
      have chain := packed ⟨.mk parent (passed.reverse ++ node :: (comments ++ next :: rest)), above⟩ ((mem_places_iff tree _).mpr same)
      have children : passed.reverse ++ node :: (comments ++ next :: rest) =
          (passed.reverse ++ front) ++ one :: other :: (back ++ rest) := by
        have whole : node :: (comments ++ [next]) = front ++ one :: other :: back := shape
        calc passed.reverse ++ node :: (comments ++ next :: rest) = passed.reverse ++ (node :: (comments ++ [next])) ++ rest := by simp
          _ = (passed.reverse ++ front) ++ one :: other :: (back ++ rest) := by rw [whole]; simp
      rw [Node.children, children] at chain
      exact (List.isChain_append.mp chain).2.1.rel

include neighbours in
theorem neighbour_roots : first.root = tree.root ∧ second.root = tree.root := by
  have same := (mem_places_iff tree first).mp neighbours.listed
  refine ⟨same, ?_⟩
  cases neighbours.flank with
  | siblings parent above passed node _ next rest =>
      exact (earlier_root _ _ (.siblings parent above passed node comments next rest)).trans same

include grammar in
theorem removal_forward (place : Place) (same : place.root = tree.root) (wide : place.start < place.stop) :
    (removeStatement tree place).start < (removeStatement tree place).stop := by
  have nested := in_nested tree place grammar.toWellFormed same
  exact Nat.lt_of_le_of_lt (attached_start_le tree place nested) (Nat.lt_of_lt_of_le wide (le_attached_stop tree place nested))

include grammar packed neighbours

-- Nothing that can be seen begins between the comments of the first and those of the second.
theorem gap_holds_nothing (offset : Nat) (boundary : tree.text.IsBoundary offset) (solid : tree.text.StartsSolid offset)
    (lower : tree.attachedStop first ≤ offset) (upper : offset < tree.attachedStart second) : False := by
  obtain ⟨firstRoot, secondRoot⟩ := neighbour_roots tree first second comments neighbours
  have ends := (attached_boundaries tree first (in_nested tree first grammar.toWellFormed firstRoot)).2
  have begins := (attached_boundaries tree second (in_nested tree second grammar.toWellFormed secondRoot)).1
  have shown := not_blank_of_solid tree.text _ offset _ ends boundary begins lower upper solid
  rw [gap_blank tree packed first second comments neighbours] at shown
  exact Bool.noConfusion shown

theorem statements_join (edits : Edits) (sound : Sound tree.text edits) (one : removeStatement tree first ∈ edits)
    (other : removeStatement tree second ∈ edits)
    (wide : (removeStatement tree first).start < (removeStatement tree first).stop ∧
      (removeStatement tree second).start < (removeStatement tree second).stop)
    (clear : ∀ edit ∈ edits, edit.kind = .splice → edit.ClearOf (tree.attachedStart first) (tree.attachedStop second)) :
    tree.GoAsOne edits first second := by
  have nested := in_nested tree first grammar.toWellFormed (neighbour_roots tree first second comments neighbours).1
  have apart := neighbours_apart tree first second comments neighbours.flank neighbours.firstSolid neighbours.secondSolid
    neighbours.between nested
  exact neighbours_join tree.text edits sound _ _ one other ⟨rfl, rfl⟩ wide apart
    (gap_blank tree packed first second comments neighbours) clear

theorem console_statements_join (options : Options) (one : removeStatement tree first ∈ tree.consoleEdits options)
    (other : removeStatement tree second ∈ tree.consoleEdits options) :
    tree.GoAsOne (tree.consoleEdits options) first second := by
  have wide : ∀ edit ∈ tree.consoleEdits options, edit.start < edit.stop := by
    intro edit member
    obtain ⟨call, outer, held, _⟩ := edit_holds_one tree options grammar edit member
    exact Nat.lt_of_le_of_lt held.1 (Nat.lt_of_lt_of_le (call_wide tree options grammar call outer.listed outer.calls) held.2)
  refine statements_join tree grammar packed first second comments neighbours _ (console_edits_sound tree options grammar) one other
    ⟨wide _ one, wide _ other⟩ fun edit member splice => ?_
  have apart : ∀ place, removeStatement tree place ∈ tree.consoleEdits options →
      edit.ClearOf (tree.attachedStart place) (tree.attachedStop place) := fun place recorded => by
    have different : edit ≠ removeStatement tree place := fun same => EditKind.noConfusion (splice.symm.trans (congrArg Edit.kind same))
    rcases pairwise_either _ _ (console_edits_apart tree options grammar) edit _ member recorded different with
      (before | after) | (after | before)
    · exact .inr before
    · exact .inl after
    · exact .inl after
    · exact .inr before
  rcases apart first one with behind | ahead
  · rcases apart second other with after | before
    · exact .inl after
    -- A call between the two would be seen there.
    · obtain ⟨call, called, made⟩ := List.mem_filterMap.mp member
      have solid := (target_solid tree options grammar call called).1
      have valid := (console_edits_sound tree options grammar).valid edit member
      rcases remove_call_cases tree call edit made with ⟨_, rfl⟩ | ⟨text, rfl⟩
      · exact EditKind.noConfusion splice
      · exact (gap_holds_nothing tree grammar packed first second comments neighbours _ valid.2.1 solid behind
          (Nat.lt_of_lt_of_le (wide _ member) before)).elim
  · exact .inr ahead

section Pruned

variable (options : Options) (pruned : List PrunedDeclaration) (done : tree.pruneAll (tree.candidates options) = .ok pruned)

include done

omit packed neighbours in
theorem item_removed (place : Place) (same : place.root = tree.root) (removed : isRemovedBy pruned place = true) :
    ∃ item ∈ pruned, item.declaration.statement = place ∧ item.pruning = .removed (removeStatement tree place) ∧
      place.start < place.stop := by
  obtain ⟨item, member, isRemoved, rfl⟩ := (removed_by_iff tree options pruned done place same).mp removed
  obtain ⟨statement, root, kind, equal, _⟩ := pruned_item tree options pruned done item member
  have wide := (grammar.importEnds statement ((mem_find_iff tree statement _).mpr ⟨root, kind⟩)).2
  exact ⟨item, member, rfl, (removed_item tree options pruned done item member isRemoved).2, by rw [equal]; exact wide⟩

variable (removed : isRemovedBy pruned first = true) (gone : isRemovedBy pruned second = true)

include removed gone

-- A clause that is rewritten is part of another statement, and does not stand between the two.
theorem rewritten_clear (untangled : Untangled pruned) (item : PrunedDeclaration) (member : item ∈ pruned) (clause : Place)
    (text : Text) (found : item.declaration.clause = some clause) (shape : item.pruning = .rewritten (.replace clause.node text)) :
    (Edit.replace clause.node text).ClearOf (tree.attachedStart first) (tree.attachedStop second) := by
  obtain ⟨firstRoot, secondRoot⟩ := neighbour_roots tree first second comments neighbours
  have sides : ∀ place, place.root = tree.root → isRemovedBy pruned place = true →
      clause.stop ≤ tree.attachedStart place ∨ tree.attachedStop place ≤ clause.start := by
    intro place same removed
    obtain ⟨other, listed, rfl, gone, _⟩ := item_removed tree grammar options pruned done place same removed
    exact item_clause_apart tree options pruned grammar done item other member listed clause found
      (rewritten_out tree options pruned done untangled item other member listed _ shape (by rw [gone]; rfl))
  rcases sides first firstRoot removed with before | behind
  · exact .inr before
  · rcases sides second secondRoot gone with ahead | after
    · obtain ⟨root, isClause⟩ := item_clause tree options pruned done item member clause found
      have nested := node_nested tree.text clause (in_nested tree clause grammar.toWellFormed root)
      obtain ⟨solid, _, wide⟩ := grammar.clauses clause isClause
      exact (gap_holds_nothing tree grammar packed first second comments neighbours _ nested.first solid behind
        (Nat.lt_of_lt_of_le wide ahead)).elim
    · exact .inl after

-- The header goes in front of a statement that stays, with its comments, and that one does not stand between the two.
theorem anchor_clear (edit : Edit) (starts : edit.start = Header.anchor tree (isRemovedBy pruned))
    (stops : edit.stop = Header.anchor tree (isRemovedBy pruned)) :
    edit.ClearOf (tree.attachedStart first) (tree.attachedStop second) := by
  obtain ⟨firstRoot, secondRoot⟩ := neighbour_roots tree first second comments neighbours
  rcases anchor_cases tree (isRemovedBy pruned) with ⟨last, _⟩ | ⟨stays, listed, kept, place, _⟩
  · have nested := in_nested tree second grammar.toWellFormed secondRoot
    exact .inl (starts ▸ last ▸ boundary_le tree.text _ (attached_boundaries tree second nested).2)
  · have sides : ∀ place, place.root = tree.root → isRemovedBy pruned place = true →
        tree.attachedStop place ≤ tree.text.lineStartIfIndented (tree.attachedStart stays) ∨
          tree.attachedStart stays < tree.attachedStart place := by
      intro place same removed
      obtain ⟨item, member, rfl, shape, _⟩ := item_removed tree grammar options pruned done place same removed
      exact removed_anchor_apart tree options pruned grammar done stays listed kept item member (by rw [shape]; rfl)
    have root := statement_root tree stays listed
    have nested := in_nested tree stays grammar.toWellFormed root
    have boundary := (attached_boundaries tree stays nested).1
    have line := (line_start_if_indented_spec tree.text _ boundary).2.1
    rw [← place] at sides line
    rcases sides second secondRoot gone with after | ahead
    · exact .inl (starts ▸ after)
    · rcases sides first firstRoot removed with behind | before
      · have solid := attached_start_solid tree stays grammar.toWellFormed root
          (statement_solid tree stays grammar.toWellFormed listed).1
        exact (gap_holds_nothing tree grammar packed first second comments neighbours _ boundary solid (Nat.le_trans behind line)
          ahead).elim
      · exact .inr (stops ▸ Nat.le_trans line (Nat.le_of_lt before))

theorem pruned_statements_join (restored : Option Edit) (header : tree.restoredHeader pruned = .ok restored) (out : Text)
    (printed : tree.print (tree.pruneEdits pruned restored) = .ok out) :
    tree.GoAsOne (tree.pruneEdits pruned restored) first second := by
  have untangled := (prune_edits_printed_iff tree options pruned restored grammar done header).mp ⟨out, printed⟩
  obtain ⟨firstRoot, secondRoot⟩ := neighbour_roots tree first second comments neighbours
  obtain ⟨one, oneMember, oneEqual, oneShape, oneWide⟩ := item_removed tree grammar options pruned done first firstRoot removed
  obtain ⟨two, twoMember, _, twoShape, twoWide⟩ := item_removed tree grammar options pruned done second secondRoot gone
  have listed : ∀ place, ∀ item ∈ pruned, item.pruning = .removed (removeStatement tree place) →
      removeStatement tree place ∈ tree.pruneEdits pruned restored := fun place item member shape =>
    item_edit_listed tree pruned restored item member _ (by rw [shape]; exact List.mem_cons_self)
  refine statements_join tree grammar packed first second comments neighbours _ (prune_edits_sound tree options pruned restored
      (mem_prune_edits tree options pruned restored done header) grammar done untangled header)
    (listed first one oneMember oneShape) (listed second two twoMember twoShape) ⟨removal_forward tree grammar first firstRoot oneWide,
      removal_forward tree grammar second secondRoot twoWide⟩ fun edit member splice => ?_
  rcases mem_prune_edits tree options pruned restored done header edit member with
    ⟨line, found⟩ | ⟨item, present, clause, text, found, _, shape⟩ | _ | ⟨head, text, _, _, _⟩
  · obtain ⟨statement, same, kind, equal, _⟩ := pruned_item tree options pruned done one oneMember
    obtain rfl : statement = first := (congrArg (·.statement) equal).symm.trans oneEqual
    have solid := grammar.imports statement ((mem_find_iff tree statement _).mpr ⟨same, kind⟩)
    exact .inr (strip_le_attached tree grammar line found statement same solid (import_not_root tree grammar statement kind)
      (by rw [kind]; decide))
  · exact rewritten_clear tree grammar packed first second comments neighbours options pruned done removed gone untangled item
      present clause text found shape
  · exact EditKind.noConfusion splice
  · exact anchor_clear tree grammar packed first second comments neighbours options pruned done removed gone _ rfl rfl

end Pruned

end Statements

-- The comments between neighbours are parted between them, one that trails the first and those that lead the second; with
-- nothing but comments in front, all of them lead. So there are only blanks between two statements with their comments, and
-- statements that both go, in a run that does not fail, are taken by one removal.
theorem comments_shared :
    (∀ first comments second, tree.Adjoin first comments second →
      (tree.trailingComment? first).toList ++ tree.leadingComments second = comments) ∧
    (∀ place : Place, (∀ node ∈ place.before, node.isComment = true) → tree.leadingComments place = place.before.reverse) ∧
    (tree.Grammatical → tree.Packed → ∀ first comments second, tree.Adjoin first comments second →
      (tree.text.between (tree.attachedStop first) (tree.attachedStart second)).all isBlank = true ∧
      (∀ edits, Sound tree.text edits → removeStatement tree first ∈ edits → removeStatement tree second ∈ edits →
        first.start < first.stop → second.start < second.stop →
        (∀ edit ∈ edits, edit.kind = .splice → edit.ClearOf (tree.attachedStart first) (tree.attachedStop second)) →
          tree.GoAsOne edits first second) ∧
      (∀ options pruned restored, tree.pruneAll (tree.candidates options) = .ok pruned →
        tree.restoredHeader pruned = .ok restored → isRemovedBy pruned first = true → isRemovedBy pruned second = true →
          ∀ out, tree.print (tree.pruneEdits pruned restored) = .ok out →
            tree.GoAsOne (tree.pruneEdits pruned restored) first second) ∧
      ∀ options, removeStatement tree first ∈ tree.consoleEdits options → removeStatement tree second ∈ tree.consoleEdits options →
        tree.GoAsOne (tree.consoleEdits options) first second) := by
  refine ⟨fun first comments second neighbours => ?_, fun place comments => comments_first tree place comments,
    fun grammar packed first comments second neighbours => ⟨gap_blank tree packed first second comments neighbours,
      fun edits sound one other wide also clear => ?_, fun options pruned restored done header removed gone out printed => ?_,
      fun options one other => console_statements_join tree grammar packed first second comments neighbours options one other⟩⟩
  · exact comments_between tree first second comments neighbours.flank neighbours.firstSolid neighbours.secondSolid
      neighbours.between
  · obtain ⟨firstRoot, secondRoot⟩ := neighbour_roots tree first second comments neighbours
    exact statements_join tree grammar packed first second comments neighbours edits sound one other
      ⟨removal_forward tree grammar first firstRoot wide, removal_forward tree grammar second secondRoot also⟩ clear
  · exact pruned_statements_join tree grammar packed first second comments neighbours options pruned done removed gone restored header
      out printed

open Node in
-- Two imports that nothing uses and two calls, with comments on their lines and between them, one of them over two rows.
def neighboursSample : SourceTree where
  path := "p.js".toList
  dialect := .javaScript
  text := ("// h\nimport a from \x22a\x22; // 1\n// 2\nimport b from \x22b\x22;\n" ++
    "console.log(1); /* 3 */ /* 4\n5 */ console.log(2);\nc();\n").toList
  root := rule "program" 0 108 [
        rule "comment" 0 4 [],
        rule "import_statement" 5 23 [
          token "import" 5 11,
          rule "import_clause" 12 13 [rule "identifier" 12 13 []],
          token "from" 14 18,
          field "source" (rule "string" 19 22 [token "\x22" 19 20, rule "string_fragment" 20 21 [], token "\x22" 21 22]),
          token ";" 22 23],
        rule "comment" 24 28 [],
        rule "comment" 29 33 [],
        rule "import_statement" 34 52 [
          token "import" 34 40,
          rule "import_clause" 41 42 [rule "identifier" 41 42 []],
          token "from" 43 47,
          field "source" (rule "string" 48 51 [token "\x22" 48 49, rule "string_fragment" 49 50 [], token "\x22" 50 51]),
          token ";" 51 52],
        rule "expression_statement" 53 68 [
          rule "call_expression" 53 67 [
            field "function" (rule "member_expression" 53 64 [
              field "object" (rule "identifier" 53 60 []),
              token "." 60 61,
              field "property" (rule "property_identifier" 61 64 [])]),
            field "arguments" (rule "arguments" 64 67 [token "(" 64 65, rule "number" 65 66 [], token ")" 66 67])],
          token ";" 67 68],
        rule "comment" 69 76 [],
        rule "comment" 77 86 [],
        rule "expression_statement" 87 102 [
          rule "call_expression" 87 101 [
            field "function" (rule "member_expression" 87 98 [
              field "object" (rule "identifier" 87 94 []),
              token "." 94 95,
              field "property" (rule "property_identifier" 95 98 [])]),
            field "arguments" (rule "arguments" 98 101 [token "(" 98 99, rule "number" 99 100 [], token ")" 100 101])],
          token ";" 101 102],
        rule "expression_statement" 103 107 [
          rule "call_expression" 103 106 [
            field "function" (rule "identifier" 103 104 []),
            field "arguments" (rule "arguments" 104 106 [token "(" 104 105, token ")" 105 106])],
          token ";" 106 107]]

def samplePlace (index : Nat) : Place := (neighboursSample.rootPlace.children[index]?).getD neighboursSample.rootPlace

def sampleNodes (front count : Nat) : List Node := (neighboursSample.root.children.drop front).take count

theorem sample_neighbours : neighboursSample.Adjoin (samplePlace 1) (sampleNodes 2 2) (samplePlace 4) ∧
    neighboursSample.Adjoin (samplePlace 5) (sampleNodes 6 2) (samplePlace 8) := by
  refine ⟨⟨(mem_places_iff _ _).mpr rfl, ?_, by decide, by decide, by decide⟩, (mem_places_iff _ _).mpr rfl, ?_, by decide, by decide,
    by decide⟩
  · exact .siblings neighboursSample.root.label [] (sampleNodes 0 1) (samplePlace 1).node (sampleNodes 2 2) (samplePlace 4).node
      (sampleNodes 5 5)
  · exact .siblings neighboursSample.root.label [] (sampleNodes 0 5).reverse (samplePlace 5).node (sampleNodes 6 2) (samplePlace 8).node
      (sampleNodes 9 1)

theorem sample_comments_shared : neighboursSample.Grammatical ∧ neighboursSample.Packed ∧
    (neighboursSample.trailingComment? (samplePlace 1)).toList ++ neighboursSample.leadingComments (samplePlace 4) = sampleNodes 2 2 ∧
    (neighboursSample.trailingComment? (samplePlace 5)).toList ++ neighboursSample.leadingComments (samplePlace 8) = sampleNodes 6 2 ∧
    (neighboursSample.leadingComments (samplePlace 4)).length = 1 ∧ (neighboursSample.leadingComments (samplePlace 8)).length = 1 ∧
    neighboursSample.GoAsOne (removals [(0, 28), (29, 52)]) (samplePlace 1) (samplePlace 4) ∧
    (∃ pruned restored, neighboursSample.pruneAll (neighboursSample.candidates .default) = .ok pruned ∧
      neighboursSample.restoredHeader pruned = .ok restored ∧
      neighboursSample.GoAsOne (neighboursSample.pruneEdits pruned restored) (samplePlace 1) (samplePlace 4)) ∧
    neighboursSample.GoAsOne (neighboursSample.consoleEdits .default) (samplePlace 5) (samplePlace 8) := by
  have grammar : neighboursSample.Grammatical := by decide +kernel
  have packed : neighboursSample.Packed := by decide +kernel
  obtain ⟨imports, calls⟩ := sample_neighbours
  obtain ⟨parts, _, joins⟩ := comments_shared neighboursSample
  obtain ⟨pruned, done⟩ := prune_all_total neighboursSample grammar .default
  obtain ⟨restored, header⟩ := restored_header_total neighboursSample grammar.toWellFormed pruned
  have gone : (neighboursSample.pruneAll (neighboursSample.candidates .default)).toOption.any (fun pruned =>
      isRemovedBy pruned (samplePlace 1) && isRemovedBy pruned (samplePlace 4) && decide (Untangled pruned)) = true := by
    decide +kernel
  simp only [done, Except.toOption, Option.any_some, Bool.and_eq_true, decide_eq_true_eq] at gone
  obtain ⟨⟨one, other⟩, untangled⟩ := gone
  obtain ⟨out, printed⟩ := (prune_edits_printed_iff neighboursSample .default pruned restored grammar done header).mpr untangled
  obtain ⟨_, edits, run, _⟩ := joins grammar packed _ _ _ imports
  refine ⟨grammar, packed, parts _ _ _ imports, parts _ _ _ calls, by decide +kernel, by decide +kernel, ?_,
    ⟨pruned, restored, done, header, run _ pruned restored done header one other out printed⟩, ?_⟩
  · exact edits _ (removals_sound _ _ (by decide +kernel)) (by decide +kernel) (by decide +kernel) (by decide) (by decide)
      fun edit member splice => absurd (splice.symm.trans (removals_recorded _ edit member).1) (by decide)
  · exact (joins grammar packed _ _ _ calls).2.2.2 .default (by decide +kernel) (by decide +kernel)

end ScriptTidy.SourceTree
