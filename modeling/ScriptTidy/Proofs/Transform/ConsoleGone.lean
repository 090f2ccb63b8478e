import ScriptTidy.Proofs.Edit.Shown
import ScriptTidy.Proofs.Transform.ConsoleEdits
import ScriptTidy.Proofs.Transform.Untouched

/-! Console calls are gone, each with what its place asks for, and all else is left. -/

set_option autoImplicit false

namespace ScriptTidy

open Text Place Edits

namespace Edit

def Holds (edit : Edit) (place : Place) : Prop := edit.start ≤ place.start ∧ place.stop ≤ edit.stop

instance (edit : Edit) (place : Place) : Decidable (edit.Holds place) := inferInstanceAs (Decidable (_ ∧ _))

end Edit

namespace Edits

-- Of edits that are apart, no two hold one place.
theorem holds_one (edits : Edits) (apart : edits.Pairwise Edits.Apart) (place : Place) (wide : place.start < place.stop) (edit : Edit)
    (member : edit ∈ edits) (held : edit.Holds place) : edits.filter (fun other => other.Holds place) = [edit] := by
  obtain ⟨front, back, rfl⟩ := List.append_of_mem member
  obtain ⟨_, later, between⟩ := List.pairwise_append.mp apart
  have none : ∀ other, Edits.Apart edit other ∨ Edits.Apart other edit → ¬ other.Holds place := by
    intro other clear inside
    unfold Edit.Holds at held inside
    unfold Edits.Apart at clear
    omega
  rw [List.filter_append, List.filter_cons_of_pos (by simpa using held),
    List.filter_eq_nil_iff.mpr fun other inside => ?_, List.filter_eq_nil_iff.mpr fun other inside => ?_, List.nil_append]
  · simpa using none other (.inl ((List.pairwise_cons.mp later).1 other inside))
  · simpa using none other (.inr (between other inside edit List.mem_cons_self))

end Edits

namespace SourceTree

section Calls

variable (tree : SourceTree) (options : Options)

-- A call `console.method(...)` of a method that the options name.
structure CallsConsole (call : Place) : Prop where
  kind : call.kind = "call_expression"
  callee : ∃ callee, call.node.childByField? "function" = some callee ∧ callee.kind = "member_expression" ∧
    (∃ object, callee.childByField? "object" = some object ∧ object.kind = "identifier" ∧
      tree.textOf object = "console".toList) ∧
    ∃ method, callee.childByField? "property" = some method ∧ tree.textOf method ∈ options.consoleMethods.names

theorem console_call_iff (call : Place) : tree.isConsoleCall options call = true ↔ tree.CallsConsole options call := by
  unfold isConsoleCall
  rw [Bool.and_eq_true, beq_iff_eq]
  refine ⟨fun ⟨kind, wanted⟩ => ⟨kind, ?_⟩, fun ⟨kind, callee, function, member, owner, named⟩ => ⟨kind, ?_⟩⟩
  · split at wanted
    next => cases wanted
    next callee function =>
      obtain ⟨member, parts⟩ := Bool.and_eq_true_iff.mp wanted
      split at parts
      next object method owner property =>
        simp only [Bool.and_eq_true, beq_iff_eq, Options.stripsMethod, NameSet.contains, List.contains_iff_mem] at parts
        exact ⟨callee, function, by simpa using member, ⟨object, owner, parts.1.1, parts.1.2⟩, method, property, parts.2⟩
      next => cases parts
  · obtain ⟨object, owner, identifier, console⟩ := owner
    obtain ⟨method, property, named⟩ := named
    simp [function, member, owner, identifier, console, property, Options.stripsMethod, NameSet.contains, named]

-- A call that no other one is around.
structure OuterCall (call : Place) : Prop where
  listed : call ∈ tree.places
  calls : tree.CallsConsole options call
  first : ∀ above, call.Below above → ¬ tree.CallsConsole options above

theorem mem_console_calls_iff (call : Place) : call ∈ tree.consoleCalls options ↔ tree.OuterCall options call := by
  rw [consoleCalls, mem_outermost_iff, console_call_iff]
  constructor
  · rintro ⟨listed, calls, first⟩
    exact ⟨listed, calls, fun above below named =>
      Bool.eq_false_iff.mp (first above below) ((console_call_iff tree options above).mpr named)⟩
  · rintro ⟨listed, calls, first⟩
    exact ⟨listed, calls, fun above below => Bool.eq_false_iff.mpr fun named =>
      first above below ((console_call_iff tree options above).mp named)⟩

-- What becomes of a call, by the place in which it stands.
inductive GoneBy (call : Place) : Edit → Prop where
  | listed (statement list : Place) (above : call.parent? = some statement) (kind : statement.kind = "expression_statement")
      (holder : statement.parent? = some list) (listKind : list.kind ∈ statementListKinds) :
      GoneBy call ⟨tree.attachedStart statement, tree.attachedStop statement, [], .removal⟩
  | branch (statement : Place) (above : call.parent? = some statement) (kind : statement.kind = "expression_statement")
      (elsewhere : ∀ list, statement.parent? = some list → list.kind ∉ statementListKinds) :
      GoneBy call ⟨statement.start, statement.stop, "\x7b\x7d".toList, .splice⟩
  | body (function : Place) (above : call.parent? = some function) (kind : function.kind = "arrow_function")
      (body : function.childByField? "body" = some call) : GoneBy call ⟨call.start, call.stop, "\x7b\x7d".toList, .splice⟩
  | value (parent : Place) (above : call.parent? = some parent) (kind : parent.kind ≠ "expression_statement")
      (other : parent.kind = "arrow_function" → parent.childByField? "body" ≠ some call) :
      GoneBy call ⟨call.start, call.stop, "void 0".toList, .splice⟩

theorem remove_call_gone (call : Place) (edit : Edit) (made : tree.removeCall call = some edit) : tree.GoneBy call edit := by
  unfold removeCall at made
  obtain ⟨parent, above, rfl⟩ := Option.map_eq_some_iff.mp made
  have field : call.isField "body" = true ↔ parent.childByField? "body" = some call := by
    rw [is_field_iff]
    exact ⟨fun ⟨other, same, found⟩ => Option.some.inj (above.symm.trans same) ▸ found, fun found => ⟨parent, above, found⟩⟩
  by_cases kind : parent.kind = "expression_statement"
  · rw [if_pos (by simpa using kind)]
    cases holder : parent.parent? with
    | none => exact .branch parent above kind fun list same => absurd (holder.symm.trans same) (by simp)
    | some list =>
        by_cases listKind : list.kind ∈ statementListKinds
        · rw [if_pos (by simpa using listKind)]
          exact .listed parent list above kind holder listKind
        · rw [if_neg (by simpa using listKind)]
          exact .branch parent above kind fun other same => Option.some.inj (holder.symm.trans same) ▸ listKind
  · rw [if_neg (by simpa using kind)]
    by_cases body : parent.kind = "arrow_function" ∧ parent.childByField? "body" = some call
    · rw [if_pos (by simpa [field] using body)]
      exact .body parent above body.1 body.2
    · rw [if_neg (by simpa [field] using body)]
      exact .value parent above kind fun function found => body ⟨function, found⟩

variable (grammar : tree.Grammatical)

include grammar

-- A call holds the text `console`, so it is not empty.
theorem call_wide (call : Place) (listed : call ∈ tree.places) (calls : tree.CallsConsole options call) : call.start < call.stop := by
  obtain ⟨_, callee, function, _, ⟨object, owner, _, console⟩, _⟩ := calls
  have own := grammar.nested call listed
  have calleeMember : callee ∈ call.node.children := List.mem_of_find?_eq_some function
  obtain ⟨place, child, rfl⟩ := child_place call callee calleeMember
  have same := (below_root place call (child_below call place child)).symm.trans ((mem_places_iff tree call).mp listed)
  have callee := grammar.nested place ((mem_places_iff tree place).mpr same)
  have outer := own.inside place.node calleeMember
  have inner := callee.inside object (List.mem_of_find?_eq_some owner)
  have wide : object.start < object.stop := by
    by_contra empty
    rw [textOf, slice?] at console
    split at console
    next valid =>
      have equal : object.start = object.stop := by omega
      rw [equal, Option.getD_some, between_self _ _ valid.2.2] at console
      cases console
    next => cases console
  exact Nat.lt_of_le_of_lt (Nat.le_trans outer.1 inner.1) (Nat.lt_of_lt_of_le wide (Nat.le_trans inner.2 outer.2))

theorem remove_call_holds (call : Place) (member : call ∈ tree.consoleCalls options) (edit : Edit)
    (made : tree.removeCall call = some edit) : edit.Holds call := by
  have nested := in_nested tree (consoleTarget call) grammar.toWellFormed (target_root tree options call member)
  have own := in_nested tree call grammar.toWellFormed (mem_console_calls tree options call member).1
  have inside := within_inside tree.text call (consoleTarget call) own (call_within_target call)
  rcases remove_call_cases tree call edit made with ⟨_, rfl⟩ | ⟨text, rfl⟩
  · exact ⟨Nat.le_trans (attached_start_le tree _ nested) inside.1, Nat.le_trans inside.2 (le_attached_stop tree _ nested)⟩
  · exact inside

-- The root is no call, so each call has an edit.
theorem remove_call_some (call : Place) (member : call ∈ tree.consoleCalls options) : ∃ edit, tree.removeCall call = some edit := by
  obtain ⟨same, wanted⟩ := mem_console_calls tree options call member
  have kind := (console_call_shape tree options call wanted).1
  unfold removeCall
  cases above : call.parent? with
  | some parent => exact ⟨_, rfl⟩
  | none =>
      obtain ⟨node, steps⟩ := call
      cases steps with
      | nil => exact absurd kind (root_place_kind tree _ grammar.toWellFormed same _ (by decide))
      | cons step higher => cases above

theorem outer_call_edit (call : Place) (outer : tree.OuterCall options call) :
    ∃ edit ∈ tree.consoleEdits options, edit.Holds call ∧ tree.removeCall call = some edit := by
  have member := (mem_console_calls_iff tree options call).mpr outer
  obtain ⟨edit, made⟩ := remove_call_some tree options grammar call member
  exact ⟨edit, List.mem_filterMap.mpr ⟨call, member, made⟩, remove_call_holds tree options grammar call member edit made, made⟩

-- Two calls with no other one around them are in different edits.
theorem outer_call_unique (edit : Edit) (first second : Place) (one : tree.OuterCall options first)
    (other : tree.OuterCall options second) (made : tree.removeCall first = some edit) (held : edit.Holds second) :
    second = first := by
  by_contra different
  have wide := call_wide tree options grammar second other.listed other.calls
  obtain ⟨mine, _, own, making⟩ := outer_call_edit tree options grammar second other
  unfold Edit.Holds at held own
  have apart : Edits.Apart mine edit ∨ Edits.Apart edit mine := by
    rcases pairwise_either _ _ (call_edits_apart tree options grammar) second first
      ((mem_console_calls_iff tree options second).mpr other) ((mem_console_calls_iff tree options first).mpr one) different
      with before | after
    · exact .inl (before mine making edit made)
    · exact .inr (after edit made mine making)
  unfold Edits.Apart at apart
  omega

theorem held_by_one (call : Place) (listed : call ∈ tree.places) (calls : tree.CallsConsole options call) :
    ∃ edit, (tree.consoleEdits options).filter (fun other => other.Holds call) = [edit] ∧
      (tree.OuterCall options call → tree.GoneBy call edit) := by
  have same := (mem_places_iff tree call).mp listed
  obtain ⟨top, member, within⟩ := outermost_above tree (tree.isConsoleCall options) call same
    ((console_call_iff tree options call).mpr calls)
  obtain ⟨edit, recorded, held, made⟩ := outer_call_edit tree options grammar top ((mem_console_calls_iff tree options top).mp member)
  have inside := within_inside tree.text call top (in_nested tree call grammar.toWellFormed same) within
  refine ⟨edit, holds_one _ (console_edits_apart tree options grammar) call (call_wide tree options grammar call listed calls) edit
    recorded ⟨Nat.le_trans held.1 inside.1, Nat.le_trans inside.2 held.2⟩, fun outer => ?_⟩
  rcases within with rfl | below
  · exact remove_call_gone tree call edit made
  · exact absurd ((mem_console_calls_iff tree options top).mp member).calls (outer.first top below)

theorem edit_holds_one (edit : Edit) (member : edit ∈ tree.consoleEdits options) : ∃ call, tree.OuterCall options call ∧
    edit.Holds call ∧ ∀ other, tree.OuterCall options other → edit.Holds other → other = call := by
  obtain ⟨call, called, made⟩ := List.mem_filterMap.mp member
  have outer := (mem_console_calls_iff tree options call).mp called
  exact ⟨call, outer, remove_call_holds tree options grammar call called edit made, fun other another held =>
    outer_call_unique tree options grammar edit call other outer another made held⟩

omit grammar in
theorem no_console_calls (none : ∀ call ∈ tree.places, ¬ tree.CallsConsole options call) :
    (tree.removeConsoleCalls options).result = .ok tree.text := by
  have empty : tree.consoleCalls options = [] := List.eq_nil_iff_forall_not_mem.mpr fun call member =>
    have outer := (mem_console_calls_iff tree options call).mp member
    none call outer.listed outer.calls
  simp [removeConsoleCalls, empty, Report.done]

omit grammar in
theorem console_calls_printed : (tree.removeConsoleCalls options).result = tree.print (tree.consoleEdits options) := by
  unfold removeConsoleCalls
  dsimp only
  split
  next empty =>
    rw [consoleEdits, List.isEmpty_iff.mp empty, List.filterMap_nil, print,
      apply_replaced tree.text [] (fun _ none => absurd none List.not_mem_nil) (fun _ none => absurd none List.not_mem_nil) .nil,
      replaced_nothing]
    rfl
  next => rfl

-- Each call lies in one edit, which is what its place asks for; each edit holds one call that no other is around. What
-- is visible is the text with the edits in place of their ranges, and without calls nothing changes.
theorem console_calls_removed :
    (∀ call ∈ tree.places, tree.CallsConsole options call →
      ∃ edit, (tree.consoleEdits options).filter (fun other => other.Holds call) = [edit] ∧
        (tree.OuterCall options call → tree.GoneBy call edit)) ∧
    (∀ edit ∈ tree.consoleEdits options, ∃ call, tree.OuterCall options call ∧ edit.Holds call ∧
      ∀ other, tree.OuterCall options other → edit.Holds other → other = call) ∧
    (∃ out, (tree.removeConsoleCalls options).result = .ok out ∧
      visible out = visible (replaced (tree.consoleEdits options) 0 tree.text) ∧
      (visible (outside (covers (tree.consoleEdits options)) 0 tree.text)).Sublist out) ∧
    ((∀ call ∈ tree.places, ¬ tree.CallsConsole options call) → (tree.removeConsoleCalls options).result = .ok tree.text) := by
  refine ⟨held_by_one tree options grammar, edit_holds_one tree options grammar, ?_, no_console_calls tree options⟩
  obtain ⟨out, done, same⟩ := visible_applied tree.text _ (console_edits_sound tree options grammar)
  refine ⟨out, (console_calls_printed tree options).trans done, same, ?_⟩
  calc (visible (outside (covers (tree.consoleEdits options)) 0 tree.text)).Sublist
        (visible (replaced (tree.consoleEdits options) 0 tree.text)) := (outside_replaced _ _ 0).filter _
    List.Sublist _ (visible out) := same ▸ List.Sublist.refl _
    List.Sublist _ out := List.filter_sublist

end Calls

-- A branch, a statement with its comments, the body of an arrow function and an argument, with a call in a callback.
open Node in
def nestedCallsSample : SourceTree where
  path := "p.js".toList
  dialect := .javaScript
  text := "if (a) console.log(1);\n// c\nconsole.log(x => console.log(x)); // d\nb(y => console.log(y), console.log(2));\n".toList
  root := rule "program" 0 107 [
        rule "if_statement" 0 22 [
          token "if" 0 2,
          field "condition" (rule "parenthesized_expression" 3 6 [token "(" 3 4, rule "identifier" 4 5 [], token ")" 5 6]),
          field "consequence" (rule "expression_statement" 7 22 [
            rule "call_expression" 7 21 [
              field "function" (rule "member_expression" 7 18 [
                field "object" (rule "identifier" 7 14 []),
                token "." 14 15,
                field "property" (rule "property_identifier" 15 18 [])]),
              field "arguments" (rule "arguments" 18 21 [token "(" 18 19, rule "number" 19 20 [], token ")" 20 21])],
            token ";" 21 22])],
        rule "comment" 23 27 [],
        rule "expression_statement" 28 61 [
          rule "call_expression" 28 60 [
            field "function" (rule "member_expression" 28 39 [
              field "object" (rule "identifier" 28 35 []),
              token "." 35 36,
              field "property" (rule "property_identifier" 36 39 [])]),
            field "arguments" (rule "arguments" 39 60 [
              token "(" 39 40,
              rule "arrow_function" 40 59 [
                field "parameter" (rule "identifier" 40 41 []),
                token "=>" 42 44,
                field "body" (rule "call_expression" 45 59 [
                  field "function" (rule "member_expression" 45 56 [
                    field "object" (rule "identifier" 45 52 []),
                    token "." 52 53,
                    field "property" (rule "property_identifier" 53 56 [])]),
                  field "arguments" (rule "arguments" 56 59 [token "(" 56 57, rule "identifier" 57 58 [], token ")" 58 59])])],
              token ")" 59 60])],
          token ";" 60 61],
        rule "comment" 62 66 [],
        rule "expression_statement" 67 106 [
          rule "call_expression" 67 105 [
            field "function" (rule "identifier" 67 68 []),
            field "arguments" (rule "arguments" 68 105 [
              token "(" 68 69,
              rule "arrow_function" 69 88 [
                field "parameter" (rule "identifier" 69 70 []),
                token "=>" 71 73,
                field "body" (rule "call_expression" 74 88 [
                  field "function" (rule "member_expression" 74 85 [
                    field "object" (rule "identifier" 74 81 []),
                    token "." 81 82,
                    field "property" (rule "property_identifier" 82 85 [])]),
                  field "arguments" (rule "arguments" 85 88 [token "(" 85 86, rule "identifier" 86 87 [], token ")" 87 88])])],
              token "," 88 89,
              rule "call_expression" 90 104 [
                field "function" (rule "member_expression" 90 101 [
                  field "object" (rule "identifier" 90 97 []),
                  token "." 97 98,
                  field "property" (rule "property_identifier" 98 101 [])]),
                field "arguments" (rule "arguments" 101 104 [token "(" 101 102, rule "number" 102 103 [], token ")" 103 104])],
              token ")" 104 105])],
          token ";" 105 106]]

theorem nested_calls_removed : nestedCallsSample.Grammatical ∧
    (nestedCallsSample.places.filter (nestedCallsSample.isConsoleCall .default)).length = 5 ∧
    (nestedCallsSample.consoleEdits .default).length = 4 ∧
    (∀ edit ∈ nestedCallsSample.consoleEdits .default, ∃ call, nestedCallsSample.OuterCall .default call ∧ edit.Holds call) ∧
    (nestedCallsSample.removeConsoleCalls .default).result = .ok "if (a) \x7b\x7d\nb(y => \x7b\x7d, void 0);\n".toList ∧
    (nestedCallsSample.removeConsoleCalls ⟨.empty, .empty⟩).result = .ok nestedCallsSample.text := by
  have grammar : nestedCallsSample.Grammatical := by decide +kernel
  obtain ⟨_, each, _, _⟩ := console_calls_removed nestedCallsSample .default grammar
  refine ⟨grammar, by decide +kernel, by decide +kernel, fun edit member => ?_, ok_of_option _ _ (by decide +kernel), ?_⟩
  · obtain ⟨call, outer, held, _⟩ := each edit member
    exact ⟨call, outer, held⟩
  · refine (console_calls_removed nestedCallsSample ⟨.empty, .empty⟩ grammar).2.2.2 fun call _ calls => ?_
    obtain ⟨_, _, _, _, _, _, _, named⟩ := calls
    exact absurd named List.not_mem_nil

end SourceTree

end ScriptTidy
