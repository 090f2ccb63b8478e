import ScriptTidy.Proofs.Edit.Replaced
import ScriptTidy.Proofs.Transform.Untouched

/-! The `#!` line of a file, taken out and written back: all of it comes back but the blanks at its end. -/

set_option autoImplicit false

namespace ScriptTidy

open Text Edit Edits

namespace Text

theorem trim_end_part (text : Text) : trimEnd text <+: text := by
  obtain ⟨blanks, shape, _⟩ := trim_end_parts text
  exact ⟨blanks, shape.symm⟩

-- Of two texts that begin with lines, one is a part of the other only if the lines are the same.
theorem lines_agree (line other rest back : Text) (unbroken : '\n' ∉ line) (single : '\n' ∉ other)
    (part : line ++ '\n' :: rest <+: other ++ '\n' :: back) : line = other ∧ rest <+: back := by
  induction line generalizing other with
  | nil =>
      cases other with
      | nil => exact ⟨rfl, (List.cons_prefix_cons.mp part).2⟩
      | cons char others =>
          have same := (List.cons_prefix_cons.mp part).1
          exact absurd (same ▸ List.mem_cons_self) single
  | cons char chars ih =>
      cases other with
      | nil =>
          have same := (List.cons_prefix_cons.mp part).1
          exact absurd (same ▸ List.mem_cons_self) unbroken
      | cons first others =>
          obtain ⟨rfl, later⟩ := List.cons_prefix_cons.mp part
          obtain ⟨rfl, behind⟩ := ih others (fun present => unbroken (List.mem_cons_of_mem _ present))
            (fun present => single (List.mem_cons_of_mem _ present)) later
          exact ⟨rfl, behind⟩

end Text

namespace InterpreterLine

-- A file that begins with a `#!` line and goes on behind its line break. `rest` is what follows the mark.
structure Opens (tree : SourceTree) (line : InterpreterLine) (rest back : Text) : Prop where
  found : find? tree = some line
  first : line.start = 0
  last : line.stop = bytes (mark ++ rest)
  whole : tree.text = (mark ++ rest) ++ '\n' :: back
  single : '\n' ∉ rest

section Opening

variable (tree : SourceTree) (line : InterpreterLine) (rest back : Text) (opens : line.Opens tree rest back)

include opens

theorem opening_value : line.value = trimEnd rest := by
  have found := opens.found
  unfold find? at found
  split at found
  next => cases found
  next node _ _ =>
    split at found
    next =>
      obtain rfl := Option.some.inj found
      have text : tree.textOf node = mark ++ rest := by
        have start : node.start = 0 := opens.first
        have stop : node.stop = bytes (mark ++ rest) := opens.last
        rw [SourceTree.textOf, start, stop, opens.whole, slice_of_boundaries _ _ _ (boundary_zero _) (boundary_append _ _)
          (Nat.zero_le _), Option.getD_some, between_zero, before_append]
      show trimEnd (if mark.isPrefixOf (tree.textOf node) then (tree.textOf node).drop mark.length else tree.textOf node) = _
      rw [text, if_pos (List.isPrefixOf_iff_prefix.mpr (List.prefix_append _ _)), List.drop_left]
    next => cases found

theorem opening_written (text : Text) : line.prepend text = mark ++ trimEnd rest ++ '\n' :: text := by
  rw [prepend, opening_value tree line rest back opens]

-- The line goes with its line break.
theorem opening_stripped : tree.print [line.strip tree] = .ok back := by
  have behind : tree.text.nextLineStart line.stop = bytes (mark ++ rest ++ ['\n']) := by
    rw [nextLineStart, opens.last, opens.whole, after_append, bytes_append _ ['\n']]
    simp
  have edit : line.strip tree = .replaceRange 0 (bytes (mark ++ rest ++ ['\n'])) [] := by
    rw [strip, opens.first, behind]
  have text : tree.text = (mark ++ rest ++ ['\n']) ++ back := by
    rw [opens.whole]
    simp
  have valid : (Edit.replaceRange 0 (bytes (mark ++ rest ++ ['\n'])) []).InText tree.text :=
    ⟨Nat.zero_le _, boundary_zero _, text ▸ boundary_append _ _⟩
  have wide : 0 < bytes (mark ++ rest ++ ['\n']) := by
    rw [bytes_append, bytes_append]
    have : 0 < bytes mark := by decide
    omega
  rw [edit, SourceTree.print, apply_replaced tree.text [.replaceRange 0 (bytes (mark ++ rest ++ ['\n'])) []] (by simp [Edit.replaceRange])
    (by simpa using valid) (List.pairwise_singleton _ _), text]
  have cut := replaced_range (.replaceRange 0 (bytes (mark ++ rest ++ ['\n'])) []) [] (by simp) (mark ++ rest ++ ['\n']) back wide
    (Nat.zero_add _)
  rw [replaced_nothing] at cut
  exact congrArg Except.ok cut

theorem opening_survives (text : Text) : mark ++ rest ++ ['\n'] <+: line.prepend text ↔ trimEnd rest = rest := by
  rw [opening_written tree line rest back opens text, List.append_assoc, List.append_assoc, List.prefix_append_right_inj]
  constructor
  · intro part
    have single : '\n' ∉ trimEnd rest := fun present => opens.single ((trim_end_part rest).subset present)
    exact (lines_agree rest (trimEnd rest) [] text opens.single single part).1.symm
  · intro same
    rw [same]
    exact ⟨text, by simp⟩

-- A `#!` line that is taken out and written back is the line as it was just if it does not end with blanks, such as the
-- carriage return of its line break: those are lost. The same holds of each run that removes something.
theorem first_line_returns :
    (∃ stripped, tree.print [line.strip tree] = .ok stripped ∧ stripped = back ∧
      (line.prepend stripped = tree.text ↔ trimEnd rest = rest)) ∧
    ∀ (options : Options) (out : Text), (tree.removeUnusedImports options).result = .ok (some out) →
      (∃ printed, out = mark ++ trimEnd rest ++ '\n' :: printed) ∧
        (mark ++ rest ++ ['\n'] <+: out ↔ trimEnd rest = rest) := by
  constructor
  · refine ⟨back, opening_stripped tree line rest back opens, rfl, ?_⟩
    rw [opening_written tree line rest back opens, opens.whole, List.append_left_inj, List.append_right_inj]
  · intro options out result
    obtain ⟨pruned, _, ⟨_, other⟩ | ⟨restored, printed, _, _, shape⟩⟩ := SourceTree.result_cases tree options (some out) result
    case inl => cases other
    have whole : out = line.prepend printed := by
      rw [Option.some.inj shape, SourceTree.withInterpreter, opens.found]
    rw [whole]
    exact ⟨⟨printed, opening_written tree line rest back opens printed⟩, opening_survives tree line rest back opens printed⟩

end Opening

open Node in
-- A line that ends with a carriage return and a line break.
def returnSample : SourceTree where
  path := "p.js".toList
  dialect := .javaScript
  text := "#!/bin/sh\r\nimport a from \x22a\x22;\nb();\n".toList
  root := rule "program" 0 35 [
        rule "hash_bang_line" 0 10 [],
        rule "import_statement" 11 29 [
          token "import" 11 17,
          rule "import_clause" 18 19 [rule "identifier" 18 19 []],
          token "from" 20 24,
          field "source" (rule "string" 25 28 [token "\x22" 25 26, rule "string_fragment" 26 27 [], token "\x22" 27 28]),
          token ";" 28 29],
        rule "expression_statement" 30 34 [
          rule "call_expression" 30 33 [
            field "function" (rule "identifier" 30 31 []),
            field "arguments" (rule "arguments" 31 33 [token "(" 31 32, token ")" 32 33])],
          token ";" 33 34]]

theorem carriage_return_lost :
    Opens SourceTree.importSample ⟨"/bin/sh".toList, 0, 9⟩ "/bin/sh".toList (SourceTree.importSample.text.drop 10) ∧
    (∃ out, (SourceTree.importSample.removeUnusedImports .default).result = .ok (some out) ∧ "#!/bin/sh\n".toList <+: out) ∧
    Opens returnSample ⟨"/bin/sh".toList, 0, 10⟩ "/bin/sh\r".toList (returnSample.text.drop 11) ∧
    (∃ out, (returnSample.removeUnusedImports .default).result = .ok (some out) ∧ ¬ "#!/bin/sh\r\n".toList <+: out ∧
      out = "#!/bin/sh\nb();\n".toList) := by
  have opens : Opens SourceTree.importSample ⟨"/bin/sh".toList, 0, 9⟩ "/bin/sh".toList (SourceTree.importSample.text.drop 10) :=
    ⟨by decide +kernel, rfl, by decide, by decide +kernel, by decide⟩
  have returns : Opens returnSample ⟨"/bin/sh".toList, 0, 10⟩ "/bin/sh\r".toList (returnSample.text.drop 11) :=
    ⟨by decide +kernel, rfl, by decide, by decide +kernel, by decide⟩
  have kept := SourceTree.ok_of_option (SourceTree.importSample.removeUnusedImports .default).result
    (some "#!/bin/sh\n// h\nimport b from \x22b\x22;\nb();\n".toList) (by decide +kernel)
  have lost := SourceTree.ok_of_option (returnSample.removeUnusedImports .default).result
    (some "#!/bin/sh\nb();\n".toList) (by decide +kernel)
  refine ⟨opens, ⟨_, kept, ?_⟩, returns, ⟨_, lost, ?_, rfl⟩⟩
  · exact ((first_line_returns _ _ _ _ opens).2 .default _ kept).2.mpr (by decide)
  · exact fun part => absurd (((first_line_returns _ _ _ _ returns).2 .default _ lost).2.mp part) (by decide)

end InterpreterLine

end ScriptTidy
