import ScriptTidy.Proofs.Import.Fenced
import ScriptTidy.Proofs.Transform.ConsoleEdits
import ScriptTidy.Proofs.Transform.Untouched

/-! Which edits of the transforms cannot be applied together: those of an import that holds another one. -/

set_option autoImplicit false

namespace ScriptTidy.SourceTree

open Text Place Edit Edits

-- Removing imports fails just if an import that goes holds one that only loses some of its names. Then the fault names edits
-- that overlap; a clause in such an import is all that a removal reaches, grown or not. The other transforms never fail.
theorem conflicts_only_in_imports (tree : SourceTree) (grammar : tree.Grammatical) (options : Options) :
    (∃ pruned, tree.pruneAll (tree.candidates options) = .ok pruned ∧
      ((∃ answer, (tree.removeUnusedImports options).result = .ok answer) ↔ Untangled pruned) ∧
      (∀ fault, (tree.removeUnusedImports options).result = .error fault →
        ∃ first second, second < first ∧ fault = .overlappingEdits first second) ∧
      ∀ restored, tree.restoredHeader pruned = .ok restored → ∀ splice ∈ tree.pruneEdits pruned restored, splice.kind = .splice →
        (∃ inner ∈ pruned, inner.pruning = .rewritten splice ∧ ∃ outer ∈ pruned, outer.pruning.isRemoved = true ∧
          inner.declaration.statement.isWithin outer.declaration.statement = true) ∨
        ∀ removal ∈ (tree.pruneEdits pruned restored).prepared tree.text, removal.kind = .removal →
          removal.ClearOf splice.start splice.stop) ∧
    (∃ text, (tree.removeConsoleCalls options).result = .ok text) ∧ (∃ text, tree.varToLet.result = .ok text) ∧
    (∃ text, tree.wrapPass = .ok text) ∧
    (∀ body ∈ tree.unwrappedBodies, ∀ first others, body.node.namedChildren = first :: others →
      (tree.text.slice? first.start (others.getLast?.getD first).stop).isSome = true) ∧
    (tree.consoleCalls options).Pairwise Place.Apart ∧ tree.unwrappedBodies.Pairwise Place.Apart := by
  obtain ⟨pruned, done⟩ := prune_all_total tree grammar options
  refine ⟨⟨pruned, done, unused_imports_answer_iff tree options pruned grammar done,
      unused_imports_error tree options pruned grammar done, fun restored header => ?_⟩,
    console_calls_total tree options grammar, var_to_let_total tree grammar, wrap_pass_total tree grammar.toWellFormed,
    body_statements_some tree grammar.toWellFormed, outermost_apart tree grammar.toWellFormed _,
    outermost_apart tree grammar.toWellFormed _⟩
  exact splice_clear tree options pruned restored (mem_prune_edits tree options pruned restored done header) grammar done

open Node in
-- Something for each transform, one console call within another.
def mixedSample : SourceTree where
  path := "p.js".toList
  dialect := .javaScript
  text := "#!/bin/sh\n// h\nimport a from \x22a\x22;\nvar b = async () => \x7b f(b); \x7d;\nconsole.log(b, console.log(1)); // c\nb();\n".toList
  root := rule "program" 0 107 [
      rule "hash_bang_line" 0 9 [], rule "comment" 10 14 [],
      rule "import_statement" 15 33 [
        token "import" 15 21, rule "import_clause" 22 23 [rule "identifier" 22 23 []], token "from" 24 28,
        field "source" (rule "string" 29 32 [token "\x22" 29 30, rule "string_fragment" 30 31 [], token "\x22" 31 32]),
        token ";" 32 33],
      rule "variable_declaration" 34 64 [
        token "var" 34 37,
        rule "variable_declarator" 38 63 [
          field "name" (rule "identifier" 38 39 []), token "=" 40 41,
          field "value" (rule "arrow_function" 42 63 [
            token "async" 42 47,
            field "parameters" (rule "formal_parameters" 48 50 [token "(" 48 49, token ")" 49 50]), token "=>" 51 53,
            field "body" (rule "statement_block" 54 63 [
              token "\x7b" 54 55,
              rule "expression_statement" 56 61 [
                rule "call_expression" 56 60 [
                  field "function" (rule "identifier" 56 57 []),
                  field "arguments" (rule "arguments" 57 60 [token "(" 57 58, rule "identifier" 58 59 [], token ")" 59 60])],
                token ";" 60 61],
              token "\x7d" 62 63])])],
        token ";" 63 64],
      rule "expression_statement" 65 96 [
        rule "call_expression" 65 95 [
          field "function" (rule "member_expression" 65 76 [
            field "object" (rule "identifier" 65 72 []), token "." 72 73,
            field "property" (rule "property_identifier" 73 76 [])]),
          field "arguments" (rule "arguments" 76 95 [
            token "(" 76 77, rule "identifier" 77 78 [], token "," 78 79,
            rule "call_expression" 80 94 [
              field "function" (rule "member_expression" 80 91 [
                field "object" (rule "identifier" 80 87 []), token "." 87 88,
                field "property" (rule "property_identifier" 88 91 [])]),
              field "arguments" (rule "arguments" 91 94 [token "(" 91 92, rule "number" 92 93 [], token ")" 93 94])],
            token ")" 94 95])],
        token ";" 95 96],
      rule "comment" 97 101 [],
      rule "expression_statement" 102 106 [
        rule "call_expression" 102 105 [
          field "function" (rule "identifier" 102 103 []),
          field "arguments" (rule "arguments" 103 105 [token "(" 103 104, token ")" 104 105])],
        token ";" 105 106]]

open Node in
-- An import in the attributes of another one: the outer one goes, and the inner one is to keep a name.
def nestedSample : SourceTree where
  path := "p.js".toList
  dialect := .javaScript
  text := "import a from \x22a\x22 with \x7b f: function () \x7b import \x7b b, c \x7d from \x22b\x22; \x7d \x7d;\nc();\n".toList
  root := rule "program" 0 78 [
      rule "import_statement" 0 72 [
        token "import" 0 6,
        rule "import_clause" 7 8 [rule "identifier" 7 8 []],
        token "from" 9 13,
        field "source" (rule "string" 14 17 [token "\x22" 14 15, rule "string_fragment" 15 16 [], token "\x22" 16 17]),
        rule "import_attribute" 18 71 [
          token "with" 18 22,
          rule "object" 23 71 [
            token "\x7b" 23 24,
            rule "pair" 25 69 [
              field "key" (rule "property_identifier" 25 26 []),
              token ":" 26 27,
              field "value" (rule "function_expression" 28 69 [
                token "function" 28 36,
                field "parameters" (rule "formal_parameters" 37 39 [token "(" 37 38, token ")" 38 39]),
                field "body" (rule "statement_block" 40 69 [
                  token "\x7b" 40 41,
                  rule "import_statement" 42 67 [
                    token "import" 42 48,
                    rule "import_clause" 49 57 [
                      rule "named_imports" 49 57 [
                        token "\x7b" 49 50,
                        rule "import_specifier" 51 52 [field "name" (rule "identifier" 51 52 [])],
                        token "," 52 53,
                        rule "import_specifier" 54 55 [field "name" (rule "identifier" 54 55 [])],
                        token "\x7d" 56 57]],
                    token "from" 58 62,
                    field "source" (rule "string" 63 66 [
                      token "\x22" 63 64,
                      rule "string_fragment" 64 65 [],
                      token "\x22" 65 66]),
                    token ";" 66 67],
                  token "\x7d" 68 69])])],
            token "\x7d" 70 71]],
        token ";" 71 72],
      rule "expression_statement" 73 77 [
        rule "call_expression" 73 76 [
          field "function" (rule "identifier" 73 74 []),
          field "arguments" (rule "arguments" 74 76 [token "(" 74 75, token ")" 75 76])],
        token ";" 76 77]]

-- The ends that a fault names, if edits overlap.
def overlap? {α : Type} : Except Fault α → Option (Nat × Nat)
  | .error (.overlappingEdits first second) => some (first, second)
  | _ => none

theorem error_of_overlap {α : Type} (result : Except Fault α) (first second : Nat) (named : overlap? result = some (first, second)) :
    result = .error (.overlappingEdits first second) := by
  unfold overlap? at named
  split at named
  next => rw [(Prod.mk.inj (Option.some.inj named)).1, (Prod.mk.inj (Option.some.inj named)).2]
  next => cases named

theorem nested_sample_conflicts : mixedSample.Grammatical ∧ nestedSample.Grammatical ∧
    (∃ answer, (mixedSample.removeUnusedImports .default).result = .ok answer) ∧
    (∃ pruned, nestedSample.pruneAll (nestedSample.candidates .default) = .ok pruned ∧ ¬ Untangled pruned) ∧
    (nestedSample.removeUnusedImports .default).result = .error (.overlappingEdits 73 49) ∧
    (∃ text, (mixedSample.removeConsoleCalls .default).result = .ok text) ∧ (∃ text, mixedSample.varToLet.result = .ok text) ∧
    (∃ text, mixedSample.wrapPass = .ok text) ∧ (mixedSample.consoleCalls .default).length = 1 ∧
    mixedSample.unwrappedBodies.length = 1 := by
  have mixed : mixedSample.Grammatical := by decide +kernel
  have nested : nestedSample.Grammatical := by decide +kernel
  have fails := error_of_overlap (nestedSample.removeUnusedImports .default).result 73 49 (by decide +kernel)
  obtain ⟨⟨pruned, done, answers, _⟩, console, keywords, wrap, _⟩ := conflicts_only_in_imports mixedSample mixed .default
  obtain ⟨⟨tangled, found, possible, _⟩, _⟩ := conflicts_only_in_imports nestedSample nested .default
  refine ⟨mixed, nested, answers.mpr ?_, ⟨tangled, found, fun untangled => ?_⟩, fails, console, keywords, wrap, by decide +kernel,
    by decide +kernel⟩
  · have untangled : (mixedSample.pruneAll (mixedSample.candidates .default)).toOption.any (fun pruned => decide (Untangled pruned)) =
        true := by decide +kernel
    rw [done] at untangled
    exact of_decide_eq_true untangled
  · obtain ⟨answer, made⟩ := possible.mpr untangled
    cases fails.symm.trans made

end ScriptTidy.SourceTree
