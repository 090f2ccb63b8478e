import ScriptTidy.Proofs.Transform.Bodies

/-! One pass adds a guard to each body that it wraps, and changes nothing else that is visible. -/

set_option autoImplicit false

namespace ScriptTidy

open Text Place Edit Edits SourceTree

namespace Text

-- What is left of a text without its white space.
def unspaced (space : Char → Bool) (text : Text) : Text := text.filter fun char => !space char

theorem unspaced_append (space : Char → Bool) (front back : Text) :
    unspaced space (front ++ back) = unspaced space front ++ unspaced space back := List.filter_append _ _

theorem unspaced_cons (space : Char → Bool) (char : Char) (rest : Text) :
    unspaced space (char :: rest) = unspaced space [char] ++ unspaced space rest := unspaced_append space [char] rest

theorem unspaced_space (space : Char → Bool) (text : Text) (all : text.all space = true) : unspaced space text = [] :=
  List.filter_eq_nil_iff.mpr fun char member => by simpa using List.all_eq_true.mp all char member

end Text

-- The guard without white space: what stands behind the opening brace of a wrapped block, and in front of the closing one.
def guardFront : Text := "try\x7b".toList

def guardBack : Text := "\x7dcatch(err)\x7bconsole.error(err);\x7d".toList

def guardEdits (block : Node) : Edits := [insert (block.start + 1) guardFront, insert (block.stop - 1) guardBack]

section Guards

variable (space : Char → Bool) (blank : ∀ char, isBlank char = true → space char = true)

include blank

theorem unspaced_blank (text : Text) (all : text.all isBlank = true) : unspaced space text = [] :=
  unspaced_space space text (List.all_eq_true.mpr fun char member => blank char (List.all_eq_true.mp all char member))

theorem unspaced_indentation (text : Text) (indent : IsIndentation text) : unspaced space text = [] :=
  unspaced_blank space blank text (List.all_eq_true.mpr fun char member =>
    indent_blank char (List.all_eq_true.mp indent char member))

theorem guard_opening_unspaced (inner unit : Text) (first : IsIndentation inner) (second : IsIndentation unit) :
    unspaced space (guardOpening inner unit) = unspaced space ('\x7b' :: guardFront) := by
  have line := unspaced_blank space blank ['\n'] (by decide)
  have gap := unspaced_blank space blank [' '] (by decide)
  have shape : guardOpening inner unit = ['\x7b'] ++ (['\n'] ++ (inner ++ ("try".toList ++ ([' '] ++ (['\x7b'] ++ (['\n'] ++
      (inner ++ unit))))))) := by
    simp [guardOpening]
  have short : '\x7b' :: guardFront = ['\x7b'] ++ ("try".toList ++ ['\x7b']) := rfl
  rw [shape, short]
  simp only [unspaced_append, line, gap, unspaced_indentation space blank inner first, unspaced_indentation space blank unit second,
    List.nil_append, List.append_nil]

theorem guard_closing_unspaced (base inner unit : Text) (first : IsIndentation base) (second : IsIndentation inner)
    (third : IsIndentation unit) :
    unspaced space (guardClosing base inner unit) = unspaced space (guardBack ++ ['\x7d']) := by
  have line := unspaced_blank space blank ['\n'] (by decide)
  have gap := unspaced_blank space blank [' '] (by decide)
  have shape : guardClosing base inner unit = ['\n'] ++ (inner ++ (['\x7d'] ++ ([' '] ++ ("catch".toList ++ ([' '] ++ ("(err)".toList ++
      ([' '] ++ (['\x7b'] ++ (['\n'] ++ (inner ++ (unit ++ ("console.error(err);".toList ++ (['\n'] ++ (inner ++ (['\x7d'] ++
        (['\n'] ++ (base ++ ['\x7d']))))))))))))))))) := by
    simp [guardClosing]
  have short : guardBack ++ ['\x7d'] = ['\x7d'] ++ ("catch".toList ++ ("(err)".toList ++ (['\x7b'] ++ ("console.error(err);".toList ++
      (['\x7d'] ++ ['\x7d']))))) := rfl
  rw [shape, short]
  simp only [unspaced_append, line, gap, unspaced_indentation space blank base first, unspaced_indentation space blank inner second,
    unspaced_indentation space blank unit third, List.nil_append]

variable (tree : SourceTree)

-- A wrapped body is the body with its guard, if white space is left out.
theorem wrapped_body_unspaced (body : Place) (first last : Node) (head : body.node.namedChildren.head? = some first)
    (ending : body.node.namedChildren.getLast? = some last) (parts : BlockParts tree.text body.node first last)
    (gaps : (tree.text.between (body.node.start + 1) first.start).all space = true ∧
      (tree.text.between last.stop (body.node.stop - 1)).all space = true) :
    unspaced space (tree.wrappedBody body) = unspaced space ('\x7b' :: guardFront) ++
      (unspaced space (tree.text.between (body.node.start + 1) (body.node.stop - 1)) ++ unspaced space (guardBack ++ ['\x7d'])) := by
  have unit := tree.body_unit_indentation body first
  have base := tree.closing_indentation body
  have inner := tree.inner_indentation _ first base
  have statements := indented_filter (fun char => !space char) (tree.bodyUnit body first) _ _
    (unspaced_indentation space blank _ unit)
    (indent_lines_indented (tree.bodyUnit body first) body.node.templateRanges (tree.text.between first.start last.stop) first.start)
  have back : last.stop ≤ body.node.stop - 1 := Nat.le_sub_one_of_lt parts.back
  have front := between_append tree.text (body.node.start + 1) first.start (body.node.stop - 1) parts.opened.1 parts.start parts.closed.1
    parts.front (Nat.le_trans parts.ordered back)
  have middle := between_append tree.text first.start last.stop (body.node.stop - 1) parts.start parts.stop parts.closed.1 parts.ordered back
  have whole : unspaced space (tree.text.between (body.node.start + 1) (body.node.stop - 1)) =
      unspaced space (tree.text.between first.start last.stop) := by
    rw [← front, ← middle, unspaced_append, unspaced_append, unspaced_space space _ gaps.1, unspaced_space space _ gaps.2,
      List.nil_append, List.append_nil]
  rw [tree.wrapped_body_text body first last head ending parts.start parts.stop parts.ordered, unspaced_append, unspaced_append,
    bodyOpening, bodyClosing, guard_opening_unspaced space blank _ _ inner unit,
    guard_closing_unspaced space blank _ _ _ base inner unit, whole, List.append_assoc]
  exact congrArg (fun text => _ ++ (text ++ _)) statements

-- By induction on the bodies: each guard stands between the braces of its body.
theorem guards_spliced (bodies : List Place) (each : ∀ body ∈ bodies, body.InNested tree.text ∧ tree.BlockForm space body.node ∧
      body.node.namedChildren ≠ []) : ∀ cursor,
    tree.text.IsBoundary cursor → InOrder tree.text cursor (bodies.map fun body => replace body.node (tree.wrappedBody body)) →
      InOrder tree.text cursor (bodies.flatMap fun body => guardEdits body.node) ∧
        unspaced space (spliced tree.text tree.text.bytes cursor (bodies.map fun body => replace body.node (tree.wrappedBody body))) =
          unspaced space (spliced tree.text tree.text.bytes cursor (bodies.flatMap fun body => guardEdits body.node)) := by
  induction bodies with
  | nil => exact fun _ _ _ => ⟨trivial, rfl⟩
  | cons body rest ih =>
      intro cursor boundary ordered
      obtain ⟨early, ⟨forward, start, stop⟩, later⟩ := ordered
      obtain ⟨nested, form, filled⟩ := each body List.mem_cons_self
      obtain ⟨first, last, head, ending, parts⟩ := block_parts tree body nested form.toBraces filled
      obtain ⟨placed, same⟩ := ih (fun other member => each other (List.mem_cons_of_mem body member)) body.node.stop stop later
      have wrapped := wrapped_body_unspaced space blank tree body first last head ending parts
        (block_gaps tree space body nested form first last head ending)
      have inner : body.node.start + 1 ≤ body.node.stop - 1 :=
        Nat.le_trans parts.front (Nat.le_trans parts.ordered (Nat.le_sub_one_of_lt parts.back))
      have brace := between_append tree.text cursor body.node.start (body.node.start + 1) boundary start parts.opened.1 early (Nat.le_succ _)
      have final := spliced_from tree.text tree.text.bytes (body.node.stop - 1) body.node.stop _ parts.closed.1 stop (boundary_bytes _)
        (Nat.sub_le _ _) (boundary_le _ _ stop) placed
      refine ⟨⟨Nat.le_succ_of_le early, ⟨Nat.le_refl _, parts.opened.1, parts.opened.1⟩, inner,
        ⟨Nat.le_refl _, parts.closed.1, parts.closed.1⟩, in_order_sooner _ _ _ _ (Nat.sub_le _ _) placed⟩, ?_⟩
      show unspaced space (tree.text.between cursor body.node.start ++ tree.wrappedBody body ++
          spliced tree.text tree.text.bytes body.node.stop (rest.map fun body => replace body.node (tree.wrappedBody body))) =
        unspaced space (tree.text.between cursor (body.node.start + 1) ++ guardFront ++
          (tree.text.between (body.node.start + 1) (body.node.stop - 1) ++ guardBack ++
            spliced tree.text tree.text.bytes (body.node.stop - 1) (rest.flatMap fun body => guardEdits body.node)))
      rw [final, ← brace, parts.closed.2, parts.opened.2]
      simp only [unspaced_append, wrapped, same, List.append_assoc, unspaced_cons space '\x7b' guardFront]

end Guards

namespace SourceTree

-- White space apart, a pass puts a guard between the braces of each body that it wraps, and does nothing else. Lines of a
-- body are moved in at most, and the guard closes on a line of its own.
theorem pass_adds_guards (tree : SourceTree) (nested : tree.Nests) (space : Char → Bool)
    (blank : ∀ char, isBlank char = true → space char = true)
    (form : ∀ body ∈ tree.unwrappedBodies, tree.BlockForm space body.node) : ∃ out, tree.wrapPass = .ok out ∧
      unspaced space out = unspaced space (replaced (tree.unwrappedBodies.flatMap fun body => guardEdits body.node) 0 tree.text) ∧
      out = replaced (tree.unwrappedBodies.map fun body => replace body.node (tree.wrappedBody body)) 0 tree.text ∧
      ∀ body ∈ tree.unwrappedBodies, ∃ first ∈ body.node.namedChildren.head?, ∃ last ∈ body.node.namedChildren.getLast?,
        ∃ base inner unit statements, (IsIndentation base ∧ IsIndentation inner ∧ IsIndentation unit) ∧
          tree.wrappedBody body = guardOpening inner unit ++ statements ++ guardClosing base inner unit ∧
          Indented unit (tree.text.between first.start last.stop) statements := by
  have each : ∀ body ∈ tree.unwrappedBodies, body.InNested tree.text ∧ tree.BlockForm space body.node ∧ body.node.namedChildren ≠ [] :=
    fun body member => ⟨unwrapped_body_nested tree nested body member, form body member, unwrapped_body_filled tree body member⟩
  have ordered := bodies_in_order tree nested
  have start := boundary_zero tree.text
  obtain ⟨placed, same⟩ := guards_spliced space blank tree tree.unwrappedBodies each 0 start ordered
  rw [spliced_replaced tree.text _ 0 start ordered, spliced_replaced tree.text _ 0 start placed, after_zero] at same
  refine ⟨_, pass_replaces tree nested, same, rfl, fun body member => ?_⟩
  obtain ⟨within, _, filled⟩ := each body member
  obtain ⟨first, last, head, ending, parts⟩ := block_parts tree body within (form body member).toBraces filled
  have base := tree.closing_indentation body
  exact ⟨first, head, last, ending, _, _, _, _, ⟨base, tree.inner_indentation _ first base, tree.body_unit_indentation body first⟩,
    tree.wrapped_body_text body first last head ending parts.start parts.stop parts.ordered, indent_lines_indented _ _ _ _⟩

section Sample

open Node

-- A method in the middle of a line whose body ends with a comment, and a function that closes on the line of its statement.
def tightSample : SourceTree where
  path := "p.js".toList
  dialect := .javaScript
  text := "x = \x7b async m() \x7b a(); // 1\n\x7d \x7d;\nasync function g() \x7b\n\tc(); \x7d\n".toList
  root := rule "program" 0 62 [
    rule "expression_statement" 0 32 [
      rule "assignment_expression" 0 31 [
        field "left" (rule "identifier" 0 1 []), token "=" 2 3,
        field "right" (rule "object" 4 31 [
          token "\x7b" 4 5,
          rule "method_definition" 6 29 [
            token "async" 6 11, field "name" (rule "property_identifier" 12 13 []),
            field "parameters" (rule "formal_parameters" 13 15 [token "(" 13 14, token ")" 14 15]),
            field "body" (rule "statement_block" 16 29 [
              token "\x7b" 16 17,
              rule "expression_statement" 18 22 [
                rule "call_expression" 18 21 [
                  field "function" (rule "identifier" 18 19 []),
                  field "arguments" (rule "arguments" 19 21 [token "(" 19 20, token ")" 20 21])],
                token ";" 21 22],
              rule "comment" 23 27 [], token "\x7d" 28 29])],
          token "\x7d" 30 31])],
      token ";" 31 32],
    rule "function_declaration" 33 61 [
      token "async" 33 38, token "function" 39 47, field "name" (rule "identifier" 48 49 []),
      field "parameters" (rule "formal_parameters" 49 51 [token "(" 49 50, token ")" 50 51]),
      field "body" (rule "statement_block" 52 61 [
        token "\x7b" 52 53,
        rule "expression_statement" 55 59 [
          rule "call_expression" 55 58 [
            field "function" (rule "identifier" 55 56 []),
            field "arguments" (rule "arguments" 56 58 [token "(" 56 57, token ")" 57 58])],
          token ";" 58 59],
        token "\x7d" 60 61])]]

def tightWrapped : Text :=
  ("x = \x7b async m() \x7b\n        try \x7b\n          a(); // 1\n        \x7d catch (err) \x7b\n          console.error(err);\n" ++
    "        \x7d\n      \x7d \x7d;\nasync function g() \x7b\n\ttry \x7b\n\t\tc();\n\t\x7d catch (err) \x7b\n\t\tconsole.error(err);\n" ++
    "\t\x7d\n\x7d\n").toList

theorem tight_bodies_guarded : tightSample.Nests ∧ (∀ body ∈ tightSample.unwrappedBodies, tightSample.BlockForm isBlank body.node) ∧
    tightSample.wrapPass = .ok tightWrapped ∧ unspaced isBlank tightWrapped =
      ("x=\x7basyncm()\x7btry\x7ba();//1\x7dcatch(err)\x7bconsole.error(err);\x7d\x7d\x7d;asyncfunctiong()" ++
        "\x7btry\x7bc();\x7dcatch(err)\x7bconsole.error(err);\x7d\x7d").toList := by
  have nested : tightSample.Nests := nests_of_ordered tightSample (by decide +kernel) (by decide +kernel)
  have form : ∀ body ∈ tightSample.unwrappedBodies, tightSample.BlockForm isBlank body.node := by decide +kernel
  obtain ⟨out, done, guarded, shape, _⟩ := pass_adds_guards tightSample nested isBlank (fun _ blank => blank) form
  have printed : out = tightWrapped := by
    rw [shape]
    decide +kernel
  rw [printed] at done guarded
  refine ⟨nested, form, done, guarded.trans ?_⟩
  decide +kernel

end Sample

end SourceTree

end ScriptTidy
