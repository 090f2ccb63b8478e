import ScriptTidy.Proofs.Text.Positions
import ScriptTidy.Proofs.Transform.Outermost
import ScriptTidy.Proofs.Transform.Untouched

/-! String literals are listed each once and in order, and are found again by line and column. -/

set_option autoImplicit false

namespace ScriptTidy

open Text Place

namespace StringLiteral

def isQuote (char : Char) : Bool := char == '\x22' || char == '\x27'

-- A text between two quotes of one kind.
def Quoted (text : Text) : Prop := ∃ quote value, isQuote quote = true ∧ text = quote :: (value ++ [quote])

-- By line, then by column.
def Precedes (first second : StringLiteral) : Prop :=
  first.line < second.line ∨ first.line = second.line ∧ first.column < second.column

theorem quoted_iff (text : Text) :
    (text.head?.any fun quote => isQuote quote && text.tail.getLast? == some quote) = true ↔ Quoted text := by
  simp only [Option.any_eq_true, Bool.and_eq_true, beq_iff_eq]
  constructor
  · rintro ⟨quote, first, known, last⟩
    obtain ⟨rest, rfl⟩ := List.head?_eq_some_iff.mp first
    obtain ⟨value, shape⟩ := List.getLast?_eq_some_iff.mp last
    exact ⟨quote, value, known, congrArg (quote :: ·) shape⟩
  · rintro ⟨quote, value, known, rfl⟩
    exact ⟨quote, rfl, known, by simp⟩

instance (text : Text) : Decidable (Quoted text) := decidable_of_iff _ (quoted_iff text)

-- What stands between the quotes may hold quotes, at its ends too.
theorem unquote_quoted (quote : Char) (value : Text) (known : isQuote quote = true) :
    unquote (quote :: (value ++ [quote])) = value := by
  have either : quote = '\x22' ∨ quote = '\x27' := by simpa [isQuote] using known
  rw [unquote, if_pos either, if_pos List.getLast?_concat, List.dropLast_concat]

end StringLiteral

namespace SourceTree

open StringLiteral

-- The place begins at the line and the column of the literal. There the text reads a quote, the value, and the same
-- quote again, and this is what the place covers.
structure Tells (tree : SourceTree) (place : Place) (literal : StringLiteral) : Prop where
  boundary : tree.text.IsBoundary (tree.text.offsetAt literal.line literal.column)
  start : tree.text.offsetAt literal.line literal.column = place.start
  reads : ∃ quote behind, isQuote quote = true ∧ tree.textOf place.node = quote :: (literal.value ++ [quote]) ∧
    tree.text.after (tree.text.offsetAt literal.line literal.column) = quote :: (literal.value ++ quote :: behind)

section Strings

variable (tree : SourceTree) (nested : tree.Nests)
  (apart : (tree.find "string").Pairwise fun first second => first.stop ≤ second.start ∨ second.stop ≤ first.start)
  (quoted : ∀ place ∈ tree.find "string", Quoted (tree.textOf place.node))

include nested quoted

theorem string_nested (place : Place) (member : place ∈ tree.find "string") :
    place.node.Nested tree.text ∧ place.start < place.stop := by
  have own := nested place (List.mem_of_mem_filter member)
  obtain ⟨quote, value, _, shape⟩ := quoted place member
  rw [text_of_nested tree place.node own] at shape
  have size := bytes_between tree.text _ _ own.first own.last own.ordered
  have wide := Char.utf8Size_pos quote
  rw [shape, bytes_cons] at size
  exact ⟨own, show place.node.start < place.node.stop by omega⟩

theorem string_told (place : Place) (member : place ∈ tree.find "string") :
    tree.Tells place ⟨unquote (tree.textOf place.node), (tree.text.position place.start).1, (tree.text.position place.start).2⟩ := by
  obtain ⟨own, _⟩ := string_nested tree nested quoted place member
  obtain ⟨quote, value, known, shape⟩ := quoted place member
  have back := offset_at_position tree.text place.start own.first
  refine ⟨back.symm ▸ own.first, back, quote, tree.text.after place.stop, known, ?_, ?_⟩
  · rw [shape, unquote_quoted quote value known]
  · have whole := between_append_after tree.text place.start place.stop own.first own.last own.ordered
    rw [back, ← whole, ← show tree.textOf place.node = tree.text.between place.start place.stop from
      text_of_nested tree place.node own, shape, unquote_quoted quote value known]
    simp

include apart

-- Strings do not lie in each other, since that would take a byte of both.
theorem strings_in_order : (tree.find "string").Pairwise fun first second => first.stop ≤ second.start := by
  refine (places_pairwise_apart tree nested _ List.filter_sublist fun first one second other below => ?_).imp fun given => given.2.2
  have inside := below_inside tree.text second first
    (nests_in_nested tree nested second ((mem_find_iff tree second _).mp other).1) below
  have wide := (string_nested tree nested quoted second other).2
  have deep := below_steps second first below
  have different : first ≠ second := fun same => Nat.lt_irrefl _ (same ▸ deep)
  rcases pairwise_either _ _ apart first second one other different with (before | after) | (before | after) <;> omega

theorem literals_in_order : tree.stringLiterals.Pairwise Precedes := by
  refine List.pairwise_map.mpr ((strings_in_order tree nested apart quoted).imp_of_mem fun {first second} one other behind => ?_)
  obtain ⟨own, wide⟩ := string_nested tree nested quoted first one
  obtain ⟨next, _⟩ := string_nested tree nested quoted second other
  exact position_increases tree.text first.start own.first second.start next.first (Nat.lt_of_lt_of_le wide behind)

end Strings

-- Every string is listed once, in the order of lines and columns, and each entry leads back to it; the file stays as it is.
theorem strings_located (tree : SourceTree) (nested : tree.Nests)
    (apart : (tree.find "string").Pairwise fun first second => first.stop ≤ second.start ∨ second.stop ≤ first.start)
    (quoted : ∀ place ∈ tree.find "string", Quoted (tree.textOf place.node)) :
    ((∀ place, place ∈ tree.find "string" ↔ place.root = tree.root ∧ place.kind = "string") ∧ (tree.find "string").Nodup) ∧
      List.Forall₂ tree.Tells (tree.find "string") tree.stringLiterals ∧ tree.stringLiterals.Pairwise Precedes ∧
      ∀ (parser : Parser Id) (options : Options) (file : SourceFile), (file.parse parser).run.result = .ok tree →
        (Transform.extractStrings.apply parser options file).run.result = .ok file.text := by
  refine ⟨⟨fun place => mem_find_iff tree place "string", ?_⟩, ?_, literals_in_order tree nested apart quoted,
    fun parser options file parsed => ?_⟩
  · refine (strings_in_order tree nested apart quoted).imp_of_mem fun {first second} one _ behind same => ?_
    have wide := (string_nested tree nested quoted first one).2
    rw [← same] at behind
    omega
  · exact List.forall₂_map_right_iff.mpr (List.forall₂_same.mpr (string_told tree nested quoted))
  · have applied : (Transform.extractStrings.apply parser options file).run = (file.parse parser).run.andThen extractStrings := rfl
    rw [applied, Report.andThen, parsed, ← parse_text parser file tree parsed]
    rfl

open Node in
-- A value that ends with a quote, behind a wide character, and one over two lines that holds quotes of the other kind.
def literalSample : SourceTree where
  path := "s.jsx".toList
  dialect := .jsx
  text := "const é = \x27a\x22b\\\x27\x27;\nx(<a b=\x221\n\x272\x27\x22/>);\n".toList
  root := rule "program" 0 39 [
    rule "lexical_declaration" 0 19 [
      field "kind" (token "const" 0 5),
      rule "variable_declarator" 6 18 [
        field "name" (rule "identifier" 6 8 []), token "=" 9 10,
        field "value" (rule "string" 11 18 [
          token "\x27" 11 12, rule "string_fragment" 12 15 [], rule "escape_sequence" 15 17 [], token "\x27" 17 18])],
      token ";" 18 19],
    rule "expression_statement" 20 38 [
      rule "call_expression" 20 37 [
        field "function" (rule "identifier" 20 21 []),
        field "arguments" (rule "arguments" 21 37 [
          token "(" 21 22,
          rule "jsx_self_closing_element" 22 36 [
            token "<" 22 23, field "name" (rule "identifier" 23 24 []),
            field "attribute" (rule "jsx_attribute" 25 34 [
              rule "property_identifier" 25 26 [], token "=" 26 27,
              rule "string" 27 34 [token "\x22" 27 28, rule "string_fragment" 28 33 [], token "\x22" 33 34]]),
            token "/>" 34 36],
          token ")" 36 37])],
      token ";" 37 38]]

theorem literal_sample_located : literalSample.Nests ∧
    ((literalSample.find "string").Pairwise fun first second => first.stop ≤ second.start ∨ second.stop ≤ first.start) ∧
    (∀ place ∈ literalSample.find "string", Quoted (literalSample.textOf place.node)) ∧
    literalSample.stringLiterals = [⟨"a\x22b\\\x27".toList, 1, 12⟩, ⟨"1\n\x272\x27".toList, 2, 8⟩] ∧
    List.Forall₂ literalSample.Tells (literalSample.find "string") literalSample.stringLiterals ∧
    literalSample.text.offsetAt 1 12 = 11 ∧ literalSample.text.offsetAt 2 8 = 27 := by
  have nested : literalSample.Nests := by decide +kernel
  have apart : (literalSample.find "string").Pairwise
      fun first second => first.stop ≤ second.start ∨ second.stop ≤ first.start := by decide +kernel
  have quoted : ∀ place ∈ literalSample.find "string", Quoted (literalSample.textOf place.node) := by decide +kernel
  have located := strings_located literalSample nested apart quoted
  exact ⟨nested, apart, quoted, by decide +kernel, located.2.1, by decide +kernel, by decide +kernel⟩

end SourceTree

end ScriptTidy
