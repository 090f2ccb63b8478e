import ScriptTidy.Proofs.Edit.Landed
import ScriptTidy.Proofs.Transform.WrapEdits
import ScriptTidy.Proofs.Transform.WrapSettles

/-! Wrapping and the literals of a file: which stand in the result as they are, however many passes it takes. -/

set_option autoImplicit false

namespace ScriptTidy

open Text Place Edit Edits

namespace Node

def isLiteral (node : Node) : Bool := node.label.named && (node.kind == "string" || node.kind == "template_string")

section Alike

variable (node other : Node) (same : other.unplaced = node.unplaced)

include same

theorem bare_alike : other.label.bare = node.label.bare := by
  rw [← unplaced_bare, same, unplaced_bare]

theorem kind_alike : other.kind = node.kind := congrArg Prod.fst (bare_alike node other same)

theorem literal_alike : other.isLiteral = node.isLiteral := by
  have named : other.label.named = node.label.named := congrArg (fun bare => bare.2.2) (bare_alike node other same)
  rw [isLiteral, isLiteral, named, kind_alike node other same]

end Alike

theorem literal_not_open (node : Node) (literal : node.isLiteral = true) : node.isOpenBlock = false := by
  have kind : node.kind ≠ "statement_block" := by
    intro block
    simp [isLiteral, block] at literal
  simp [isOpenBlock, kind]

-- The bodies in a node that is none itself do not depend on what is above it.
theorem bodies_closed (node : Node) (closed : node.isOpenBlock = false) (opened : Bool) : node.bodies opened = node.bodies false := by
  obtain ⟨label, children⟩ := node
  rw [bodies_mk, bodies_mk, closed, Bool.and_false, Bool.and_false]

end Node

theorem Place.settled_iff (place : Place) (closed : place.node.isOpenBlock = false) :
    (∀ lower ∈ place.descendants, lower.isUnwrappedBody = false) ↔ place.node.bodies false = 0 := by
  have count : place.descendants.countP (·.isUnwrappedBody) = place.node.bodies (Node.openedBy place.steps) :=
    (Node.count_places (·.isUnwrappedBody) place.steps place.node).trans (Node.fold_gather Node.countAt place.steps place.node)
  rw [← Node.bodies_closed place.node closed (Node.openedBy place.steps), ← count, List.countP_eq_zero]
  simp

namespace SourceTree

-- A template string, or a string that stands on one line.
structure Spared (tree : SourceTree) (place : Place) : Prop where
  present : place ∈ tree.places
  literal : place.node.isLiteral = true
  line : place.kind = "string" → '\n' ∉ tree.textOf place.node

-- A literal that no pass changes: no body in it is still to be wrapped.
structure Kept (tree : SourceTree) (place : Place) : Prop extends Spared tree place where
  settled : ∀ lower ∈ place.descendants, lower.isUnwrappedBody = false

-- Where a node stands in the tree of what a pass prints, if the pass does not touch it.
structure Lands (tree : SourceTree) (place other : Place) : Prop where
  same : other.node.unplaced = place.node.unplaced
  start : other.start = landed tree.text tree.passEdits place.start
  stop : other.stop = landed tree.text tree.passEdits place.start + (place.stop - place.start)

instance (tree : SourceTree) (place : Place) : Decidable (tree.Kept place) :=
  decidable_of_iff (place.root = tree.root ∧ place.node.isLiteral = true ∧ (place.kind = "string" → '\n' ∉ tree.textOf place.node) ∧
      ∀ lower ∈ place.descendants, lower.isUnwrappedBody = false)
    ⟨fun ⟨present, literal, line, settled⟩ => ⟨⟨(mem_places_iff tree place).mpr present, literal, line⟩, settled⟩,
      fun kept => ⟨(mem_places_iff tree place).mp kept.present, kept.literal, kept.line, kept.settled⟩⟩

instance (tree : SourceTree) (place other : Place) : Decidable (tree.Lands place other) :=
  decidable_of_iff (other.node.unplaced = place.node.unplaced ∧ other.start = landed tree.text tree.passEdits place.start ∧
      other.stop = landed tree.text tree.passEdits place.start + (place.stop - place.start))
    ⟨fun given => ⟨given.1, given.2.1, given.2.2⟩, fun lands => ⟨lands.same, lands.start, lands.stop⟩⟩

section Touched

variable (tree : SourceTree) (body : Place) (first last : Node) (edit : Edit)

-- A line that moves does not begin inside a string on one line: the line break in front of it would be in the string.
theorem line_outside (node : Node) (nested : node.Nested tree.text) (flat : '\n' ∉ tree.textOf node) (front back : Text)
    (shape : tree.text = front ++ '\n' :: back) :
    ¬ (node.start < bytes (front ++ ['\n']) ∧ bytes (front ++ ['\n']) < node.stop) := by
  rintro ⟨lower, upper⟩
  have size : bytes (front ++ ['\n']) = bytes front + 1 := by simp; rfl
  rw [size] at lower upper
  have parts : tree.text = front ++ (['\n'] ++ back) := shape
  have broken : tree.text.between (bytes front) (bytes front + 1) = ['\n'] := by
    rw [parts]
    exact between_parts front ['\n'] back
  have opened : tree.text.IsBoundary (bytes front) := parts ▸ boundary_append front _
  have closed : tree.text.IsBoundary (bytes front + 1) := parts ▸ boundary_middle front ['\n'] back
  have one := between_append tree.text node.start (bytes front) (bytes front + 1) nested.first opened closed
    (Nat.le_of_lt_succ lower) (Nat.le_succ _)
  have two := between_append tree.text node.start (bytes front + 1) node.stop nested.first closed nested.last
    (Nat.le_of_lt lower) (Nat.le_of_lt upper)
  rw [text_of_nested tree node nested, ← two, ← one, broken] at flat
  exact flat (by simp)

variable (touches : tree.TouchesBody body first last edit)

include touches

theorem touches_within (within : body.start ≤ first.start ∧ first.start ≤ last.stop ∧ last.stop ≤ body.stop) :
    body.start ≤ edit.start ∧ edit.stop ≤ body.stop := by
  obtain ⟨front, middle, back⟩ := within
  cases touches with
  | opening inner unit indents => exact ⟨Nat.le_refl _, Nat.le_trans middle back⟩
  | closing base inner unit indents => exact ⟨Nat.le_trans front middle, Nat.le_refl _⟩
  | line start unit indent inside broken outside => exact ⟨Nat.le_trans front inside.1, Nat.le_trans inside.2 back⟩

-- An edit of a body does not touch a literal among its statements.
theorem statement_clear (place : Place) (spared : tree.Spared place) (nested : place.node.Nested tree.text) (within : place.Within body)
    (among : first.start ≤ place.start ∧ place.stop ≤ last.stop) : edit.ClearOf place.start place.stop := by
  cases touches with
  | opening inner unit indents => exact .inr among.1
  | closing base inner unit indents => exact .inl among.2
  | line start unit indent inside broken outside =>
      have out : ¬ (place.start < start ∧ start < place.stop) := by
        by_cases template : place.kind = "template_string"
        · exact outside place (within_descendants place.steps place.node body within) template
        · have string : place.kind = "string" := by
            have literal := spared.literal
            have other : (place.node.kind == "template_string") = false := beq_false_of_ne template
            rw [Node.isLiteral, other, Bool.or_false, Bool.and_eq_true, beq_iff_eq] at literal
            exact literal.2
          obtain ⟨front, back, shape, rfl⟩ := broken
          exact line_outside tree place.node nested (spared.line string) front back shape
      show place.stop ≤ start ∨ start ≤ place.start
      omega

end Touched

section Pass

variable (tree : SourceTree) (nested : tree.Nests) (form : ∀ body ∈ tree.unwrappedBodies, tree.Braces body.node)

include nested form

-- What a pass does to a body touches no literal but those that hold the body: the others lie among its statements or apart
-- from it.
theorem spared_clear (place : Place) (spared : tree.Spared place) (body : Place) (listed : body ∈ tree.unwrappedBodies)
    (first last : Node) (head : body.node.namedChildren.head? = some first) (ending : body.node.namedChildren.getLast? = some last)
    (edit : Edit) (touches : tree.TouchesBody body first last edit) : edit.ClearOf place.start place.stop ∨ body.Within place := by
  have bodyRoot := mem_unwrapped_bodies tree body listed
  have root := (mem_places_iff tree place).mp spared.present
  have bodyNested := nests_in_nested tree nested body bodyRoot
  have placeNested := nests_in_nested tree nested place root
  obtain ⟨opening, final, start, finish, parts⟩ := block_parts tree body bodyNested (form body listed)
    (unwrapped_body_filled tree body listed)
  obtain rfl := Option.some.inj (start.symm.trans head)
  obtain rfl := Option.some.inj (finish.symm.trans ending)
  by_cases above : body.Within place
  · exact .inr above
  by_cases inside : place.Within body
  · have below : place.Below body := inside.resolve_left fun same => above (.inl same.symm)
    have named : place.node.label.named = true := (Bool.and_eq_true_iff.mp spared.literal).1
    exact .inl (statement_clear tree body opening final edit touches place spared (nested place spared.present) inside
      (below_statements tree body bodyNested (form body listed) opening final head ending place below named))
  · obtain ⟨lower, upper⟩ := touches_within tree body opening final edit touches
      ⟨Nat.le_trans (Nat.le_succ _) parts.front, parts.ordered, Nat.le_trans (Nat.le_succ _) parts.back⟩
    rcases unrelated_cases place body (root.trans bodyRoot.symm) inside above with
      ⟨left, right, earlier, one, other⟩ | ⟨left, right, earlier, one, other⟩
    · have before := within_apart tree.text place body left right placeNested bodyNested earlier one other
      exact .inl (.inl (Nat.le_trans before lower))
    · have behind := within_apart tree.text body place left right bodyNested placeNested earlier one other
      exact .inl (.inr (Nat.le_trans upper behind))

theorem kept_clear (place : Place) (kept : tree.Kept place) (edit : Edit) (member : edit ∈ tree.passEdits) :
    edit.ClearOf place.start place.stop := by
  obtain ⟨body, listed, first, head, last, ending, touches⟩ := pass_edits_touch tree nested form edit member
  refine (spared_clear tree nested form place kept.toSpared body listed first last head ending edit touches).resolve_right fun inside => ?_
  have wanted := ((mem_outermost_iff _ _ _).mp listed).2.1
  have still := kept.settled body (within_descendants body.steps body.node place inside)
  exact Bool.noConfusion (wanted.symm.trans still)

variable (next : SourceTree) (printed : next.text = spliced tree.text tree.text.bytes 0 tree.passEdits) (after : next.Nests)

include printed after

-- A literal that is read again where its bytes have come to is kept with its text.
theorem kept_lands (place other : Place) (kept : tree.Kept place) (present : other ∈ next.places) (lands : tree.Lands place other) :
    next.Kept other ∧ next.textOf other.node = tree.textOf place.node := by
  have own := nested place kept.present
  have ordered := (pass_spliced tree nested form).1
  obtain ⟨front, back, shape, start, stop⟩ := landed_text tree.text tree.passEdits ordered place.start place.stop own.first own.last
    own.ordered (kept_clear tree nested form place kept)
  have text : next.textOf other.node = tree.textOf place.node := by
    have first : other.node.start = _ := lands.start.trans start.symm
    have last : other.node.stop = _ := lands.stop.trans stop.symm
    rw [text_of_nested next other.node (after other present), text_of_nested tree place.node own, first, last, printed, shape,
      between_parts]
    rfl
  have literal : other.node.isLiteral = true := (Node.literal_alike place.node other.node lands.same).trans kept.literal
  have kind : other.kind = place.kind := Node.kind_alike place.node other.node lands.same
  have count : other.node.bodies false = place.node.bodies false := by
    rw [← Node.bodies_unplaced, lands.same, Node.bodies_unplaced]
  have none := (settled_iff place (Node.literal_not_open _ kept.literal)).mp kept.settled
  exact ⟨⟨⟨present, literal, fun string => text ▸ kept.line (kind ▸ string)⟩,
    (settled_iff other (Node.literal_not_open _ literal)).mpr (count.trans none)⟩, text⟩

end Pass

-- Literals that stand one behind another stand in the text in this order.
theorem kept_in_turn (tree : SourceTree) (nested : tree.Nests) (places : List Place) (kept : ∀ place ∈ places, tree.Kept place)
    (apart : places.Pairwise fun first second => first.stop ≤ second.start) :
    InTurn (places.map fun place => tree.textOf place.node) tree.text := by
  obtain ⟨ranges, texts⟩ := node_ranges tree Place.node places 0 tree.text.bytes apart fun place member =>
    have own := nested place (kept place member).present
    ⟨own, Nat.zero_le _, boundary_le tree.text _ own.last⟩
  have whole := spliced_in_turn tree.text _ (boundary_bytes tree.text) _ 0 [] (boundary_zero tree.text) trivial ranges
    fun _ _ _ none => absurd none List.not_mem_nil
  rwa [spliced, between_zero, before_bytes, ← texts] at whole

end SourceTree

namespace Wrapping

open SourceTree

-- A grammar that finds braces around each body, and that reads a literal again, where its bytes have come to, if a pass
-- does not touch it.
structure ReadsLiterals (grammar : Dialect → Text → Parsed) (path : Path) (dialect : Dialect) (start : Text) : Prop where
  braces : ∀ text, PassedTo grammar path dialect start text → ∀ body ∈ (treeOf grammar path dialect text).unwrappedBodies,
    (treeOf grammar path dialect text).Braces body.node
  again : ∀ text next, PassedTo grammar path dialect start text → Prints grammar path dialect text next →
    ∀ place ∈ (treeOf grammar path dialect text).places, place.node.isLiteral = true →
      (∀ edit ∈ (treeOf grammar path dialect text).passEdits, edit.ClearOf place.start place.stop) →
      ∃ other ∈ (treeOf grammar path dialect next).places, (treeOf grammar path dialect text).Lands place other

section Run

variable {grammar : Dialect → Text → Parsed} {path : Path} {dialect : Dialect} {start : Text}
  (nested : ∀ text, PassedTo grammar path dialect start text → (treeOf grammar path dialect text).Nests)
  (reads : ReadsLiterals grammar path dialect start)

include nested reads

theorem prints_spliced {text next : Text} (reached : PassedTo grammar path dialect start text)
    (printed : Prints grammar path dialect text next) :
    InOrder text 0 (treeOf grammar path dialect text).passEdits ∧
      next = spliced text text.bytes 0 (treeOf grammar path dialect text).passEdits := by
  obtain ⟨ordered, done⟩ := pass_spliced _ (nested text reached) (reads.braces text reached)
  exact ⟨ordered, Except.ok.inj (printed.2.symm.trans done)⟩

-- One pass: the kept literals of a tree are kept literals of the next one, with the same texts, in the same order.
theorem kept_step {text next : Text} (reached : PassedTo grammar path dialect start text)
    (printed : Prints grammar path dialect text next) (places : List Place)
    (kept : ∀ place ∈ places, (treeOf grammar path dialect text).Kept place)
    (apart : places.Pairwise fun first second => first.stop ≤ second.start) :
    ∃ others : List Place, (∀ other ∈ others, (treeOf grammar path dialect next).Kept other) ∧
      (others.Pairwise fun first second => first.stop ≤ second.start) ∧
      (others.map fun other => (treeOf grammar path dialect next).textOf other.node) =
        places.map fun place => (treeOf grammar path dialect text).textOf place.node := by
  have before := nested text reached
  have form := reads.braces text reached
  obtain ⟨ordered, shape⟩ := prints_spliced nested reads reached printed
  have clear := fun place member => kept_clear _ before form place (kept place member)
  have found : ∀ place ∈ places, ∃ other ∈ (treeOf grammar path dialect next).places,
      (treeOf grammar path dialect text).Lands place other := fun place member =>
    reads.again text next reached printed place (kept place member).present (kept place member).literal (clear place member)
  choose! moved present lands using found
  have carried := fun place member => kept_lands _ before form (treeOf grammar path dialect next) shape
    (nested next (reached.tail printed)) place (moved place) (kept place member) (present place member) (lands place member)
  refine ⟨places.map moved, fun other member => ?_, List.pairwise_map.mpr (apart.imp_of_mem fun {one other} first second behind => ?_), ?_⟩
  · obtain ⟨place, listed, rfl⟩ := List.mem_map.mp member
    exact (carried place listed).1
  · have own := before one (kept one first).present
    have later := before other (kept other second).present
    rw [(lands one first).stop, (lands other second).start]
    exact landed_behind text _ ordered one.start one.stop own.first own.last own.ordered (clear one first) other.start later.first behind
  · rw [List.map_map]
    exact List.map_congr_left fun place member => (carried place member).2

-- By induction on the passes.
theorem kept_run {text : Text} (reached : PassedTo grammar path dialect start text) (places : List Place)
    (kept : ∀ place ∈ places, (treeOf grammar path dialect start).Kept place)
    (apart : places.Pairwise fun first second => first.stop ≤ second.start) :
    ∃ others : List Place, (∀ other ∈ others, (treeOf grammar path dialect text).Kept other) ∧
      (others.Pairwise fun first second => first.stop ≤ second.start) ∧
      (others.map fun other => (treeOf grammar path dialect text).textOf other.node) =
        places.map fun place => (treeOf grammar path dialect start).textOf place.node := by
  induction reached with
  | refl => exact ⟨places, kept, apart, rfl⟩
  | tail earlier printed ih =>
      obtain ⟨others, still, order, texts⟩ := ih
      obtain ⟨more, keptMore, orderMore, same⟩ := kept_step nested reads earlier printed others still order
      exact ⟨more, keptMore, orderMore, same.trans texts⟩

end Run

-- The transform gives a text to which passes lead. In each such text the kept literals of the file stand as they are and in
-- their order. A pass does no more to the bodies that it wraps than to put guards around their statements and to move in lines
-- that begin in no template string, and it touches no literal, but for strings with a line break and literals that hold such
-- a body.
theorem wrapping_keeps_literals (grammar : Dialect → Text → Parsed) (options : Options) (file : SourceFile) (dialect : Dialect)
    (known : Dialect.ofPath? file.path = some dialect) (reparses : Reparses grammar file.path dialect file.text)
    (reads : ReadsLiterals grammar file.path dialect file.text) :
    let tree := treeOf grammar file.path dialect
    let passed := PassedTo grammar file.path dialect file.text
    (∃ out, ((Transform.wrapAsyncBodies.apply (recorded grammar) options file).run []).1.result = .ok out ∧ passed out) ∧
      (∀ text, passed text → ∀ places : List Place, (∀ place ∈ places, (tree file.text).Kept place) →
        (places.Pairwise fun first second => first.stop ≤ second.start) →
          InTurn (places.map fun place => (tree file.text).textOf place.node) text) ∧
      ∀ text next, passed text → Prints grammar file.path dialect text next →
        InOrder text 0 (tree text).passEdits ∧ next = spliced text text.bytes 0 (tree text).passEdits ∧
          ∀ edit ∈ (tree text).passEdits, ∃ body ∈ (tree text).unwrappedBodies, ∃ first ∈ body.node.namedChildren.head?,
            ∃ last ∈ body.node.namedChildren.getLast?, (tree text).TouchesBody body first last edit ∧
              ∀ place, (tree text).Spared place → edit.ClearOf place.start place.stop ∨ body.Within place := by
  intro tree passed
  refine ⟨?_, fun text reached places kept apart => ?_, fun text next reached printed => ?_⟩
  · obtain ⟨_, last, passes, ran⟩ := wrap_async_bodies_settles reparses known .refl
    have applied : (Transform.wrapAsyncBodies.apply (recorded grammar) options file).run [] = _ := ran
    exact ⟨last, by rw [applied], passes.reached⟩
  · obtain ⟨others, still, order, texts⟩ := kept_run reparses.nested reads reached places kept apart
    have placed := kept_in_turn (tree text) (reparses.nested text reached) others still order
    exact texts ▸ placed
  · obtain ⟨ordered, shape⟩ := prints_spliced reparses.nested reads reached printed
    have nested := reparses.nested text reached
    have form := reads.braces text reached
    refine ⟨ordered, shape, fun edit member => ?_⟩
    obtain ⟨body, listed, first, head, last, ending, touches⟩ := pass_edits_touch _ nested form edit member
    exact ⟨body, listed, first, head, last, ending, touches, fun place spared =>
      spared_clear _ nested form place spared body listed first last head ending edit touches⟩

section Sample

open Node

-- A string with a template string that spans two lines.
def sampleSum (start : Nat) : Node :=
  rule "expression_statement" start (start + 12) [
    rule "binary_expression" start (start + 11) [
      field "left" (rule "string" start (start + 3) [
        token "\x22" start (start + 1), rule "string_fragment" (start + 1) (start + 2) [], token "\x22" (start + 2) (start + 3)]),
      field "operator" (token "+" (start + 4) (start + 5)),
      field "right" (rule "template_string" (start + 6) (start + 11) [
        token "`" (start + 6) (start + 7), rule "string_fragment" (start + 7) (start + 10) [],
        token "`" (start + 10) (start + 11)])],
    token ";" (start + 11) (start + 12)]

def quotedText : Text :=
  ["async function* f() \x7b\n", "  const h = async () => \x7b \x22s\x22 + `p\nq`; \x7d;\n", "\x7d\n"].flatMap String.toList

def halfQuotedText : Text :=
  ["async function* f() \x7b\n", "  try \x7b\n", "    const h = async () => \x7b \x22s\x22 + `p\nq`; \x7d;\n",
    "  \x7d catch (err) \x7b\n", "    console.error(err);\n", "  \x7d\n", "\x7d\n"].flatMap String.toList

def guardedQuotedText : Text :=
  ["async function* f() \x7b\n", "  try \x7b\n", "    const h = async () => \x7b\n", "      try \x7b\n",
    "        \x22s\x22 + `p\nq`;\n", "      \x7d catch (err) \x7b\n", "        console.error(err);\n", "      \x7d\n",
    "    \x7d;\n", "  \x7d catch (err) \x7b\n", "    console.error(err);\n", "  \x7d\n", "\x7d\n"].flatMap String.toList

def quotedGrammar (_ : Dialect) (text : Text) : Parsed :=
  if text = quotedText then sampleProgram 65 (sampleArrow 24 62 (sampleSum 48))
  else if text = halfQuotedText then sampleProgram 121 (sampleTry 24 77 4 2 (sampleArrow 34 72 (sampleSum 58)))
  else if text = guardedQuotedText then
    sampleProgram 203 (sampleTry 24 159 4 2 (sampleArrow 34 154 (sampleTry 64 98 8 6 (sampleSum 78))))
  else ⟨true, rule "ERROR" 0 0 []⟩

theorem quoted_sample_prints : Prints quotedGrammar "f.js".toList .javaScript quotedText halfQuotedText ∧
    Prints quotedGrammar "f.js".toList .javaScript halfQuotedText guardedQuotedText := by
  have deep : ∀ text ∈ [quotedText, halfQuotedText], (treeOf quotedGrammar "f.js".toList .javaScript text).root.depth false ≠ 0 := by
    decide +kernel
  have pending (text : Text) (member : text ∈ [quotedText, halfQuotedText]) :
      (treeOf quotedGrammar "f.js".toList .javaScript text).unwrappedBodies ≠ [] := fun none =>
    deep text member ((unwrapped_bodies_empty_iff _).mp none)
  exact ⟨⟨pending _ (by simp), ok_of_option _ _ (by decide +kernel)⟩, ⟨pending _ (by simp), ok_of_option _ _ (by decide +kernel)⟩⟩

theorem quoted_sample_flat : (quotedGrammar .javaScript guardedQuotedText).root.depth false = 0 := by decide +kernel

theorem quoted_sample_reparses : Reparses quotedGrammar "f.js".toList .javaScript quotedText := by
  have narrow : ∀ text ∈ [quotedText, halfQuotedText, guardedQuotedText], text.IsNarrow ∧
      ∀ place ∈ (treeOf quotedGrammar "f.js".toList .javaScript text).places, place.node.Ordered text.length := by decide +kernel
  refine reparses_twice quotedGrammar "f.js".toList .javaScript _ _ _ quoted_sample_prints.1.2 quoted_sample_prints.2.2
    quoted_sample_flat ?_ (fun text member => ?_) ?_
  · decide +kernel
  · exact nests_of_ordered _ (narrow text member).1 (narrow text member).2
  · decide +kernel

theorem quoted_sample_reads : ReadsLiterals quotedGrammar "f.js".toList .javaScript quotedText where
  braces text passed := by
    have all : ∀ text ∈ [quotedText, halfQuotedText, guardedQuotedText],
        ∀ body ∈ (treeOf quotedGrammar "f.js".toList .javaScript text).unwrappedBodies,
          (treeOf quotedGrammar "f.js".toList .javaScript text).Braces body.node := by decide +kernel
    exact all text (passed_twice quotedGrammar "f.js".toList .javaScript _ _ _ quoted_sample_prints.1.2 quoted_sample_prints.2.2
      quoted_sample_flat text passed).1
  again text next passed printed place present literal _ := by
    have all : ∀ pair ∈ [(quotedText, halfQuotedText), (halfQuotedText, guardedQuotedText)],
        ∀ place ∈ (treeOf quotedGrammar "f.js".toList .javaScript pair.1).places, place.node.isLiteral = true →
          ∃ other ∈ (treeOf quotedGrammar "f.js".toList .javaScript pair.2).places,
            (treeOf quotedGrammar "f.js".toList .javaScript pair.1).Lands place other := by decide +kernel
    have pair := (passed_twice quotedGrammar "f.js".toList .javaScript _ _ _ quoted_sample_prints.1.2 quoted_sample_prints.2.2
      quoted_sample_flat text passed).2 next printed
    exact all (text, next) pair place present literal

-- Two passes over a body in a body: the second line of the template string stays where it is.
theorem quoted_sample_kept : Reparses quotedGrammar "f.js".toList .javaScript quotedText ∧
    ReadsLiterals quotedGrammar "f.js".toList .javaScript quotedText ∧
    InTurn ["\x22s\x22".toList, "`p\nq`".toList] guardedQuotedText := by
  have passed : PassedTo quotedGrammar "f.js".toList .javaScript quotedText guardedQuotedText :=
    (Relation.ReflTransGen.single quoted_sample_prints.1).tail quoted_sample_prints.2
  obtain ⟨_, kept, _⟩ := wrapping_keeps_literals quotedGrammar .default ⟨"f.js".toList, quotedText⟩ .javaScript (by decide +kernel)
    quoted_sample_reparses quoted_sample_reads
  have literals := kept _ passed ((treeOf quotedGrammar "f.js".toList .javaScript quotedText).places.filter (·.node.isLiteral))
    (by decide +kernel) (by decide +kernel)
  have texts : ((treeOf quotedGrammar "f.js".toList .javaScript quotedText).places.filter (·.node.isLiteral)).map
      (fun place => (treeOf quotedGrammar "f.js".toList .javaScript quotedText).textOf place.node) =
        ["\x22s\x22".toList, "`p\nq`".toList] := by decide +kernel
  rw [texts] at literals
  exact ⟨quoted_sample_reparses, quoted_sample_reads, literals⟩

-- A function in a template string.
def sampleTemplate (start stop : Nat) (statement : Node) : Node :=
  rule "expression_statement" start (stop + 3) [
    rule "template_string" start (stop + 2) [
      token "`" start (start + 1),
      rule "template_substitution" (start + 1) (stop + 1) [
        token "$\x7b" (start + 1) (start + 3),
        rule "arrow_function" (start + 3) stop [
          token "async" (start + 3) (start + 8),
          field "parameters" (rule "formal_parameters" (start + 9) (start + 11) [
            token "(" (start + 9) (start + 10), token ")" (start + 10) (start + 11)]),
          token "=>" (start + 12) (start + 14), sampleBlock (start + 15) stop statement],
        token "\x7d" stop (stop + 1)],
      token "`" (stop + 1) (stop + 2)],
    token ";" (stop + 2) (stop + 3)]

def liveText : Text :=
  ["async function* f() \x7b\n", "  `$\x7basync () => \x7b await g(); \x7d\x7d`;\n", "\x7d\n"].flatMap String.toList

def halfLiveText : Text :=
  ["async function* f() \x7b\n", "  try \x7b\n", "    `$\x7basync () => \x7b await g(); \x7d\x7d`;\n",
    "  \x7d catch (err) \x7b\n", "    console.error(err);\n", "  \x7d\n", "\x7d\n"].flatMap String.toList

def guardedLiveText : Text :=
  ["async function* f() \x7b\n", "  try \x7b\n", "    `$\x7basync () => \x7b\n", "      try \x7b\n",
    "        await g();\n", "      \x7d catch (err) \x7b\n", "        console.error(err);\n", "      \x7d\n",
    "    \x7d\x7d`;\n", "  \x7d catch (err) \x7b\n", "    console.error(err);\n", "  \x7d\n", "\x7d\n"].flatMap String.toList

def liveGrammar (_ : Dialect) (text : Text) : Parsed :=
  if text = liveText then sampleProgram 58 (sampleTemplate 24 53 (sampleCall 41))
  else if text = halfLiveText then sampleProgram 114 (sampleTry 24 70 4 2 (sampleTemplate 34 63 (sampleCall 51)))
  else if text = guardedLiveText then
    sampleProgram 196 (sampleTry 24 152 4 2 (sampleTemplate 34 145 (sampleTry 57 89 8 6 (sampleCall 71))))
  else ⟨true, rule "ERROR" 0 0 []⟩

-- The body in a template string is wrapped by the second pass, so the template string is not what it was.
theorem live_template_changes :
    (∀ text ∈ [liveText, halfLiveText, guardedLiveText], (treeOf liveGrammar "f.js".toList .javaScript text).WellFormed) ∧
      ((Transform.wrapAsyncBodies.apply (recorded liveGrammar) .default ⟨"f.js".toList, liveText⟩).run []).1.result =
        .ok guardedLiveText ∧
      ∃ body ∈ (treeOf liveGrammar "f.js".toList .javaScript liveText).unwrappedBodies, ∃ template ∈ body.descendants,
        template.kind = "template_string" ∧
          ¬ (treeOf liveGrammar "f.js".toList .javaScript liveText).textOf template.node <:+: guardedLiveText := by
  have valid : ∀ text ∈ [liveText, halfLiveText, guardedLiveText],
      (treeOf liveGrammar "f.js".toList .javaScript text).WellFormed := by decide +kernel
  have changed : ∃ body ∈ (treeOf liveGrammar "f.js".toList .javaScript liveText).unwrappedBodies,
      ∃ template ∈ body.descendants, template.kind = "template_string" ∧
        ¬ (treeOf liveGrammar "f.js".toList .javaScript liveText).textOf template.node <:+: guardedLiveText := by decide +kernel
  exact ⟨valid, ok_of_option _ _ (by decide +kernel), changed⟩

end Sample

end Wrapping

end ScriptTidy
