import Mathlib.Logic.Relation
import ScriptTidy.Proofs.Transform.Outermost
import ScriptTidy.Proofs.Transform.Untouched
import ScriptTidy.Proofs.Transform.Wrapped
import ScriptTidy.Transform.Kind

/-! Wrapping takes a pass for each level of bodies, wraps each body once, and has nothing left to do in the end. -/

set_option autoImplicit false

namespace ScriptTidy.Wrapping

-- A grammar that answers by the text alone, with a note of the texts it was asked for.
def recorded (grammar : Dialect → Text → Parsed) : Parser (StateM (List Text)) :=
  fun dialect text => modifyGet fun asked => (grammar dialect text, asked ++ [text])

theorem run_then {σ α β : Type} {first : StateM σ α} {state next : σ} {result : α} (ran : first.run state = (result, next))
    (second : α → StateM σ β) : (first >>= second).run state = (second result).run next :=
  congrArg (fun pair : α × σ => (second pair.1).run pair.2) ran

section Passes

variable (grammar : Dialect → Text → Parsed) (path : Path) (dialect : Dialect)

def treeOf (text : Text) : SourceTree := ⟨path, dialect, text, (grammar dialect text).root⟩

-- One pass that has something to wrap.
def Prints (text next : Text) : Prop :=
  (treeOf grammar path dialect text).unwrappedBodies ≠ [] ∧ (treeOf grammar path dialect text).wrapPass = .ok next

-- The texts that passes lead to.
abbrev PassedTo : Text → Text → Prop := Relation.ReflTransGen (Prints grammar path dialect)

-- What a pass prints is accepted, and its tree is the one before it, up to offsets, with the replaced bodies guarded.
structure Reparses (start : Text) : Prop where
  accepted : ∀ text, PassedTo grammar path dialect start text → (grammar dialect text).hasError = false
  nested : ∀ text, PassedTo grammar path dialect start text → (treeOf grammar path dialect text).Nests
  guarded : ∀ text next, PassedTo grammar path dialect start text → Prints grammar path dialect text next →
    (grammar dialect next).root.unplaced = ((grammar dialect text).root.guardWhere (·.isOuterBody)).unplaced

theorem unwrapped_bodies_outer (tree : SourceTree) : tree.unwrappedBodies = tree.places.filter (·.isOuterBody) := by
  rw [SourceTree.unwrappedBodies, Place.outermost, List.filter_filter]
  exact List.filter_congr fun place _ => Bool.and_comm _ _

theorem unwrapped_bodies_length (tree : SourceTree) : tree.unwrappedBodies.length = tree.root.outerBodies false := by
  rw [unwrapped_bodies_outer, ← List.countP_eq_length_filter]
  exact Node.count_outer tree.root

theorem unwrapped_bodies_empty_iff (tree : SourceTree) : tree.unwrappedBodies = [] ↔ tree.root.depth false = 0 := by
  rw [← List.length_eq_zero_iff, unwrapped_bodies_length]
  exact Node.outer_bodies_zero_iff tree.root false

section Twice

variable (first second third : Text) (one : (treeOf grammar path dialect first).wrapPass = .ok second)
  (two : (treeOf grammar path dialect second).wrapPass = .ok third) (flat : (grammar dialect third).root.depth false = 0)

include one two flat

-- Where the second of two passes leaves no body to wrap, there is nothing but these passes.
theorem passed_twice (text : Text) (passed : PassedTo grammar path dialect first text) : text ∈ [first, second, third] ∧
    ∀ next, Prints grammar path dialect text next → (text, next) ∈ [(first, second), (second, third)] := by
  have pairs (text : Text) (listed : text ∈ [first, second, third]) (next : Text) (printed : Prints grammar path dialect text next) :
      (text, next) ∈ [(first, second), (second, third)] := by
    simp only [List.mem_cons, List.not_mem_nil, or_false, Prod.mk.injEq] at listed ⊢
    rcases listed with rfl | rfl | rfl
    · exact .inl ⟨rfl, Except.ok.inj (printed.2.symm.trans one)⟩
    · exact .inr ⟨rfl, Except.ok.inj (printed.2.symm.trans two)⟩
    · exact absurd ((unwrapped_bodies_empty_iff _).mpr flat) printed.1
  induction passed with
  | refl => exact ⟨List.mem_cons_self, pairs first List.mem_cons_self⟩
  | tail _ printed ih =>
      have pair := ih.2 _ printed
      simp only [List.mem_cons, List.not_mem_nil, or_false, Prod.mk.injEq] at pair
      rcases pair with ⟨_, rfl⟩ | ⟨_, rfl⟩
      · exact ⟨by simp, pairs _ (by simp)⟩
      · exact ⟨by simp, pairs _ (by simp)⟩

theorem reparses_twice (accepted : ∀ text ∈ [first, second, third], (grammar dialect text).hasError = false)
    (nested : ∀ text ∈ [first, second, third], (treeOf grammar path dialect text).Nests)
    (guarded : ∀ pair ∈ [(first, second), (second, third)],
      (grammar dialect pair.2).root.unplaced = ((grammar dialect pair.1).root.wrapOuter false).unplaced) :
    Reparses grammar path dialect first where
  accepted text passed := accepted text (passed_twice grammar path dialect first second third one two flat text passed).1
  nested text passed := nested text (passed_twice grammar path dialect first second third one two flat text passed).1
  guarded text next passed printed := by
    rw [Node.guard_outer]
    exact guarded (text, next) ((passed_twice grammar path dialect first second third one two flat text passed).2 next printed)

end Twice

variable (known : Dialect.ofPath? path = some dialect)

include known

theorem parse_recorded (text : Text) (asked : List Text) (accepted : (grammar dialect text).hasError = false) :
    (SourceFile.parse (recorded grammar) ⟨path, text⟩).run asked =
      (⟨[.parsing path dialect text.bytes], .ok (treeOf grammar path dialect text)⟩, asked ++ [text]) := by
  have told : SourceFile.dialect ⟨path, text⟩ = .ok dialect := by rw [SourceFile.dialect, known]
  have whole : SourceFile.accept ⟨path, text⟩ dialect (grammar dialect text) = .ok (treeOf grammar path dialect text) := by
    rw [SourceFile.accept, accepted]
    rfl
  rw [SourceFile.parse, told, ← whole]
  rfl

end Passes

-- The texts parsed behind `text`, each the print of a pass over the tree of the one before.
structure Passes (grammar : Dialect → Text → Parsed) (path : Path) (dialect : Dialect) (start text : Text)
    (later : List Text) (last : Text) : Prop where
  length : later.length = (grammar dialect text).root.depth false
  ends : (text :: later).getLast? = some last
  chain : (text :: later).IsChain (Prints grammar path dialect)
  lower : ∀ other ∈ later, (grammar dialect other).root.depth false < (grammar dialect text).root.depth false
  distinct : (text :: later).Nodup
  reached : PassedTo grammar path dialect start last
  flat : (grammar dialect last).root.depth false = 0
  wrapped : (grammar dialect last).root.unplaced = ((grammar dialect text).root.wrapAll false).unplaced

section Run

variable {grammar : Dialect → Text → Parsed} {path : Path} {dialect : Dialect} {start : Text}
  (reparses : Reparses grammar path dialect start)

theorem Passes.done {text : Text} (reached : PassedTo grammar path dialect start text)
    (flat : (grammar dialect text).root.depth false = 0) : Passes grammar path dialect start text [] text where
  length := flat.symm
  ends := rfl
  chain := .singleton _
  lower _ member := nomatch member
  distinct := List.pairwise_singleton _ text
  reached := reached
  flat := flat
  wrapped := by rw [Node.wrap_all_settled _ false flat]

include reparses

theorem reparsed_root {text next : Text} (reached : PassedTo grammar path dialect start text)
    (printed : Prints grammar path dialect text next) :
    (grammar dialect next).root.unplaced = ((grammar dialect text).root.wrapOuter false).unplaced := by
  rw [reparses.guarded text next reached printed, Node.guard_outer]

theorem reparsed_depth {text next : Text} (reached : PassedTo grammar path dialect start text)
    (printed : Prints grammar path dialect text next) :
    (grammar dialect next).root.depth false = (grammar dialect text).root.depth false - 1 := by
  rw [← Node.depth_unplaced, reparsed_root reparses reached printed, Node.depth_unplaced, Node.depth_wrap_outer]

theorem reparsed_bodies {text next : Text} (reached : PassedTo grammar path dialect start text)
    (printed : Prints grammar path dialect text next) :
    (grammar dialect next).root.bodies false + (treeOf grammar path dialect text).unwrappedBodies.length =
      (grammar dialect text).root.bodies false := by
  rw [← Node.bodies_unplaced, reparsed_root reparses reached printed, Node.bodies_unplaced, unwrapped_bodies_length]
  exact Node.bodies_wrap_outer _ false

theorem reparsed_wrapped {text next : Text} (reached : PassedTo grammar path dialect start text)
    (printed : Prints grammar path dialect text next) :
    ((grammar dialect next).root.wrapAll false).unplaced = ((grammar dialect text).root.wrapAll false).unplaced := by
  rw [Node.wrap_all_unplaced, reparsed_root reparses reached printed, ← Node.wrap_all_unplaced, Node.wrap_all_wrap_outer]

theorem Passes.next {text next last : Text} {later : List Text} (reached : PassedTo grammar path dialect start text)
    (printed : Prints grammar path dialect text next)
    (rest : Passes grammar path dialect start next later last) :
    Passes grammar path dialect start text (next :: later) last := by
  have depth := reparsed_depth reparses reached printed
  have deep : (grammar dialect text).root.depth false ≠ 0 := fun flat =>
    printed.1 ((unwrapped_bodies_empty_iff _).mpr flat)
  have lower : ∀ other ∈ next :: later,
      (grammar dialect other).root.depth false < (grammar dialect text).root.depth false := by
    intro other member
    rcases List.mem_cons.mp member with rfl | behind
    · omega
    · exact Nat.lt_of_lt_of_le (rest.lower other behind) (by omega)
  exact {
    length := by rw [List.length_cons, rest.length]; omega
    ends := by rw [List.getLast?_cons_cons, rest.ends]
    chain := List.isChain_cons_cons.mpr ⟨printed, rest.chain⟩
    lower := lower
    distinct := List.nodup_cons.mpr ⟨fun member => Nat.lt_irrefl _ (lower text member), rest.distinct⟩
    reached := rest.reached
    flat := rest.flat
    wrapped := rest.wrapped.trans (reparsed_wrapped reparses reached printed) }

omit reparses in
theorem wrap_from_flat {fuel : Nat} {text : Text} (flat : (grammar dialect text).root.depth false = 0) (wrapped : Nat)
    (asked : List Text) :
    (SourceFile.wrapFrom (recorded grammar) fuel wrapped (treeOf grammar path dialect text)).run asked =
      (⟨[], .ok ⟨text, wrapped + (grammar dialect text).root.bodies false⟩⟩, asked ++ []) := by
  have empty := (unwrapped_bodies_empty_iff (treeOf grammar path dialect text)).mpr flat
  rw [SourceFile.wrapFrom.eq_def, empty, Node.bodies_zero _ false flat, List.append_nil]
  rfl

variable (known : Dialect.ofPath? path = some dialect)

include known

-- By induction on the passes that are left; each lowers the depth of the bodies by one.
theorem wrap_from_settles (fuel : Nat) : ∀ (count : Nat) (text : Text) (asked : List Text),
    PassedTo grammar path dialect start text → (grammar dialect text).root.depth false ≤ fuel →
    ∃ later last, Passes grammar path dialect start text later last ∧
      (SourceFile.wrapFrom (recorded grammar) fuel count (treeOf grammar path dialect text)).run asked =
        (⟨later.map fun other => .parsing path dialect other.bytes,
          .ok ⟨last, count + (grammar dialect text).root.bodies false⟩⟩, asked ++ later) := by
  induction fuel with
  | zero =>
      intro count text asked reached enough
      have flat : (grammar dialect text).root.depth false = 0 := Nat.le_zero.mp enough
      exact ⟨[], text, .done reached flat, wrap_from_flat flat count asked⟩
  | succ fuel ih =>
      intro count text asked reached enough
      by_cases flat : (grammar dialect text).root.depth false = 0
      · exact ⟨[], text, .done reached flat, wrap_from_flat flat count asked⟩
      have pending : (treeOf grammar path dialect text).unwrappedBodies ≠ [] := fun empty =>
        flat ((unwrapped_bodies_empty_iff _).mp empty)
      obtain ⟨next, wrapped⟩ := SourceTree.wrap_pass_nested (treeOf grammar path dialect text) (reparses.nested text reached)
      have printed : Prints grammar path dialect text next := ⟨pending, wrapped⟩
      have onward := reached.tail printed
      have depth := reparsed_depth reparses reached printed
      have bodies := reparsed_bodies reparses reached printed
      obtain ⟨later, last, passes, ran⟩ := ih (count + (treeOf grammar path dialect text).unwrappedBodies.length) next
        (asked ++ [next]) onward (by omega)
      refine ⟨next :: later, last, .next reparses reached printed passes, ?_⟩
      have occupied : ¬ (treeOf grammar path dialect text).unwrappedBodies.isEmpty = true := fun empty =>
        pending (List.isEmpty_iff.mp empty)
      have parsed := parse_recorded grammar path dialect known next asked (reparses.accepted next onward)
      have counted : count + (treeOf grammar path dialect text).unwrappedBodies.length +
          (grammar dialect next).root.bodies false = count + (grammar dialect text).root.bodies false := by omega
      unfold SourceFile.wrapFrom
      simp only [if_neg occupied, wrapped]
      refine (run_then parsed _).trans ((run_then ran _).trans ?_)
      rw [counted, List.append_assoc]
      rfl

theorem wrap_async_bodies_settles {text : Text} (reached : PassedTo grammar path dialect start text) :
    ∃ later last, Passes grammar path dialect start text later last ∧
      (SourceFile.wrapAsyncBodies (recorded grammar) ⟨path, text⟩).run [] =
        (⟨(text :: later).map (fun other => .parsing path dialect other.bytes) ++
            (if 0 < (grammar dialect text).root.bodies false then
              [.wrappedBodies path ((grammar dialect text).root.bodies false)] else []), .ok last⟩, text :: later) := by
  have parsed := parse_recorded grammar path dialect known text [] (reparses.accepted text reached)
  have enough : (grammar dialect text).root.depth false ≤ (grammar dialect text).root.places.length := by
    refine Nat.le_trans (Node.depth_le_bodies _ false) ?_
    rw [← Node.count_unwrapped]
    exact List.countP_le_length
  obtain ⟨later, last, passes, ran⟩ := wrap_from_settles reparses known _ 0 text ([] ++ [text]) reached enough
  refine ⟨later, last, passes, ?_⟩
  rw [Nat.zero_add] at ran
  exact (run_then parsed _).trans (run_then ran _)

end Run

-- The grammar is asked for one text more than bodies are nested. The result is the start with each unwrapped body guarded,
-- up to offsets, and nothing is left to do in it.
theorem wrapping_settles (grammar : Dialect → Text → Parsed) (options : Options) (file : SourceFile) (dialect : Dialect)
    (known : Dialect.ofPath? file.path = some dialect) (reparses : Reparses grammar file.path dialect file.text) :
    let tree := treeOf grammar file.path dialect
    let count := (tree file.text).places.countP (·.isUnwrappedBody)
    let parsing := fun text : Text => Event.parsing file.path dialect text.bytes
    ∃ (texts : List Text) (last : Text),
      (Transform.wrapAsyncBodies.apply (recorded grammar) options file).run [] =
        (⟨texts.map parsing ++ (if 0 < count then [.wrappedBodies file.path count] else []), .ok last⟩, texts) ∧
      texts.length = (tree file.text).root.deepest (·.isUnwrappedBody) + 1 ∧ texts.head? = some file.text ∧
      texts.getLast? = some last ∧ texts.Nodup ∧
      texts.IsChain (Prints grammar file.path dialect) ∧
      (tree last).unwrappedBodies = [] ∧
      (tree last).root.unplaced = ((tree file.text).root.guardWhere (·.isUnwrappedBody)).unplaced ∧
      (Transform.wrapAsyncBodies.apply (recorded grammar) options ⟨file.path, last⟩).run [] =
        (⟨[parsing last], .ok last⟩, [last]) := by
  intro tree count parsing
  have counted : count = (grammar dialect file.text).root.bodies false := Node.count_unwrapped _
  obtain ⟨later, last, passes, ran⟩ := wrap_async_bodies_settles reparses known .refl
  obtain ⟨more, other, again, rerun⟩ := wrap_async_bodies_settles reparses known passes.reached
  have none : more = [] := List.length_eq_zero_iff.mp (again.length.trans passes.flat)
  have same : last = other := by simpa [none] using again.ends
  refine ⟨file.text :: later, last, ?_, ?_, rfl, passes.ends, passes.distinct, passes.chain,
    (unwrapped_bodies_empty_iff (tree last)).mpr passes.flat, ?_, ?_⟩
  · rw [counted]
    exact ran
  · rw [List.length_cons, passes.length]
    exact congrArg (· + 1) (Node.deepest_unwrapped _).symm
  · rw [Node.guard_unwrapped]
    exact passes.wrapped
  · rw [none, ← same, Node.bodies_zero _ false passes.flat] at rerun
    exact rerun

section Sample

open Node

def sampleBlock (start stop : Nat) (statement : Node) : Node :=
  field "body" (rule "statement_block" start stop [
    token "\x7b" start (start + 1), statement, token "\x7d" (stop - 1) stop])

-- The clause with its statement and its closing brace that far into their lines.
def sampleClause (start inner outer : Nat) : Node :=
  let call := start + 14 + inner
  field "handler" (rule "catch_clause" start (call + 21 + outer) [
    token "catch" start (start + 5), token "(" (start + 6) (start + 7),
    field "parameter" (rule "identifier" (start + 7) (start + 10) []), token ")" (start + 10) (start + 11),
    sampleBlock (start + 12) (call + 21 + outer) (rule "expression_statement" call (call + 19) [
      rule "call_expression" call (call + 18) [
        field "function" (rule "member_expression" call (call + 13) [
          field "object" (rule "identifier" call (call + 7) []), token "." (call + 7) (call + 8),
          field "property" (rule "property_identifier" (call + 8) (call + 13) [])]),
        field "arguments" (rule "arguments" (call + 13) (call + 18) [
          token "(" (call + 13) (call + 14), rule "identifier" (call + 14) (call + 17) [],
          token ")" (call + 17) (call + 18)])],
      token ";" (call + 18) (call + 19)])])

def sampleTry (start stop inner outer : Nat) (statement : Node) : Node :=
  rule "try_statement" start (stop + 36 + inner + outer) [
    token "try" start (start + 3), sampleBlock (start + 4) stop statement, sampleClause (stop + 1) inner outer]

def sampleArrow (start stop : Nat) (statement : Node) : Node :=
  rule "lexical_declaration" start (stop + 1) [
    field "kind" (token "const" start (start + 5)),
    rule "variable_declarator" (start + 6) stop [
      field "name" (rule "identifier" (start + 6) (start + 7) []), token "=" (start + 8) (start + 9),
      field "value" (rule "arrow_function" (start + 10) stop [
        token "async" (start + 10) (start + 15),
        field "parameters" (rule "formal_parameters" (start + 16) (start + 18) [
          token "(" (start + 16) (start + 17), token ")" (start + 17) (start + 18)]),
        token "=>" (start + 19) (start + 21), sampleBlock (start + 22) stop statement])],
    token ";" stop (stop + 1)]

def sampleCall (start : Nat) : Node :=
  rule "expression_statement" start (start + 10) [
    rule "await_expression" start (start + 9) [
      token "await" start (start + 5),
      rule "call_expression" (start + 6) (start + 9) [
        field "function" (rule "identifier" (start + 6) (start + 7) []),
        field "arguments" (rule "arguments" (start + 7) (start + 9) [
          token "(" (start + 7) (start + 8), token ")" (start + 8) (start + 9)])]],
    token ";" (start + 9) (start + 10)]

def sampleProgram (stop : Nat) (statement : Node) : Parsed :=
  ⟨false, rule "program" 0 (stop + 1) [
    rule "generator_function_declaration" 0 stop [
      token "async" 0 5, token "function" 6 14, token "*" 14 15, field "name" (rule "identifier" 16 17 []),
      field "parameters" (rule "formal_parameters" 17 19 [token "(" 17 18, token ")" 18 19]),
      sampleBlock 20 stop statement]]⟩

def nestedText : Text :=
  ["async function* f() \x7b\n", "  const h = async () => \x7b await g(); \x7d;\n", "\x7d\n"].flatMap String.toList

def halfWrappedText : Text :=
  ["async function* f() \x7b\n", "  try \x7b\n", "    const h = async () => \x7b await g(); \x7d;\n",
    "  \x7d catch (err) \x7b\n", "    console.error(err);\n", "  \x7d\n", "\x7d\n"].flatMap String.toList

def wrappedText : Text :=
  ["async function* f() \x7b\n", "  try \x7b\n", "    const h = async () => \x7b\n", "      try \x7b\n",
    "        await g();\n", "      \x7d catch (err) \x7b\n", "        console.error(err);\n", "      \x7d\n", "    \x7d;\n",
    "  \x7d catch (err) \x7b\n", "    console.error(err);\n", "  \x7d\n", "\x7d\n"].flatMap String.toList

def nestedGrammar (_ : Dialect) (text : Text) : Parsed :=
  if text = nestedText then sampleProgram 63 (sampleArrow 24 60 (sampleCall 48))
  else if text = halfWrappedText then sampleProgram 119 (sampleTry 24 75 4 2 (sampleArrow 34 70 (sampleCall 58)))
  else if text = wrappedText then
    sampleProgram 201 (sampleTry 24 157 4 2 (sampleArrow 34 152 (sampleTry 64 96 8 6 (sampleCall 78))))
  else ⟨true, rule "ERROR" 0 0 []⟩

theorem nested_sample_reparses : Reparses nestedGrammar "f.ts".toList .typeScript nestedText := by
  have one : (treeOf nestedGrammar "f.ts".toList .typeScript nestedText).wrapPass = .ok halfWrappedText :=
    SourceTree.ok_of_option _ _ (by decide +kernel)
  have two : (treeOf nestedGrammar "f.ts".toList .typeScript halfWrappedText).wrapPass = .ok wrappedText :=
    SourceTree.ok_of_option _ _ (by decide +kernel)
  have flat : (nestedGrammar .typeScript wrappedText).root.depth false = 0 := by decide +kernel
  have narrow : ∀ text ∈ [nestedText, halfWrappedText, wrappedText], text.IsNarrow ∧
      ∀ place ∈ (treeOf nestedGrammar "f.ts".toList .typeScript text).places, place.node.Ordered text.length := by decide +kernel
  refine reparses_twice nestedGrammar "f.ts".toList .typeScript _ _ _ one two flat ?_ (fun text member => ?_) ?_
  · decide +kernel
  · exact SourceTree.nests_of_ordered _ (narrow text member).1 (narrow text member).2
  · decide +kernel

-- A function in a function: two passes, and three texts.
theorem nested_sample_settles :
    Reparses nestedGrammar "f.ts".toList .typeScript nestedText ∧
      (nestedGrammar .typeScript nestedText).root.deepest (·.isUnwrappedBody) = 2 ∧
      ∃ (texts : List Text) (report : Report Text), texts.length = 3 ∧
        (Transform.wrapAsyncBodies.apply (recorded nestedGrammar) .default ⟨"f.ts".toList, nestedText⟩).run [] =
          (report, texts) := by
  have depth : (treeOf nestedGrammar "f.ts".toList .typeScript nestedText).root.deepest (·.isUnwrappedBody) = 2 := by
    rw [Node.deepest_unwrapped]
    decide +kernel
  obtain ⟨texts, last, ran, length, _⟩ := wrapping_settles nestedGrammar .default ⟨"f.ts".toList, nestedText⟩ .typeScript
    (by decide +kernel) nested_sample_reparses
  rw [depth] at length
  exact ⟨nested_sample_reparses, depth, texts, _, length, ran⟩

end Sample

end ScriptTidy.Wrapping
