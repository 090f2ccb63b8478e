import ScriptTidy.Transform.Kind
import ScriptTidy.Proofs.Import.Recorded

/-! What removing unused imports leaves alone: statements without removable names, and all else that is not pruned. -/

set_option autoImplicit false

namespace ScriptTidy

open Text Place Edit Edits

theorem InterpreterLine.prepend_front (line : InterpreterLine) (text : Text) :
    line.prepend text = (mark ++ line.value ++ ['\n']) ++ text := by
  simp [prepend]

theorem Edits.ranges_of_pairwise (text : Text) (ranges : List (Nat × Nat)) (stop : Nat) : ∀ cursor,
    ranges.Pairwise (fun first second => first.2 ≤ second.1) →
      (∀ range ∈ ranges, cursor ≤ range.1 ∧ range.1 ≤ range.2 ∧ range.2 ≤ stop ∧ text.IsBoundary range.1 ∧
        text.IsBoundary range.2) → Ranges text stop cursor ranges := by
  induction ranges with
  | nil => exact fun _ _ _ => trivial
  | cons range rest ih =>
      intro cursor apart each
      obtain ⟨bounds, later⟩ := List.pairwise_cons.mp apart
      obtain ⟨early, forward, within, first, last⟩ := each range List.mem_cons_self
      refine ⟨early, forward, within, first, last, ih range.2 later fun other member => ?_⟩
      exact ⟨bounds other member, (each other (List.mem_cons_of_mem _ member)).2⟩

namespace SourceTree

theorem text_of_nested (tree : SourceTree) (node : Node) (nested : node.Nested tree.text) :
    tree.textOf node = tree.text.between node.start node.stop := by
  rw [textOf, slice_of_boundaries tree.text _ _ nested.first nested.last nested.ordered, Option.getD_some]

-- Nodes that stand one behind another, each with its text.
theorem node_ranges {α : Type} (tree : SourceTree) (node : α → Node) (items : List α) (start stop : Nat)
    (apart : items.Pairwise fun first second => (node first).stop ≤ (node second).start)
    (each : ∀ item ∈ items, (node item).Nested tree.text ∧ start ≤ (node item).start ∧ (node item).stop ≤ stop) :
    Ranges tree.text stop start (items.map fun item => ((node item).start, (node item).stop)) ∧
      items.map (fun item => tree.textOf (node item)) =
        (items.map fun item => ((node item).start, (node item).stop)).map fun range => tree.text.between range.1 range.2 := by
  constructor
  · refine ranges_of_pairwise tree.text _ _ _ (List.pairwise_map.mpr apart) fun range member => ?_
    obtain ⟨item, present, rfl⟩ := List.mem_map.mp member
    obtain ⟨nested, lower, upper⟩ := each item present
    exact ⟨lower, nested.ordered, upper, nested.first, nested.last⟩
  · rw [List.map_map]
    exact List.map_congr_left fun item member => text_of_nested tree (node item) (each item member).1

-- Holds of the offsets in the `#!` line, in a removed statement with its comments, and in a rewritten clause.
def isPruned (tree : SourceTree) (options : Options) (offset : Nat) : Bool :=
  (InterpreterLine.find? tree).any (fun line => line.start ≤ offset && offset < line.stop) ||
    (tree.candidates options).any fun (declaration, dead) =>
      match tree.prune declaration dead with
      | .ok (.removed _) =>
          tree.attachedStart declaration.statement ≤ offset && offset < tree.attachedStop declaration.statement
      | .ok (.rewritten _) => declaration.clause.any fun clause => clause.start ≤ offset && offset < clause.stop
      | _ => false

-- Each imported name is exempt or used.
def HasNoRemovable (tree : SourceTree) (options : Options) : Prop :=
  ∀ declaration ∈ tree.importDeclarations, ∀ binding ∈ declaration.bindings,
    options.isExempt binding.localName = true ∨ tree.usage.isLive binding = true

section Results

variable (tree : SourceTree) (options : Options)

theorem not_removable_iff (usage : Usage) (binding : Binding) : ¬ isRemovable options usage binding = true ↔
    options.isExempt binding.localName = true ∨ usage.isLive binding = true := by
  cases exempt : options.isExempt binding.localName <;> simp [isRemovable, exempt]

theorem prune_nothing (declaration : ImportDeclaration) : tree.prune declaration [] = .ok .untouched := by
  unfold prune
  split <;> rfl

theorem prune_all_nothing (items : List (ImportDeclaration × List Binding)) (none : ∀ item ∈ items, item.2 = []) :
    ∃ pruned, tree.pruneAll items = .ok pruned ∧ pruned.all (·.pruning.isUntouched) = true := by
  induction items with
  | nil => exact ⟨[], rfl, rfl⟩
  | cons first rest ih =>
      obtain ⟨declaration, dead⟩ := first
      obtain rfl : dead = [] := none _ List.mem_cons_self
      obtain ⟨pruned, done, untouched⟩ := ih fun item member => none item (List.mem_cons_of_mem _ member)
      refine ⟨⟨declaration, [], .untouched⟩ :: pruned, ?_, by simpa [Pruning.isUntouched] using untouched⟩
      rw [pruneAll, prune_nothing, done]
      rfl

-- A file with its `#!` line, if it has one.
def withInterpreter (text : Text) : Text :=
  match InterpreterLine.find? tree with
  | some line => line.prepend text
  | none => text

-- What a run answers, with its declarations pruned and its header at hand.
theorem pruned_result (pruned : List PrunedDeclaration) (restored : Option Edit)
    (done : tree.pruneAll (tree.candidates options) = .ok pruned) (header : tree.restoredHeader pruned = .ok restored) :
    (tree.removeUnusedImports options).result = if pruned.all (·.pruning.isUntouched) = true then .ok none
      else (tree.print (tree.pruneEdits pruned restored)).map fun text => some (tree.withInterpreter text) := by
  unfold removeUnusedImports withInterpreter
  simp only [done, header]
  split <;> rfl

theorem result_cases (answer : Option Text) (result : (tree.removeUnusedImports options).result = .ok answer) :
    ∃ pruned, tree.pruneAll (tree.candidates options) = .ok pruned ∧
      ((pruned.all (·.pruning.isUntouched) = true ∧ answer = none) ∨
        ∃ restored printed, tree.restoredHeader pruned = .ok restored ∧
          tree.print (tree.pruneEdits pruned restored) = .ok printed ∧ answer = some (tree.withInterpreter printed)) := by
  unfold removeUnusedImports at result
  dsimp only at result
  cases done : tree.pruneAll (tree.candidates options) with
  | error fault => rw [done] at result; cases result
  | ok pruned =>
      rw [done] at result
      dsimp only at result
      refine ⟨pruned, rfl, ?_⟩
      split at result
      next untouched => exact .inl ⟨untouched, (Except.ok.inj result).symm⟩
      next =>
        cases header : tree.restoredHeader pruned with
        | error fault => rw [header] at result; cases result
        | ok restored =>
            rw [header] at result
            dsimp only at result
            cases printed : tree.print (tree.pruneEdits pruned restored) with
            | error fault => rw [printed] at result; cases result
            | ok text =>
                rw [printed] at result
                exact .inr ⟨restored, text, rfl, printed, (Except.ok.inj result).symm⟩

theorem nothing_dead (none : tree.HasNoRemovable options) (item : ImportDeclaration × List Binding)
    (member : item ∈ tree.candidates options) : item.2 = [] := by
  obtain ⟨declaration, dead⟩ := item
  obtain ⟨declared, _, rfl⟩ := (mem_candidates_iff tree options declaration dead).mp member
  refine List.eq_nil_iff_forall_not_mem.mpr fun binding present => ?_
  obtain ⟨bound, removable⟩ := (mem_dead_iff tree options declaration binding).mp present
  exact (not_removable_iff options tree.usage binding).mpr (none declaration declared binding bound) removable

theorem result_none_iff : (tree.removeUnusedImports options).result = .ok none ↔ tree.HasNoRemovable options := by
  constructor
  · intro result declaration declared binding bound
    obtain ⟨pruned, done, ⟨untouched, _⟩ | ⟨_, _, _, _, other⟩⟩ := result_cases tree options none result
    case inr => cases other
    rw [← not_removable_iff]
    intro removable
    obtain ⟨shape, each⟩ := prune_all_ok tree _ pruned done
    have named : declaration.isForEffects = false := by
      rw [ImportDeclaration.isForEffects]
      cases bindings : declaration.bindings with
      | nil => rw [bindings] at bound; exact absurd bound List.not_mem_nil
      | cons first rest => rfl
    have candidate := (mem_candidates_iff tree options declaration _).mpr ⟨declared, named, rfl⟩
    rw [← shape] at candidate
    obtain ⟨item, member, equal⟩ := List.mem_map.mp candidate
    obtain ⟨rfl, dead⟩ := Prod.mk.inj equal
    obtain ⟨statement, _, _, same, _⟩ := pruned_item tree options pruned done item member
    have work := each item member
    rw [same, dead] at work
    have empty := (untouched_iff tree statement _ item.pruning
      (fun other present => same ▸ ((mem_dead_iff tree options _ other).mp (same ▸ present)).1) (same ▸ work)).mp
      (List.all_eq_true.mp untouched item member)
    have present := (mem_dead_iff tree options _ binding).mpr ⟨bound, removable⟩
    rw [same, empty] at present
    exact absurd present List.not_mem_nil
  · intro none
    obtain ⟨pruned, done, untouched⟩ := prune_all_nothing tree _ (nothing_dead tree options none)
    unfold removeUnusedImports
    simp only [done, untouched, if_true]

theorem with_interpreter_front (text : Text) : ∃ front, tree.withInterpreter text = front ++ text := by
  unfold withInterpreter
  split
  next line _ => exact ⟨_, line.prepend_front text⟩
  next => exact ⟨[], rfl⟩

end Results

section Pruned

variable (tree : SourceTree) (options : Options) (valid : tree.WellFormed) (pruned : List PrunedDeclaration)

include valid

theorem statement_ranges (kept : List Place) (fewer : kept.Sublist tree.statements) :
    Ranges tree.text tree.text.bytes 0 (kept.map fun statement => (statement.start, statement.stop)) ∧
      kept.map (fun statement => tree.textOf statement.node) =
        (kept.map fun statement => (statement.start, statement.stop)).map fun range => tree.text.between range.1 range.2 := by
  refine node_ranges tree Place.node kept 0 tree.text.bytes ?_ fun statement member => ?_
  · refine ((statements_earlier tree).sublist fewer).imp_of_mem fun {first second} present _ earlier => ?_
    exact earlier_apart tree.text first second
      (in_nested tree first valid (statement_root tree first (fewer.subset present))) earlier
  · have nested := (statement_solid tree statement valid (fewer.subset member)).2.2
    exact ⟨nested, Nat.zero_le _, boundary_le tree.text _ nested.last⟩

-- Where an edit covers something, the offset is one that pruning takes or rewrites.
theorem pruned_of_edit (done : tree.pruneAll (tree.candidates options) = .ok pruned) (edit : Edit)
    (recorded : PruneEdit tree options pruned edit) (offset : Nat) (boundary : tree.text.IsBoundary offset)
    (solid : tree.text.StartsSolid offset) (lower : edit.start ≤ offset) (upper : offset < edit.stop) :
    tree.isPruned options offset = true := by
  obtain ⟨shape, each⟩ := prune_all_ok tree _ pruned done
  have candidate (item : PrunedDeclaration) (member : item ∈ pruned) : (item.declaration, item.dead) ∈ tree.candidates options :=
    shape ▸ List.mem_map_of_mem member
  rw [isPruned, Bool.or_eq_true]
  cases recorded with
  | strip line found =>
      refine .inl ?_
      rw [found, Option.any_some, Bool.and_eq_true, decide_eq_true_iff, decide_eq_true_iff]
      refine ⟨lower, Nat.lt_of_not_le fun behind => ?_⟩
      have reached := strip_le tree valid line found offset boundary solid behind
      have inside : offset < tree.text.nextLineStart line.stop := upper
      omega
  | rewritten item member clause text found some pruning =>
      refine .inr (List.any_eq_true.mpr ⟨_, candidate item member, ?_⟩)
      have work := each item member
      rw [pruning] at work
      simp only [work, found, Option.any_some, Bool.and_eq_true, decide_eq_true_iff]
      exact ⟨lower, upper⟩
  | removed item member some pruning =>
      refine .inr (List.any_eq_true.mpr ⟨_, candidate item member, ?_⟩)
      have work := each item member
      rw [pruning] at work
      simp only [work, Bool.and_eq_true, decide_eq_true_iff]
      exact ⟨lower, upper⟩
  | header header text captured gone copied =>
      have same : offset < Header.anchor tree (isRemovedBy pruned) := upper
      have other : Header.anchor tree (isRemovedBy pruned) ≤ offset := lower
      omega

theorem printed_keeps (done : tree.pruneAll (tree.candidates options) = .ok pruned) (restored : Option Edit)
    (header : tree.restoredHeader pruned = .ok restored) (printed : Text)
    (applied : tree.print (tree.pruneEdits pruned restored) = .ok printed) :
    InTurn ((tree.statements.filter fun statement => !tree.holdsRemovable options statement).map
        fun statement => tree.textOf statement.node) printed ∧
      (visible (outside (tree.isPruned options) 0 tree.text)).Sublist printed := by
  have recorded := mem_prune_edits tree options pruned restored done header
  have each := fun edit member => prune_edit_valid tree options pruned valid done edit (recorded edit member)
  have inText := fun edit member => (each edit member).1
  have empty := fun edit member => (each edit member).2.1
  have solid := fun edit member => (each edit member).2.2
  obtain ⟨ordered, rfl⟩ := prepared_of_apply tree.text (tree.pruneEdits pruned restored) inText empty printed applied
  have fewer : (tree.statements.filter fun statement => !tree.holdsRemovable options statement).Sublist tree.statements :=
    List.filter_sublist
  constructor
  · obtain ⟨ranges, texts⟩ := statement_ranges tree valid _ fewer
    rw [texts]
    refine spliced_in_turn tree.text _ (boundary_bytes tree.text) _ 0 _ (boundary_zero tree.text) ordered
      ranges fun range member edit present => ?_
    obtain ⟨statement, kept, rfl⟩ := List.mem_map.mp member
    obtain ⟨top, held⟩ := List.mem_filter.mp kept
    obtain ⟨starts, ends, nested⟩ := statement_solid tree statement valid top
    have wide := (valid.statements statement top).1
    exact prepared_clear tree.text _ inText empty statement.start statement.stop nested.first wide starts
      (fenced_of_solid tree.text _ solid _ _ nested.first nested.last starts ends)
      (fun other recordedMember => kept_statement_clear tree options pruned valid done statement top (by simpa using held) other
        (recorded other recordedMember)) edit present
  · have all := visible_outside_spliced tree.text _ (boundary_bytes tree.text) (tree.isPruned options) _ 0
      (boundary_zero tree.text) (Nat.zero_le _) ordered
      (fun edit present => boundary_le tree.text _ (in_order_bounds tree.text _ 0 ordered edit present).2.2.2)
      fun edit present offset boundary shown lower upper => by
        obtain ⟨source, member, first, last⟩ := prepared_covers_solid tree.text _ inText empty edit present offset boundary
          shown lower upper
        exact pruned_of_edit tree options valid pruned done source (recorded source member) offset boundary shown first last
    rwa [between_zero, before_bytes] at all

end Pruned

theorem parse_text (parser : Parser Id) (file : SourceFile) (tree : SourceTree)
    (parsed : (file.parse parser).run.result = .ok tree) : tree.text = file.text := by
  unfold SourceFile.parse at parsed
  cases known : file.dialect with
  | error fault => rw [known] at parsed; cases parsed
  | ok dialect =>
      rw [known] at parsed
      have accepted : file.accept dialect (parser dialect file.text) = .ok tree := parsed
      unfold SourceFile.accept at accepted
      split at accepted
      · cases accepted
      · obtain rfl := Except.ok.inj accepted
        rfl

-- Statements without removable names stand in the result as they are and in their order, and so does every visible
-- character that is not pruned. There is no result just if no name can be removed; the text stays as it is then.
theorem unused_imports_touch_only_pruned (tree : SourceTree) (options : Options) (valid : tree.WellFormed) :
    (∀ out, (tree.removeUnusedImports options).result = .ok (some out) →
      InTurn ((tree.statements.filter fun statement => !tree.holdsRemovable options statement).map
          fun statement => tree.textOf statement.node) out ∧
        (visible (outside (tree.isPruned options) 0 tree.text)).Sublist out) ∧
      ((tree.removeUnusedImports options).result = .ok none ↔ tree.HasNoRemovable options) ∧
      ∀ (parser : Parser Id) (file : SourceFile), (file.parse parser).run.result = .ok tree →
        tree.HasNoRemovable options → (Transform.removeUnusedImports.apply parser options file).run.result = .ok file.text := by
  refine ⟨fun out result => ?_, result_none_iff tree options, fun parser file parsed none => ?_⟩
  · obtain ⟨pruned, done, ⟨_, other⟩ | ⟨restored, printed, header, applied, shape⟩⟩ := result_cases tree options (some out) result
    case inl => cases other
    obtain ⟨placed, shown⟩ := printed_keeps tree options valid pruned done restored header printed applied
    obtain ⟨front, whole⟩ := with_interpreter_front tree printed
    rw [Option.some.inj shape, whole]
    exact ⟨in_turn_append_left _ front printed placed, shown.trans (List.sublist_append_right front printed)⟩
  · have same := parse_text parser file tree parsed
    have result := (result_none_iff tree options).mpr none
    have applied : (Transform.removeUnusedImports.apply parser options file).run =
        (file.parse parser).run.andThen fun tree => (tree.removeUnusedImports options).map (·.getD tree.text) := rfl
    rw [applied, Report.andThen, parsed]
    simp only [Report.after, Report.map, result, same]
    rfl

open Node in
-- A `#!` line, a header, an import that goes, one that loses a name, and a call.
def importSample : SourceTree where
  path := "p.js".toList
  dialect := .javaScript
  text := "#!/bin/sh\n// h\nimport a from \x22a\x22;\nimport b, \x7b c \x7d from \x22b\x22;\nb();\n".toList
  root := rule "program" 0 65 [
      rule "hash_bang_line" 0 9 [], rule "comment" 10 14 [],
      rule "import_statement" 15 33 [
        token "import" 15 21, rule "import_clause" 22 23 [rule "identifier" 22 23 []], token "from" 24 28,
        rule "string" 29 32 [token "\x22" 29 30, rule "string_fragment" 30 31 [], token "\x22" 31 32], token ";" 32 33],
      rule "import_statement" 34 59 [
        token "import" 34 40,
        rule "import_clause" 41 49 [
          rule "identifier" 41 42 [], token "," 42 43,
          rule "named_imports" 44 49 [
            token "\x7b" 44 45, rule "import_specifier" 46 47 [field "name" (rule "identifier" 46 47 [])],
            token "\x7d" 48 49]],
        token "from" 50 54, rule "string" 55 58 [token "\x22" 55 56, rule "string_fragment" 56 57 [], token "\x22" 57 58],
        token ";" 58 59],
      rule "expression_statement" 60 64 [
        rule "call_expression" 60 63 [
          field "function" (rule "identifier" 60 61 []),
          field "arguments" (rule "arguments" 61 63 [token "(" 61 62, token ")" 62 63])],
        token ";" 63 64]]

theorem ok_of_option {α : Type} (result : Except Fault α) (value : α) (some : result.toOption = .some value) :
    result = .ok value := by
  cases result with
  | error fault => cases some
  | ok other => rw [Option.some.inj some]

theorem import_sample_touches_only_pruned : importSample.WellFormed ∧
    (importSample.removeUnusedImports .default).result =
      .ok (some "#!/bin/sh\n// h\nimport b from \x22b\x22;\nb();\n".toList) ∧
    InTurn ["b();".toList] "#!/bin/sh\n// h\nimport b from \x22b\x22;\nb();\n".toList ∧
      (visible (outside (importSample.isPruned .default) 0 importSample.text)).Sublist
        "#!/bin/sh\n// h\nimport b from \x22b\x22;\nb();\n".toList := by
  have valid : importSample.WellFormed := by decide +kernel
  have result := ok_of_option (importSample.removeUnusedImports .default).result
    (some "#!/bin/sh\n// h\nimport b from \x22b\x22;\nb();\n".toList) (by decide +kernel)
  have kept := (unused_imports_touch_only_pruned importSample .default valid).1 _ result
  have texts : (importSample.statements.filter fun statement => !importSample.holdsRemovable .default statement).map
      (fun statement => importSample.textOf statement.node) = ["b();".toList] := by decide +kernel
  rw [texts] at kept
  exact ⟨valid, result, kept.1, kept.2⟩

end SourceTree

end ScriptTidy
