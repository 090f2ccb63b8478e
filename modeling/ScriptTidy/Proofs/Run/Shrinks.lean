import ScriptTidy.Proofs.Import.PruneWeight
import ScriptTidy.Proofs.Run.Visits

/-! Each run that removes imports makes a file smaller, so that runs come to an end. -/

set_option autoImplicit false

namespace ScriptTidy

open Text Edits

namespace SourceTree

section Results

variable (tree : SourceTree) (options : Options) (grammar : tree.Grammatical) (shown : tree.ImportsShown)

theorem result_touched (pruned : List PrunedDeclaration) (done : tree.pruneAll (tree.candidates options) = .ok pruned) (out : Text)
    (result : (tree.removeUnusedImports options).result = .ok (some out)) : ∃ item ∈ pruned, item.pruning.isUntouched = false := by
  apply Classical.byContradiction
  intro none
  have untouched : pruned.all (·.pruning.isUntouched) = true := by
    refine List.all_eq_true.mpr fun item member => ?_
    cases touched : item.pruning.isUntouched with
    | true => rfl
    | false => exact absurd ⟨item, member, touched⟩ none
  unfold removeUnusedImports at result
  simp only [done, untouched, if_true] at result
  cases result

include grammar shown

theorem result_weight (out : Text) (result : (tree.removeUnusedImports options).result = .ok (some out)) :
    weight out < weight tree.text := by
  obtain ⟨pruned, done, ⟨_, other⟩ | ⟨restored, printed, header, applied, shape⟩⟩ := result_cases tree options (some out) result
  case inl => cases other
  have untangled := (prune_edits_printed_iff tree options pruned restored grammar done header).mp ⟨printed, applied⟩
  have sound := prune_edits_sound tree options pruned restored (mem_prune_edits tree options pruned restored done header) grammar
    done untangled header
  obtain ⟨text, made, balance⟩ := applied_balance tree.text _ (tree.pruneEdits (topmost pruned) restored) sound
    (topmost_edits_listed tree pruned restored) (topmost_splices tree options pruned done restored untangled)
    (topmost_edits_cover tree options pruned done grammar restored) (topmost_edits_apart tree options pruned done grammar restored header)
  obtain rfl := Except.ok.inj (made.symm.trans applied)
  have less := declarations_weight tree options pruned grammar shown done restored header
    (result_touched tree options pruned done out result)
  change weight text + total (taken tree.text) (tree.pruneEdits (topmost pruned) restored) =
    weight tree.text + total put (tree.pruneEdits (topmost pruned) restored) at balance
  have written : weight out + total put ((InterpreterLine.find? tree).map (·.strip tree)).toList ≤
      total (taken tree.text) ((InterpreterLine.find? tree).map (·.strip tree)).toList + weight text := by
    rw [Option.some.inj shape, withInterpreter]
    cases found : InterpreterLine.find? tree with
    | none => exact Nat.le_of_eq (Nat.add_comm _ _)
    | some line =>
        rw [Option.map_some, Option.toList_some, total_single, total_single]
        exact interpreter_weight tree grammar.toWellFormed shown line found text
  rw [pruneEdits, List.append_assoc, total_append, total_append, total_append put] at balance
  omega

omit grammar shown in
-- There is a new text just if some name can be removed and the run does not fail.
theorem result_some_iff : (∃ out, (tree.removeUnusedImports options).result = .ok (some out)) ↔
    (∃ declaration ∈ tree.importDeclarations, ∃ binding ∈ declaration.bindings, isRemovable options tree.usage binding = true) ∧
      ∃ answer, (tree.removeUnusedImports options).result = .ok answer := by
  have untouched := result_none_iff tree options
  simp only [HasNoRemovable, ← not_removable_iff] at untouched
  constructor
  · rintro ⟨out, made⟩
    refine ⟨Classical.byContradiction fun none => ?_, _, made⟩
    have other := untouched.mpr fun declaration declared binding bound removable =>
      none ⟨declaration, declared, binding, bound, removable⟩
    rw [made] at other
    cases other
  · rintro ⟨⟨declaration, declared, binding, bound, removable⟩, answer, made⟩
    cases answer with
    | none => exact absurd removable (untouched.mp made declaration declared binding bound)
    | some out => exact ⟨out, made⟩

end Results

end SourceTree

namespace Task

open SourceTree

-- What the parser makes of a file is a tree as the grammar has it.
def ReadsShown (parser : Parser Id) (file : SourceFile) : Prop :=
  ∀ tree, (file.parse parser).run.result = .ok tree → tree.Grammatical ∧ tree.ImportsShown

section Runs

variable (parser : Parser Id) (task : Task) (path : Path) (text : Text) (prunes : task.transform = .removeUnusedImports)

theorem pruning_parses : (Transform.removeUnusedImports.apply parser task.options ⟨path, text⟩).run =
    (SourceFile.parse parser ⟨path, text⟩).run.andThen fun tree =>
      (tree.removeUnusedImports task.options).map (·.getD tree.text) := rfl

include prunes

theorem pruning_result (tree : SourceTree) (parsed : (SourceFile.parse parser ⟨path, text⟩).run.result = .ok tree) :
    (task.transform.apply parser task.options ⟨path, text⟩).run.result =
      (tree.removeUnusedImports task.options).result.map (·.getD text) := by
  have same : tree.text = text := parse_text parser ⟨path, text⟩ tree parsed
  subst same
  rw [prunes, pruning_parses, Report.andThen, parsed]
  rfl

-- What the runner says of a file is what pruning says of it: a text that it makes is never the old one.
theorem attempt_pruning (tree : SourceTree) (parsed : (SourceFile.parse parser ⟨path, text⟩).run.result = .ok tree)
    (grammar : tree.Grammatical) (shown : tree.ImportsShown) :
    (task.attempt parser path text).result = (tree.removeUnusedImports task.options).result := by
  have made := pruning_result parser task path text prunes tree parsed
  have same : tree.text = text := parse_text parser ⟨path, text⟩ tree parsed
  unfold attempt Report.andThen
  cases answer : (tree.removeUnusedImports task.options).result with
  | error fault =>
      rw [answer] at made
      simp only [made, Except.map]
  | ok found =>
      rw [answer] at made
      cases found with
      | none => simp [made, Except.map, Report.after]
      | some out =>
          have less := result_weight tree task.options grammar shown out answer
          have differs : out ≠ text := by
            rintro rfl
            exact absurd less (by rw [same]; exact Nat.lt_irrefl _)
          simp [made, Except.map, Report.after, differs]

theorem rework_weight (good : ReadsShown parser ⟨path, text⟩) :
    task.rework parser text path = text ∨ weight (task.rework parser text path) < weight text := by
  cases parsed : (SourceFile.parse parser ⟨path, text⟩).run.result with
  | error fault => exact .inl (by rw [rework, prunes, pruning_parses, Report.andThen, parsed])
  | ok tree =>
      obtain ⟨grammar, shown⟩ := good tree parsed
      have same : tree.text = text := parse_text parser ⟨path, text⟩ tree parsed
      rw [← attempt_output, Report.output?, attempt_pruning parser task path text prunes tree parsed grammar shown]
      cases answer : (tree.removeUnusedImports task.options).result with
      | error fault => exact .inl rfl
      | ok found =>
          cases found with
          | none => exact .inl rfl
          | some out => exact .inr (same ▸ result_weight tree task.options grammar shown out answer)

end Runs

-- The files after a number of runs on one path.
def afterRuns (parser : Parser Id) (task : Task) (path : Path) (files : Folder) : Nat → Folder
  | 0 => files
  | n + 1 => (task.runFile parser (afterRuns parser task path files n) path).run.files

-- A text that is worked on again and again, each time left or made smaller.
structure Shrinking (step : Text → Text) (texts : Nat → Text) : Prop where
  next : ∀ n, texts (n + 1) = step (texts n)
  less : ∀ n, texts (n + 1) = texts n ∨ weight (texts (n + 1)) < weight (texts n)

namespace Shrinking

variable {step : Text → Text} {texts : Nat → Text} (shrinking : Shrinking step texts)

include shrinking

theorem weights_fall : Antitone fun n => weight (texts n) :=
  antitone_nat_of_succ_le fun n => (shrinking.less n).elim (fun same => Nat.le_of_eq (congrArg weight same)) Nat.le_of_lt

-- Once a text is left, it stays.
theorem stays (n : Nat) (left : texts (n + 1) = texts n) : ∀ more, texts (n + more) = texts n := by
  intro more
  induction more with
  | zero => rfl
  | succ more ih => rw [← Nat.add_assoc, shrinking.next, ih, ← shrinking.next, left]

-- No text comes back after another one.
theorem never_back (first last : Nat) (same : texts last = texts first) (n : Nat) (lower : first ≤ n) (upper : n ≤ last) :
    texts n = texts first := by
  induction n, lower using Nat.le_induction with
  | base => rfl
  | succ n lower ih =>
      have before := ih (by omega)
      rcases shrinking.less n with left | less
      · exact left.trans before
      · have late := shrinking.weights_fall upper
        simp only [same, before] at late less
        omega

theorem falls_or_stays (n : Nat) : weight (texts n) + n ≤ weight (texts 0) ∨ ∃ sooner < n, texts (sooner + 1) = texts sooner := by
  induction n with
  | zero => exact .inl (Nat.le_refl _)
  | succ n ih =>
      rcases ih with falls | ⟨sooner, early, left⟩
      · rcases shrinking.less n with left | less
        · exact .inr ⟨n, Nat.lt_succ_self n, left⟩
        · exact .inl (by omega)
      · exact .inr ⟨sooner, Nat.lt_succ_of_lt early, left⟩

-- There are no more changes than visible characters.
theorem settles (n : Nat) (late : weight (texts 0) ≤ n) : texts n = texts (weight (texts 0)) := by
  rcases shrinking.falls_or_stays (weight (texts 0) + 1) with falls | ⟨sooner, early, left⟩
  · omega
  · have one := shrinking.stays sooner left (n - sooner)
    have two := shrinking.stays sooner left (weight (texts 0) - sooner)
    rw [show sooner + (n - sooner) = n by omega] at one
    rw [show sooner + (weight (texts 0) - sooner) = weight (texts 0) by omega] at two
    exact one.trans two.symm

end Shrinking

section Files

variable (parser : Parser Id) (task : Task) (files : Folder) (path : Path) (text : Text)

-- In a real run a file holds what the transform makes of it.
theorem run_file_text (real : task.dryRun = false) (read : files.readText path = .ok text) :
    (task.runFile parser files path).run.files.readText path = .ok (task.rework parser text path) := by
  have none : task.written [] = [] := written_of_real real []
  have start : Reached parser task files (task.written []) files := none.symm ▸ Reached.start parser task files
  have reached := (runFile_visit start path).2
  obtain ⟨location, leads, _⟩ := Folder.readText_held read
  have own : files.sameFile path path = true := decide_eq_true rfl
  rw [reached.readText path, read, written_of_real real, List.nil_append, List.filter_cons_of_pos own]
  rfl

theorem run_file_result (read : files.readText path = .ok text) :
    (task.runFile parser files path).run.report = task.attempt parser path text := by
  have none : task.written [] = [] := ite_self _
  have report := (runFile_visit (none.symm ▸ Reached.start parser task files) path).1
  rw [report, visit, read, none]
  rfl

theorem run_report (tree : SourceTree) (prunes : task.transform = .removeUnusedImports) (read : files.readText path = .ok text)
    (parsed : (SourceFile.parse parser ⟨path, text⟩).run.result = .ok tree) (grammar : tree.Grammatical) (shown : tree.ImportsShown) :
    let report := (task.runFile parser files path).run.report
    report.result = (tree.removeUnusedImports task.options).result ∧
      (report.isModified = true ↔ (∃ declaration ∈ tree.importDeclarations, ∃ binding ∈ declaration.bindings,
        isRemovable task.options tree.usage binding = true) ∧ ∃ answer, report.result = .ok answer) := by
  intro report
  have result : report.result = (tree.removeUnusedImports task.options).result := by
    rw [show report = task.attempt parser path text from run_file_result parser task files path text read]
    exact attempt_pruning parser task path text prunes tree parsed grammar shown
  refine ⟨result, Iff.trans ?_ (result ▸ result_some_iff tree task.options)⟩
  rw [Report.isModified, Report.output?, result]
  cases (tree.removeUnusedImports task.options).result with
  | error fault => simp
  | ok answer => cases answer <;> simp

theorem runs_shrink (prunes : task.transform = .removeUnusedImports) (real : task.dryRun = false)
    (read : files.readText path = .ok text)
    (good : ∀ n current, (task.afterRuns parser path files n).readText path = .ok current → ReadsShown parser ⟨path, current⟩) :
    ∃ texts : Nat → Text, texts 0 = text ∧ (∀ n, (task.afterRuns parser path files n).readText path = .ok (texts n)) ∧
      (∀ n, texts (n + 1) = texts n ∨ weight (texts (n + 1)) < weight (texts n)) ∧
      (∀ first last, texts last = texts first → ∀ n, first ≤ n → n ≤ last → texts n = texts first) ∧
      ∀ n, weight text ≤ n → texts n = texts (weight text) := by
  let texts : Nat → Text := fun n => (fun current => task.rework parser current path)^[n] text
  have next (n : Nat) : texts (n + 1) = task.rework parser (texts n) path := Function.iterate_succ_apply' _ n text
  have holds (n : Nat) : (task.afterRuns parser path files n).readText path = .ok (texts n) := by
    induction n with
    | zero => exact read
    | succ n ih => rw [afterRuns, run_file_text parser task _ path (texts n) real ih, next]
  have shrinking : Shrinking (fun current => task.rework parser current path) texts :=
    ⟨next, fun n => next n ▸ rework_weight parser task path (texts n) prunes (good n (texts n) (holds n))⟩
  exact ⟨texts, rfl, holds, shrinking.less, shrinking.never_back, shrinking.settles⟩

end Files

-- A run that takes an imported name out of a file makes it smaller, even where it puts text back. So the file is reported as
-- modified just if some name can be removed and the run does not fail, and in repeated runs no text comes back: they leave the
-- file after no more runs than it had visible characters.
theorem pruning_shrinks :
    (∀ (tree : SourceTree) (options : Options), tree.Grammatical → tree.ImportsShown →
      ∀ out, (tree.removeUnusedImports options).result = .ok (some out) → weight out < weight tree.text ∧ out ≠ tree.text) ∧
    (∀ (parser : Parser Id) (task : Task) (files : Folder) (path : Path) (text : Text) (tree : SourceTree),
      task.transform = .removeUnusedImports → files.readText path = .ok text →
        (SourceFile.parse parser ⟨path, text⟩).run.result = .ok tree → tree.Grammatical → tree.ImportsShown →
          let report := (task.runFile parser files path).run.report
          report.result = (tree.removeUnusedImports task.options).result ∧
            (report.isModified = true ↔ (∃ declaration ∈ tree.importDeclarations, ∃ binding ∈ declaration.bindings,
              isRemovable task.options tree.usage binding = true) ∧ ∃ answer, report.result = .ok answer)) ∧
    ∀ (parser : Parser Id) (task : Task) (files : Folder) (path : Path) (text : Text),
      task.transform = .removeUnusedImports → task.dryRun = false → files.readText path = .ok text →
        (∀ n current, (task.afterRuns parser path files n).readText path = .ok current → ReadsShown parser ⟨path, current⟩) →
          ∃ texts : Nat → Text, texts 0 = text ∧ (∀ n, (task.afterRuns parser path files n).readText path = .ok (texts n)) ∧
            (∀ n, texts (n + 1) = texts n ∨ weight (texts (n + 1)) < weight (texts n)) ∧
            (∀ first last, texts last = texts first → ∀ n, first ≤ n → n ≤ last → texts n = texts first) ∧
            ∀ n, weight text ≤ n → texts n = texts (weight text) := by
  refine ⟨fun tree options grammar shown out result => ?_, run_report, runs_shrink⟩
  have less := result_weight tree options grammar shown out result
  exact ⟨less, fun same => Nat.lt_irrefl _ (same ▸ less)⟩

open Node in
-- What is left of the sample with a `#!` line, a header, an import that goes and one that loses a name.
def prunedSample : SourceTree where
  path := "p.js".toList
  dialect := .javaScript
  text := "#!/bin/sh\n// h\nimport b from \x22b\x22;\nb();\n".toList
  root := rule "program" 0 39 [
      rule "hash_bang_line" 0 9 [], rule "comment" 10 14 [],
      rule "import_statement" 15 33 [
        token "import" 15 21, rule "import_clause" 22 23 [rule "identifier" 22 23 []], token "from" 24 28,
        rule "string" 29 32 [token "\x22" 29 30, rule "string_fragment" 30 31 [], token "\x22" 31 32], token ";" 32 33],
      rule "expression_statement" 34 38 [
        rule "call_expression" 34 37 [
          field "function" (rule "identifier" 34 35 []),
          field "arguments" (rule "arguments" 35 37 [token "(" 35 36, token ")" 36 37])],
        token ";" 37 38]]

def prunedGrammar : Parser Id := fun _ text =>
  if text = importSample.text then ⟨false, importSample.root⟩
  else if text = prunedSample.text then ⟨false, prunedSample.root⟩
  else ⟨true, Node.rule "ERROR" 0 0 []⟩

def prunedFiles (text : Text) : Folder := .cons "p.js".toList (.file (.text text)) .empty

def prunedTask : Task := ⟨.removeUnusedImports, .default, false, false⟩

def prunedFile (text : Text) : SourceFile := ⟨"p.js".toList, text⟩

theorem samples_parsed : ((prunedFile importSample.text).parse prunedGrammar).run.result = .ok importSample ∧
    ((prunedFile prunedSample.text).parse prunedGrammar).run.result = .ok prunedSample := ⟨rfl, rfl⟩

theorem sample_results : (importSample.removeUnusedImports .default).result = .ok (some prunedSample.text) ∧
    (prunedSample.removeUnusedImports .default).result = .ok none :=
  ⟨ok_of_option _ _ (by decide +kernel), ok_of_option _ _ (by decide +kernel)⟩

-- The first run removes the names, and later ones leave the file.
theorem sample_runs (n : Nat) : (prunedTask.afterRuns prunedGrammar "p.js".toList (prunedFiles importSample.text) (n + 1)).readText
    "p.js".toList = .ok prunedSample.text := by
  have made : prunedTask.rework prunedGrammar importSample.text "p.js".toList = prunedSample.text := by
    rw [rework, pruning_result prunedGrammar prunedTask _ _ rfl importSample samples_parsed.1,
      show prunedTask.options = .default from rfl, sample_results.1]
    rfl
  have left : prunedTask.rework prunedGrammar prunedSample.text "p.js".toList = prunedSample.text := by
    rw [rework, pruning_result prunedGrammar prunedTask _ _ rfl prunedSample samples_parsed.2,
      show prunedTask.options = .default from rfl, sample_results.2]
    rfl
  induction n with
  | zero => rw [afterRuns, run_file_text prunedGrammar prunedTask _ _ importSample.text rfl rfl, made]
  | succ n ih => rw [afterRuns, run_file_text prunedGrammar prunedTask _ _ prunedSample.text rfl ih, left]

theorem sample_shrinks :
    weight prunedSample.text < weight importSample.text ∧
      (prunedTask.runFile prunedGrammar (prunedFiles importSample.text) "p.js".toList).run.report.isModified = true ∧
      (prunedTask.runFile prunedGrammar (prunedFiles prunedSample.text) "p.js".toList).run.report.isModified = false ∧
      ∃ texts : Nat → Text, texts 0 = importSample.text ∧ texts 1 = prunedSample.text ∧
        ∀ n, weight importSample.text ≤ n → texts n = texts (weight importSample.text) := by
  obtain ⟨shrinks, reports, repeats⟩ := pruning_shrinks
  obtain ⟨removed, settled⟩ := sample_results
  obtain ⟨before, after⟩ := samples_parsed
  have first : importSample.Grammatical ∧ importSample.ImportsShown := by decide +kernel
  have second : prunedSample.Grammatical ∧ prunedSample.ImportsShown := by decide +kernel
  have modified := reports prunedGrammar prunedTask (prunedFiles importSample.text) _ _ importSample rfl rfl before first.1 first.2
  have unmodified := reports prunedGrammar prunedTask (prunedFiles prunedSample.text) _ _ prunedSample rfl rfl after second.1 second.2
  have good (n : Nat) (current : Text)
      (read : (prunedTask.afterRuns prunedGrammar "p.js".toList (prunedFiles importSample.text) n).readText "p.js".toList =
        .ok current) : ReadsShown prunedGrammar ⟨"p.js".toList, current⟩ := by
    cases n with
    | zero =>
        obtain rfl : importSample.text = current := Except.ok.inj read
        exact fun tree other => Except.ok.inj (before.symm.trans other) ▸ first
    | succ n =>
        obtain rfl := Except.ok.inj ((sample_runs n).symm.trans read)
        exact fun tree other => Except.ok.inj (after.symm.trans other) ▸ second
  obtain ⟨texts, start, reads, _, _, settles⟩ := repeats prunedGrammar prunedTask (prunedFiles importSample.text) _ _ rfl rfl rfl good
  refine ⟨(shrinks importSample .default first.1 first.2 _ removed).1, ?_, ?_, texts, start, ?_, settles⟩
  · rw [Report.isModified, Report.output?, modified.1, show prunedTask.options = .default from rfl, removed]
    rfl
  · rw [Report.isModified, Report.output?, unmodified.1, show prunedTask.options = .default from rfl, settled]
    rfl
  · exact Except.ok.inj ((reads 1).symm.trans (sample_runs 0))

end Task

end ScriptTidy
