import ScriptTidy.Proofs.Import.ClauseTokens

/-! Pruning a declaration keeps exactly the elements of its clause that are not dead, if the seam of its list is clean. -/

set_option autoImplicit false

namespace ScriptTidy.SourceTree

open Node Text Place Edit Edits Lexing

def isDead (dead : List Binding) (place : Place) : Bool := dead.any (·.specifier.isAt place)

instance (tree : SourceTree) (dead : Place → Bool) (children : List Place) : Decidable (tree.CleanSeams dead children) :=
  inferInstanceAs (Decidable (∀ child ∈ children, child.kind = "named_imports" → tree.CleanSeam dead child))

section Declarations

variable (tree : SourceTree) (valid : tree.WellFormed) (declaration : ImportDeclaration)
  (declared : declaration ∈ tree.importDeclarations) (clause : Place) (found : declaration.clause = some clause)

include declared found

theorem elements_of_clause : declaration.elements = tree.clauseElements clause ∧ clause.root = tree.root := by
  obtain ⟨statement, same, _, rfl⟩ := (mem_declarations_iff tree declaration).mp declared
  have child := child_below statement clause (declaration_clause tree statement clause found).1
  refine ⟨?_, (below_root clause statement child).symm.trans same⟩
  rw [declaration_elements, found]
  rfl

-- An element is dead if it is one of the dead bindings.
theorem is_dead_iff (dead : List Binding) (own : ∀ binding ∈ dead, binding ∈ declaration.bindings) (element : ClauseElement)
    (member : element ∈ tree.clauseElements clause) :
    isDead dead element.place = true ↔ ∃ binding ∈ dead, element = .bound binding := by
  have elements := (elements_of_clause tree declaration declared clause found).1
  obtain ⟨below, made⟩ := clause_element_spec tree clause element member
  constructor
  · intro dies
    obtain ⟨binding, listed, placed⟩ := List.any_eq_true.mp dies
    obtain ⟨other, present, shape⟩ := List.mem_filterMap.mp (own binding listed)
    cases other with
    | nameless specifier => cases shape
    | bound same =>
        obtain rfl := Option.some.inj shape
        rw [elements] at present
        obtain ⟨otherBelow, otherMade⟩ := clause_element_spec tree clause (.bound same) present
        have root := (below_root same.specifier clause otherBelow).symm.trans (below_root element.place clause below)
        have equal := (is_at_iff same.specifier element.place root).mp placed
        rw [← equal] at made
        exact ⟨same, listed, made.trans otherMade.symm⟩
  · rintro ⟨binding, listed, rfl⟩
    exact List.any_eq_true.mpr ⟨binding, listed, (is_at_iff binding.specifier binding.specifier rfl).mpr rfl⟩

include valid

theorem pruned_clause_tokens (form : tree.ClauseForm clause) (dead : List Binding)
    (own : ∀ binding ∈ dead, binding ∈ declaration.bindings) :
    ∃ pruning, tree.prune declaration dead = .ok pruning ∧ (pruning.isUntouched = true ↔ dead = []) ∧
      (pruning.isRemoved = true ↔
        dead ≠ [] ∧ ∀ element ∈ declaration.elements, ∃ binding ∈ dead, element = .bound binding) ∧
      ∀ edit, pruning = .rewritten edit → ∃ text, edit = .replace clause.node text ∧
        ((∃ trailing, tokens text = tree.clauseTokens (isDead dead) trailing clause) ↔
          tree.CleanSeams (isDead dead) clause.children) := by
  obtain ⟨elements, root⟩ := elements_of_clause tree declaration declared clause found
  have nested := in_nested tree clause valid root
  have dies := is_dead_iff tree declaration declared clause found dead own
  rw [elements]
  unfold prune
  rw [found]
  cases dead with
  | nil => exact ⟨.untouched, rfl, by simp [Pruning.isUntouched], by simp [Pruning.isRemoved], fun _ other => by cases other⟩
  | cons first rest =>
      simp only [List.isEmpty_cons, Bool.false_eq_true, if_false]
      rcases clause_renders tree clause form nested (isDead (first :: rest)) with
        ⟨done, all⟩ | ⟨⟨element, member, stays⟩, text, done, same⟩
      · refine ⟨.removed (.removeStatement tree declaration.statement), ?_, by simp [Pruning.isUntouched], ?_, fun _ other => by cases other⟩
        · rw [show tree.renderClause (fun place => (first :: rest).any (·.specifier.isAt place)) clause = .ok none from done]
          rfl
        · exact iff_of_true rfl ⟨List.cons_ne_nil _ _, fun element member => (dies element member).mp (all element member)⟩
      · refine ⟨.rewritten (.replace clause.node text), ?_, by simp [Pruning.isUntouched], ?_, fun edit shape => ?_⟩
        · rw [show tree.renderClause (fun place => (first :: rest).any (·.specifier.isAt place)) clause = .ok (some text) from done]
          rfl
        · refine iff_of_false (by simp [Pruning.isRemoved]) fun every => ?_
          rw [(dies element member).mpr (every.2 element member)] at stays
          cases stays
        · obtain rfl := Pruning.rewritten.inj shape
          exact ⟨text, rfl, same⟩

end Declarations

-- A list in which a comment stands behind the comma of the first specifier, and the brace on the line of the second one.
def seamSample : SourceTree where
  path := "p.js".toList
  dialect := .javaScript
  text := "import \x7b a, // c\n  b \x7d from \x22m\x22;\n".toList
  root := rule "program" 0 33 [
      rule "import_statement" 0 32 [
        token "import" 0 6,
        rule "import_clause" 7 22 [
          rule "named_imports" 7 22 [
            token "\x7b" 7 8, rule "import_specifier" 9 10 [field "name" (rule "identifier" 9 10 [])], token "," 10 11,
            rule "comment" 12 16 [], rule "import_specifier" 19 20 [field "name" (rule "identifier" 19 20 [])],
            token "\x7d" 21 22]],
        token "from" 23 27,
        field "source" (rule "string" 28 31 [token "\x22" 28 29, rule "string_fragment" 29 30 [], token "\x22" 30 31]),
        token ";" 31 32]]

-- Without the first specifier the list is whole; without the second one the comment takes its brace.
theorem sample_seams : seamSample.WellFormed ∧ ∃ declaration ∈ seamSample.importDeclarations, ∃ clause, ∃ first ∈ declaration.bindings,
    ∃ second ∈ declaration.bindings, declaration.clause = some clause ∧ seamSample.ClauseForm clause ∧
      first.localName = "a".toList ∧ second.localName = "b".toList ∧
      (∃ text, seamSample.prune declaration [first] = .ok (.rewritten (.replace clause.node text)) ∧
        ∃ trailing, tokens text = seamSample.clauseTokens (isDead [first]) trailing clause) ∧
      ∃ text, seamSample.prune declaration [second] = .ok (.rewritten (.replace clause.node text)) ∧
        ¬ ∃ trailing, tokens text = seamSample.clauseTokens (isDead [second]) trailing clause := by
  have valid : seamSample.WellFormed := by decide +kernel
  have given : seamSample.importDeclarations.any (fun declaration => declaration.clause.any fun clause =>
      decide (seamSample.ClauseForm clause) && declaration.bindings.any fun first => declaration.bindings.any fun second =>
        first.localName == "a".toList && second.localName == "b".toList &&
          (seamSample.prune declaration [first]).toOption.any (fun pruning => !pruning.isUntouched && !pruning.isRemoved) &&
          (seamSample.prune declaration [second]).toOption.any (fun pruning => !pruning.isUntouched && !pruning.isRemoved) &&
          decide (seamSample.CleanSeams (isDead [first]) clause.children) &&
          decide (¬ seamSample.CleanSeams (isDead [second]) clause.children)) = true := by decide +kernel
  obtain ⟨declaration, declared, given⟩ := List.any_eq_true.mp given
  obtain ⟨clause, found, given⟩ := (Option.any_eq_true _ _).mp given
  rw [Bool.and_eq_true, decide_eq_true_eq] at given
  obtain ⟨form, given⟩ := given
  obtain ⟨first, firstMember, given⟩ := List.any_eq_true.mp given
  obtain ⟨second, secondMember, given⟩ := List.any_eq_true.mp given
  simp only [Bool.and_eq_true, decide_eq_true_eq, beq_iff_eq] at given
  obtain ⟨⟨⟨⟨⟨firstName, secondName⟩, one⟩, other⟩, clean⟩, unclean⟩ := given
  have kept (binding : Binding) (member : binding ∈ declaration.bindings)
      (stays : (seamSample.prune declaration [binding]).toOption.any (fun pruning => !pruning.isUntouched && !pruning.isRemoved) = true) :
      ∃ text, seamSample.prune declaration [binding] = .ok (.rewritten (.replace clause.node text)) ∧
        ((∃ trailing, tokens text = seamSample.clauseTokens (isDead [binding]) trailing clause) ↔
          seamSample.CleanSeams (isDead [binding]) clause.children) := by
    obtain ⟨pruning, done, _, _, rewritten⟩ := pruned_clause_tokens seamSample valid declaration declared clause found form [binding]
      fun other listed => List.mem_singleton.mp listed ▸ member
    rw [done] at stays
    cases pruning with
    | untouched => cases stays
    | removed edit => cases stays
    | rewritten edit =>
        obtain ⟨text, rfl, same⟩ := rewritten edit rfl
        exact ⟨text, done, same⟩
  obtain ⟨front, frontDone, frontSame⟩ := kept first firstMember one
  obtain ⟨back, backDone, backSame⟩ := kept second secondMember other
  exact ⟨valid, declaration, declared, clause, first, firstMember, second, secondMember, found, form, firstName, secondName,
    ⟨front, frontDone, frontSame.mpr clean⟩, back, backDone, fun whole => unclean (backSame.mp whole)⟩

end ScriptTidy.SourceTree
