import ScriptTidy.Proofs.Import.Sound

/-! Trees that leave no more than blanks between the nodes at the top, and the comments that stand there. -/

set_option autoImplicit false

namespace ScriptTidy.SourceTree

open Text Place

structure Spaced (tree : SourceTree) : Prop where
  gaps : (outside (fun offset => tree.root.children.any fun child => child.start ≤ offset && offset < child.stop) 0
    tree.text).all isSkipped = true
  top : ∀ place ∈ tree.rootPlace.children, place.node.label.named = true ∧
    (place.kind = "hash_bang_line" → place.before.isEmpty = true)
  edges : ∀ place ∈ tree.rootPlace.children ++ tree.find "import_clause", place.start < place.stop ∧
    tree.text.StartsShown place.start
  comments : ∀ place ∈ tree.find "comment", tree.text.EndsSolid place.stop

instance (tree : SourceTree) : Decidable tree.Spaced :=
  decidable_of_iff ((outside (fun offset => tree.root.children.any fun child => child.start ≤ offset && offset < child.stop) 0
        tree.text).all isSkipped = true ∧
      (∀ place ∈ tree.rootPlace.children, place.node.label.named = true ∧
        (place.kind = "hash_bang_line" → place.before.isEmpty = true)) ∧
      (∀ place ∈ tree.rootPlace.children ++ tree.find "import_clause", place.start < place.stop ∧
        tree.text.StartsShown place.start) ∧
      ∀ place ∈ tree.find "comment", tree.text.EndsSolid place.stop)
    ⟨fun ⟨gaps, top, edges, comments⟩ => ⟨gaps, top, edges, comments⟩,
      fun spaced => ⟨spaced.gaps, spaced.top, spaced.edges, spaced.comments⟩⟩

section Comments

variable (tree : SourceTree) (place : Place)

theorem leading_cases : tree.leadingComments place = (place.before.takeWhile (·.isComment)).reverse ∨
    ∃ previous others first, place.before.dropWhile (·.isComment) = previous :: others ∧
      (place.before.takeWhile (·.isComment)).reverse = first :: tree.leadingComments place ∧
      tree.startRow first = tree.stopRow previous := by
  unfold leadingComments
  dsimp only
  split
  next previous others first rest shape comments =>
    split
    next near => exact .inr ⟨previous, others, first, shape, comments, near⟩
    next => exact .inl comments.symm
  next => exact .inl rfl

-- A comment leads the next place that is none, or stands on the line on which something else ends right in front of it.
theorem leads_next (parent : Label) (above : List Step) (passed : List Node) (comment : Node) (middle : List Node)
    (next : Node) (rest : List Node) (isComment : comment.isComment = true)
    (comments : ∀ node ∈ middle, node.isComment = true) :
    comment ∈ tree.leadingComments ⟨next, ⟨parent, middle.reverse ++ comment :: passed, rest⟩ :: above⟩ ∨
      ∃ previous others, passed = previous :: others ∧ previous.isComment = false ∧
        tree.startRow comment = tree.stopRow previous := by
  have taken : ((middle.reverse ++ comment :: passed).takeWhile (·.isComment)).reverse =
      (passed.takeWhile (·.isComment)).reverse ++ comment :: middle := by
    rw [List.takeWhile_append_of_pos fun node member => comments node (List.mem_reverse.mp member),
      List.takeWhile_cons_of_pos isComment]
    simp
  have dropped : (middle.reverse ++ comment :: passed).dropWhile (·.isComment) = passed.dropWhile (·.isComment) := by
    rw [List.dropWhile_append_of_pos fun node member => comments node (List.mem_reverse.mp member),
      List.dropWhile_cons_of_pos isComment]
  rcases leading_cases tree ⟨next, ⟨parent, middle.reverse ++ comment :: passed, rest⟩ :: above⟩ with
    whole | ⟨previous, others, first, behind, shape, near⟩
  · rw [whole, Place.before, taken]
    exact .inl (by simp)
  · rw [Place.before, dropped] at behind
    rw [Place.before, taken] at shape
    cases front : (passed.takeWhile (·.isComment)).reverse with
    | nil =>
        rw [front, List.nil_append] at shape
        obtain ⟨rfl, _⟩ := List.cons.inj shape
        have none := List.reverse_eq_nil_iff.mp front
        cases passed with
        | nil => cases behind
        | cons head tail =>
            cases solid : head.isComment with
            | true =>
                rw [List.takeWhile_cons_of_pos solid] at none
                cases none
            | false =>
                rw [List.dropWhile_cons_of_neg (by simp [solid])] at behind
                obtain ⟨rfl, rfl⟩ := List.cons.inj behind
                exact .inr ⟨head, tail, rfl, solid, near⟩
    | cons head tail =>
        rw [front, List.cons_append] at shape
        rw [← (List.cons.inj shape).2]
        exact .inl (by simp)

theorem attached_start_le_leading (nested : place.InNested tree.text) (comment : Node)
    (member : comment ∈ tree.leadingComments place) : tree.attachedStart place ≤ comment.start := by
  have order := leading_in_order tree place nested
  unfold attachedStart
  cases shape : tree.leadingComments place with
  | nil => rw [shape] at member; exact absurd member List.not_mem_nil
  | cons first rest =>
      have inside := leading_comment_mem tree place first (by simp [shape])
      have forward := (siblings_nested tree.text place nested first
        (List.mem_append_left _ ((List.takeWhile_sublist _).subset inside))).ordered
      rw [shape] at member order
      rcases List.mem_cons.mp member with same | later
      · exact Nat.le_of_eq (congrArg Node.start same).symm
      · exact Nat.le_trans forward ((List.pairwise_cons.mp order).1 comment later)

theorem interpreter_found (top : place.parent? = some tree.rootPlace) (front : place.before = [])
    (kind : place.kind = "hash_bang_line") :
    ∃ line, InterpreterLine.find? tree = some line ∧ line.start = place.start ∧ line.stop = place.stop := by
  have children := parent_children place tree.rootPlace top
  rw [front, List.reverse_nil, List.nil_append] at children
  have shape : tree.root.children = place.node :: place.after := children
  unfold InterpreterLine.find?
  simp only [shape, show place.node.kind = "hash_bang_line" from kind, beq_self_eq_true, if_true]
  exact ⟨_, rfl, rfl, rfl⟩

variable (grammar : tree.Grammatical) (spaced : tree.Spaced)

include grammar

-- No comment begins on the line of a `#!` line.
theorem interpreter_row (first comment : Place) (top : first.parent? = some tree.rootPlace) (front : first.before = [])
    (kind : first.kind = "hash_bang_line") (same : comment.root = tree.root) (isComment : comment.node.isComment = true)
    (behind : first.stop ≤ comment.start) : tree.startRow comment.node ≠ tree.stopRow first.node := by
  have nested := node_nested tree.text first (in_nested tree first grammar.toWellFormed (top_root tree first top))
  have own := node_nested tree.text comment (in_nested tree comment grammar.toWellFormed same)
  have solid := comment_solid tree grammar.toWellFormed comment.node comment rfl same isComment
  obtain ⟨line, found, _, stop⟩ := interpreter_found tree first top front kind
  have ends := stop ▸ grammar.interpreter line found
  have whole := between_append_after tree.text first.stop comment.start nested.last own.first behind
  have line := before_append_between tree.text first.stop comment.start nested.last own.first behind
  rw [EndsLine, ← whole] at ends
  unfold startRow stopRow row
  rw [← show comment.start = comment.node.start from rfl, ← show first.stop = first.node.stop from rfl, ← line, List.count_append]
  cases gap : tree.text.between first.stop comment.start with
  | nil =>
      obtain ⟨char, rest, shape, visible⟩ := starts_solid_cons tree.text comment.start solid
      rw [gap, shape] at ends
      have equal : char = '\n' := by simpa using ends
      rw [equal] at visible
      exact absurd visible (by decide)
  | cons char rest =>
      rw [gap] at ends
      have equal : char = '\n' := by simpa using ends
      rw [equal, List.count_cons_self]
      omega

include spaced

omit grammar in
theorem top_cases (top : place.parent? = some tree.rootPlace) : place.node.isComment = true ∨
    (place.kind = "hash_bang_line" ∧ place.before = []) ∨ place ∈ tree.statements := by
  have shape := spaced.top place ((mem_children_iff tree.rootPlace place).mpr top)
  by_cases isComment : place.node.isComment = true
  · exact .inl isComment
  · by_cases hash : place.kind = "hash_bang_line"
    · exact .inr (.inl ⟨hash, List.isEmpty_iff.mp (shape.2 hash)⟩)
    · exact .inr (.inr ((mem_statements_iff tree place).mpr ⟨top, shape.1, by simpa using isComment, hash⟩))

theorem comment_before_statement (parent : Label) (above : List Step) (passed : List Node) (comment : Node) (middle : List Node)
    (next : Node) (rest : List Node)
    (top : parent? ⟨comment, ⟨parent, passed, middle ++ next :: rest⟩ :: above⟩ = some tree.rootPlace)
    (isComment : comment.isComment = true) (comments : ∀ node ∈ middle, node.isComment = true)
    (solid : next.isComment = false) : ∃ statement ∈ tree.statements, tree.attachedStart statement ≤ comment.start ∧
      comment.stop ≤ tree.attachedStop statement := by
  have same := top_root tree _ top
  have nested := in_nested tree _ grammar.toWellFormed same
  have ahead := Earlier.siblings parent above passed comment middle next rest
  have nextTop : parent? ⟨next, ⟨parent, middle.reverse ++ comment :: passed, rest⟩ :: above⟩ = some tree.rootPlace := by
    rw [← top]
    simp [parent?, Step.close]
  have nextNested := in_nested tree _ grammar.toWellFormed (top_root tree _ nextTop)
  rcases leads_next tree parent above passed comment middle next rest isComment comments with
    leads | ⟨previous, others, rfl, previousSolid, near⟩
  · have kept := top_cases tree _ spaced nextTop
    rw [show Place.node ⟨next, ⟨parent, middle.reverse ++ comment :: passed, rest⟩ :: above⟩ = next from rfl, solid] at kept
    rcases kept with other | ⟨_, empty⟩ | member
    · exact Bool.noConfusion other
    · simp [Place.before] at empty
    · have apart := earlier_apart tree.text _ _ nested ahead
      have forward := (node_nested tree.text _ nextNested).ordered
      have last := le_attached_stop tree _ nextNested
      exact ⟨_, member, attached_start_le_leading tree _ nextNested comment leads, Nat.le_trans apart (Nat.le_trans forward last)⟩
  · have behind := Earlier.siblings parent above others previous [] comment (middle ++ next :: rest)
    have previousTop := sibling_top tree _ _ behind top
    have previousNested := in_nested tree _ grammar.toWellFormed (top_root tree _ previousTop)
    have apart := earlier_apart tree.text _ _ previousNested behind
    have kept := top_cases tree _ spaced previousTop
    rw [show Place.node ⟨previous, ⟨parent, others, comment :: (middle ++ next :: rest)⟩ :: above⟩ = previous from rfl,
      previousSolid] at kept
    rcases kept with other | ⟨kind, empty⟩ | member
    · exact Bool.noConfusion other
    · exact absurd near (interpreter_row tree grammar _ _ previousTop empty kind same isComment apart)
    · have first := attached_start_le tree _ previousNested
      have forward := (node_nested tree.text _ previousNested).ordered
      refine ⟨_, member, Nat.le_trans first (Nat.le_trans forward apart), Nat.le_of_eq ?_⟩
      simp [attachedStop, trailingComment?, Place.after, isComment, near]

-- A comment at the top goes with a statement, or stands behind all of them.
theorem comment_cases (comment : Place) (top : comment.parent? = some tree.rootPlace) (isComment : comment.node.isComment = true) :
    (∃ statement ∈ tree.statements, tree.attachedStart statement ≤ comment.start ∧
      comment.stop ≤ tree.attachedStop statement) ∨
      ∀ statement ∈ tree.statements, tree.attachedStop statement ≤ comment.start := by
  obtain ⟨node, steps⟩ := comment
  cases steps with
  | nil => cases top
  | cons step above =>
      obtain ⟨parent, passed, after⟩ := step
      cases rest : after.dropWhile (·.isComment) with
      | cons next others =>
          have whole : after.takeWhile (·.isComment) ++ next :: others = after := rest ▸ List.takeWhile_append_dropWhile
          have solid : next.isComment = false := by
            have head := List.head?_dropWhile_not (·.isComment) after
            rw [rest] at head
            simpa using head
          rw [← whole] at top
          rw [← whole]
          exact .inl (comment_before_statement tree grammar spaced parent above passed node _ next others top isComment
            (fun other member => List.mem_takeWhile_imp member) solid)
      | nil =>
          have comments := List.dropWhile_eq_nil_iff.mp rest
          by_cases some : ∃ statement ∈ tree.statements, tree.attachedStart statement ≤ node.start ∧
              node.stop ≤ tree.attachedStop statement
          · exact .inl some
          · refine .inr fun statement member => ?_
            obtain ⟨statementTop, _, solid, _⟩ := (mem_statements_iff tree statement).mp member
            have nested := in_nested tree statement grammar.toWellFormed (statement_root tree statement member)
            have order := children_cases tree.rootPlace statement _ statementTop top fun equal => by
              rw [equal] at solid
              exact Bool.noConfusion (solid.symm.trans isComment)
            rcases order with earlier | later
            · have apart := earlier_apart tree.text statement _ nested earlier
              cases earlier with
              | siblings _ _ earlierPassed first middle _ _ =>
                  rcases attached_stop_cases tree ⟨first, ⟨parent, earlierPassed, middle ++ node :: after⟩ :: above⟩ with
                    same | ⟨trailing, more, shape, _, _, same⟩
                  · exact same ▸ apart
                  · have order := (siblings_apart tree.text _ nested).2.2.2
                    rw [Place.after] at order shape
                    dsimp only at order shape
                    cases middle with
                    | nil =>
                        obtain ⟨rfl, rfl⟩ := List.cons.inj shape
                        have begins := attached_start_le tree _ nested
                        have forward := (node_nested tree.text _ nested).ordered
                        exact absurd ⟨_, member, Nat.le_trans begins (Nat.le_trans forward apart), Nat.le_of_eq same.symm⟩ some
                    | cons head tail =>
                        obtain ⟨rfl, rfl⟩ := List.cons.inj shape
                        exact same ▸ (List.pairwise_cons.mp order).1 node (by simp)
            · cases later with
              | siblings _ _ _ _ middle second more =>
                  have isComment := comments second (by simp)
                  rw [show Place.node ⟨second, ⟨parent, middle.reverse ++ node :: passed, more⟩ :: above⟩ = second from rfl,
                    isComment] at solid
                  exact Bool.noConfusion solid

end Comments

end ScriptTidy.SourceTree
