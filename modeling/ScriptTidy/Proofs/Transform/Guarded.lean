import ScriptTidy.Proofs.Tree.Folded
import ScriptTidy.Proofs.Tree.WellFormed
import ScriptTidy.Transform.AsyncBodies

/-! Trees in which bodies of async functions hold one `try` statement, and how deep bodies without one are nested. -/

set_option autoImplicit false

namespace ScriptTidy

namespace Label

-- What is read of a label to find bodies.
def bare (label : Label) : String × List String × Bool := (label.kind, label.fields, label.named)

end Label

namespace Node

-- `catch (err) {console.error(err);}`
def catchClause : Node :=
  field "handler" (rule "catch_clause" 0 0 [
    token "catch" 0 0, token "(" 0 0, field "parameter" (rule "identifier" 0 0 []), token ")" 0 0,
    field "body" (rule "statement_block" 0 0 [
      token "\x7b" 0 0,
      rule "expression_statement" 0 0 [
        rule "call_expression" 0 0 [
          field "function" (rule "member_expression" 0 0 [
            field "object" (rule "identifier" 0 0 []), token "." 0 0,
            field "property" (rule "property_identifier" 0 0 [])]),
          field "arguments" (rule "arguments" 0 0 [token "(" 0 0, rule "identifier" 0 0 [], token ")" 0 0])],
        token ";" 0 0],
      token "\x7d" 0 0])])

def tryBlock : Label := ⟨"statement_block", ["body"], true, false, 0, 0⟩

-- The block with one `try` statement in it that holds its children. The offsets of what is new do not matter.
def guarded : Node → Node
  | .mk label children => .mk label [
      token "\x7b" 0 0, rule "try_statement" 0 0 [token "try" 0 0, .mk tryBlock children, catchClause], token "\x7d" 0 0]

def rebuilt (selected : Bool) (label : Label) (children : List Node) : Node :=
  if selected then guarded (.mk label children) else .mk label children

def guardWhere (selected : Place → Bool) (root : Node) : Node :=
  root.foldVia (fun place children => rebuilt (selected place) place.node.label children) []

def isOpenBlock (node : Node) : Bool :=
  node.kind == "statement_block" && node.label.fields.contains "body" && node.needsWrapping

end Node

-- Holds if the next child of a node is the body of an async function, should it be a block that fills the field.
def opens (parent : Label) (passed : List Label) : Bool :=
  functionKinds.contains parent.kind &&
    (passed.reverse.takeWhile (·.kind != "statement_block")).any (·.kind == "async") &&
    !passed.any (·.fields.contains "body")

namespace Place

def isOuterBody (place : Place) : Bool := place.isUnwrappedBody && !place.ancestors.any (·.isUnwrappedBody)

theorem takeWhile_stops {α : Type} (wanted : α → Bool) (stop : α) (after : List α) (stops : wanted stop = false) :
    (before : List α) → (before ++ stop :: after).takeWhile wanted = before.takeWhile wanted
  | [] => by simp [stops]
  | first :: rest => by
      simp only [List.cons_append, List.takeWhile_cons, takeWhile_stops wanted stop after stops rest]

-- Only what is in front of a block tells whether the function that holds it is async.
theorem async_in_front (node : Node) (step : Step) (block : node.kind = "statement_block") :
    (step.close node).isAsyncFunction = (functionKinds.contains step.parent.kind &&
      ((step.before.map Node.label).reverse.takeWhile (·.kind != "statement_block")).any (·.kind == "async")) := by
  have stops : (node.kind != "statement_block") = false := by simp [block]
  rw [← List.map_reverse, List.takeWhile_map, List.any_map]
  simp only [Node.isAsyncFunction, Step.close, Node.children]
  rw [takeWhile_stops (fun child : Node => child.kind != "statement_block") node step.after stops]
  rfl

theorem unwrapped_body_step (node : Node) (step : Step) (above : List Step) :
    (⟨node, step :: above⟩ : Place).isUnwrappedBody =
      (opens step.parent (step.before.map Node.label) && node.isOpenBlock) := by
  have parts : (⟨node, step :: above⟩ : Place).isUnwrappedBody = (node.kind == "statement_block" && node.needsWrapping &&
      (node.label.fields.contains "body" && true && !step.before.any (·.label.fields.contains "body")) &&
      (step.close node).isAsyncFunction) := rfl
  by_cases block : node.kind = "statement_block"
  · rw [parts, async_in_front node step block, Node.isOpenBlock, opens, List.any_map, Bool.and_true]
    ac_rfl
  · have other : (node.kind == "statement_block") = false := beq_false_of_ne block
    rw [parts, Node.isOpenBlock, other]
    simp

theorem unwrapped_body_root (node : Node) : (⟨node, []⟩ : Place).isUnwrappedBody = false := by
  simp [isUnwrappedBody, isField]

end Place

namespace Node

def flagged (parent : Label) (passed : List Label) : List Node → List (Bool × Node)
  | [] => []
  | child :: rest => (opens parent passed, child) :: flagged parent (child.label :: passed) rest

section Gather

variable {β : Type} (make : Bool → Node → List β → β)

mutual
def gather (opened : Bool) : Node → β
  | .mk label children =>
      make (opened && (Node.mk label children).isOpenBlock) (.mk label children) (forestGather label [] children)
def forestGather (parent : Label) (passed : List Label) : List Node → List β
  | [] => []
  | child :: rest => gather (opens parent passed) child :: forestGather parent (child.label :: passed) rest
end

theorem forest_gather_map (parent : Label) : ∀ (passed : List Label) (nodes : List Node),
    forestGather make parent passed nodes = (flagged parent passed nodes).map fun entry => gather make entry.1 entry.2
  | _, [] => rfl
  | passed, child :: rest =>
      congrArg (gather make (opens parent passed) child :: ·) (forest_gather_map parent (child.label :: passed) rest)

theorem gather_mk (opened : Bool) (label : Label) (children : List Node) :
    gather make opened (.mk label children) =
      make (opened && (Node.mk label children).isOpenBlock) (.mk label children)
        ((flagged label [] children).map fun entry => gather make entry.1 entry.2) := by
  rw [gather, forest_gather_map]

-- What the steps above tell of a node.
def openedBy : List Step → Bool
  | [] => false
  | step :: _ => opens step.parent (step.before.map Node.label)

theorem unwrapped_body_via (node : Node) (above : List Step) :
    (⟨node, above⟩ : Place).isUnwrappedBody = (openedBy above && node.isOpenBlock) := by
  cases above with
  | nil => exact Place.unwrapped_body_root node
  | cons step above => exact Place.unwrapped_body_step node step above

mutual
theorem fold_gather (above : List Step) (node : Node) :
    node.foldVia (fun place results => make place.isUnwrappedBody place.node results) above =
      node.gather make (openedBy above) := by
  cases node with
  | mk label children =>
      rw [foldVia, gather, unwrapped_body_via, fold_forest_gather label above [] children]
      rfl
theorem fold_forest_gather (parent : Label) (above : List Step) (passed nodes : List Node) :
    forestFoldVia (fun place results => make place.isUnwrappedBody place.node results) parent above passed nodes =
      forestGather make parent (passed.map Node.label) nodes := by
  cases nodes with
  | nil => rfl
  | cons child rest =>
      rw [forestFoldVia, forestGather, fold_gather _ child, fold_forest_gather parent above (child :: passed) rest]
      rfl
end

end Gather

section Outer

variable {β : Type} (make : Bool → Node → List β → β) (plain : Node → β)

-- Below an outer body nothing is looked at.
def outerly (here : Bool) (node : Node) (results : List β) : β :=
  if here then make true node (node.children.map plain) else make false node results

mutual
theorem fold_outer (below : ∀ label children, plain (.mk label children) = make false (.mk label children) (children.map plain))
    (above : List Step) (node : Node) :
    node.foldVia (fun place results => make place.isOuterBody place.node results) above =
      if (Place.ancestorsVia node above).any (·.isUnwrappedBody) then plain node
      else node.gather (outerly make plain) (openedBy above) := by
  cases node with
  | mk label children =>
      rw [foldVia, gather, fold_forest_outer below label above [] children children rfl]
      simp only [Place.isOuterBody, Place.ancestors, unwrapped_body_via, List.any_cons]
      cases (Place.ancestorsVia (.mk label children) above).any (·.isUnwrappedBody) with
      | true => simp [below]
      | false => cases openedBy above && (Node.mk label children).isOpenBlock <;> rfl
theorem fold_forest_outer
    (below : ∀ label children, plain (.mk label children) = make false (.mk label children) (children.map plain))
    (parent : Label) (above : List Step) (passed nodes children : List Node) (whole : passed.reverse ++ nodes = children) :
    forestFoldVia (fun place results => make place.isOuterBody place.node results) parent above passed nodes =
      if ((⟨.mk parent children, above⟩ : Place) :: Place.ancestors ⟨.mk parent children, above⟩).any
        (·.isUnwrappedBody) then nodes.map plain
      else forestGather (outerly make plain) parent (passed.map Node.label) nodes := by
  cases nodes with
  | nil => simp [forestFoldVia, forestGather]
  | cons child rest =>
      have close : Place.ancestorsVia child (⟨parent, passed, rest⟩ :: above) =
          (⟨.mk parent children, above⟩ : Place) :: Place.ancestors ⟨.mk parent children, above⟩ := by
        rw [← whole]
        rfl
      rw [forestFoldVia, fold_outer below _ child, close,
        fold_forest_outer below parent above (child :: passed) rest children (by simp [← whole])]
      split <;> rfl
end

end Outer

def depthAt (here : Bool) (_ : Node) (depths : List Nat) : Nat := here.toNat + depths.foldr max 0

def countAt (here : Bool) (_ : Node) (counts : List Nat) : Nat := here.toNat + counts.foldr (· + ·) 0

def rebuildAt (here : Bool) (node : Node) (children : List Node) : Node := rebuilt here node.label children

def depth (opened : Bool) (node : Node) : Nat := node.gather depthAt opened

def bodies (opened : Bool) (node : Node) : Nat := node.gather countAt opened

def outerBodies (opened : Bool) (node : Node) : Nat := node.gather (outerly countAt fun _ => 0) opened

def wrapAll (opened : Bool) (node : Node) : Node := node.gather rebuildAt opened

def wrapOuter (opened : Bool) (node : Node) : Node := node.gather (outerly rebuildAt id) opened

theorem count_none {α : Type} : (entries : List α) → (entries.map fun _ => 0).foldr (· + ·) 0 = 0
  | [] => rfl
  | _ :: rest => (Nat.zero_add _).trans (count_none rest)

theorem deepest_unwrapped (root : Node) : root.deepest (·.isUnwrappedBody) = root.depth false :=
  (deepest_fold _ root).trans (fold_gather depthAt [] root)

theorem count_unwrapped (root : Node) : root.places.countP (·.isUnwrappedBody) = root.bodies false :=
  (count_places _ [] root).trans (fold_gather countAt [] root)

theorem count_outer (root : Node) : root.places.countP (·.isOuterBody) = root.outerBodies false :=
  (count_places _ [] root).trans
    (fold_outer countAt (fun _ => 0) (fun _ children => ((Nat.zero_add _).trans (count_none children)).symm) [] root)

theorem guard_unwrapped (root : Node) : root.guardWhere (·.isUnwrappedBody) = root.wrapAll false :=
  fold_gather rebuildAt [] root

theorem guard_outer (root : Node) : root.guardWhere (·.isOuterBody) = root.wrapOuter false :=
  fold_outer rebuildAt id (fun label children => by simp [rebuildAt, rebuilt, Node.label]) [] root

section Alike

variable {label other : Label} {children others : List Node}

theorem opens_alike {passed front : List Label} (kind : label.kind = other.kind)
    (same : passed.map Label.bare = front.map Label.bare) : opens label passed = opens other front := by
  have through (labels : List Label) : ((labels.reverse.takeWhile (·.kind != "statement_block")).any (·.kind == "async") &&
      !labels.any (·.fields.contains "body")) =
      (((labels.map Label.bare).reverse.takeWhile (·.1 != "statement_block")).any (·.1 == "async") &&
        !(labels.map Label.bare).any (·.2.1.contains "body")) := by
    rw [← List.map_reverse, List.takeWhile_map, List.any_map, List.any_map]
    rfl
  rw [opens, opens, Bool.and_assoc, Bool.and_assoc, through, through, same, kind]

def wrapsStatements : List (String × List String × Bool) → Bool
  | [] => false
  | [only] => only.1 != "try_statement"
  | _ => true

theorem needs_wrapping_alike (same : children.map (·.label.bare) = others.map (·.label.bare)) :
    (Node.mk label children).needsWrapping = (Node.mk other others).needsWrapping := by
  have through (label : Label) (nodes : List Node) : (Node.mk label nodes).needsWrapping =
      wrapsStatements ((nodes.map (·.label.bare)).filter fun bare => bare.2.2 && bare.1 != "comment") := by
    rw [List.filter_map]
    have merged : nodes.filter ((fun bare => bare.2.2 && bare.1 != "comment") ∘ (·.label.bare)) =
        (Node.mk label nodes).namedChildren.filter (!·.isComment) := by
      rw [namedChildren, List.filter_filter]
      refine List.filter_congr fun node _ => ?_
      exact Bool.and_comm _ _
    rw [merged, needsWrapping]
    cases (Node.mk label nodes).namedChildren.filter (!·.isComment) with
    | nil => rfl
    | cons first rest => cases rest <;> rfl
  rw [through, through, same]

theorem open_block_alike (bare : label.bare = other.bare) (same : children.map (·.label.bare) = others.map (·.label.bare)) :
    (Node.mk label children).isOpenBlock = (Node.mk other others).isOpenBlock := by
  have kind : label.kind = other.kind := congrArg (·.1) bare
  have fields : label.fields = other.fields := congrArg (·.2.1) bare
  have wrapping : (Node.mk label children).needsWrapping = (Node.mk other others).needsWrapping := needs_wrapping_alike same
  simp only [isOpenBlock, wrapping, Node.kind, Node.label, kind, fields]

theorem flagged_nodes (label : Label) (nodes : List Node) : ∀ passed, (flagged label passed nodes).map (·.2) = nodes := by
  induction nodes with
  | nil => intro passed; rfl
  | cons child rest ih => intro passed; exact congrArg (child :: ·) (ih _)

theorem flagged_mem {entry : Bool × Node} (member : entry ∈ flagged label [] children) : entry.2 ∈ children := by
  rw [← flagged_nodes label children []]
  exact List.mem_map_of_mem member

-- Children that are changed but keep their labels, up to offsets, are flagged as before.
theorem flagged_alike (change : Bool × Node → Node) (kind : label.kind = other.kind) (nodes : List Node) :
    ∀ passed front, passed.map Label.bare = front.map Label.bare →
      (∀ entry ∈ flagged other front nodes, (change entry).label.bare = entry.2.label.bare) →
      flagged label passed ((flagged other front nodes).map change) =
        (flagged other front nodes).map fun entry => (entry.1, change entry) := by
  induction nodes with
  | nil => intro passed front same kept; rfl
  | cons child rest ih =>
      intro passed front same kept
      have first := kept _ List.mem_cons_self
      rw [flagged, List.map_cons, flagged, opens_alike kind same, List.map_cons,
        ih _ (child.label :: front) (by rw [List.map_cons, List.map_cons, same, first])
          fun entry member => kept entry (List.mem_cons_of_mem _ member)]

theorem flagged_kind (kind : label.kind = other.kind) (nodes : List Node) (passed : List Label) :
    flagged label passed nodes = flagged other passed nodes := by
  have same := flagged_alike (fun entry => entry.2) kind nodes passed passed rfl fun _ _ => rfl
  rwa [flagged_nodes, List.map_id''] at same
  exact fun _ => rfl

end Alike

end Node

end ScriptTidy
