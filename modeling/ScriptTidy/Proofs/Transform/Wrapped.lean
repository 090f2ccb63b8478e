import ScriptTidy.Proofs.Transform.Guarded

/-! What one pass over the outer bodies does to the bodies of a tree. -/

set_option autoImplicit false

namespace ScriptTidy.Node

section Unplaced

theorem unplaced_bare (node : Node) : node.unplaced.label.bare = node.label.bare := by
  cases node with
  | mk label children => rfl

theorem forest_unplaced_bare (children : List Node) :
    (forestUnplaced children).map (·.label.bare) = children.map (·.label.bare) := by
  rw [forest_unplaced_map, List.map_map]
  exact List.map_congr_left fun child _ => unplaced_bare child

theorem flagged_unplaced (label : Label) (nodes : List Node) (passed : List Label) :
    flagged label.unplaced passed (forestUnplaced nodes) =
      (flagged label passed nodes).map fun entry => (entry.1, entry.2.unplaced) := by
  have changed : forestUnplaced nodes = (flagged label passed nodes).map fun entry => entry.2.unplaced := by
    conv => lhs; rw [forest_unplaced_map, ← flagged_nodes label nodes passed, List.map_map]
    rfl
  have kind : label.unplaced.kind = label.kind := rfl
  rw [changed]
  exact flagged_alike (fun entry => entry.2.unplaced) kind nodes passed passed rfl fun entry _ => unplaced_bare entry.2

theorem gather_unplaced {β : Type} (make : Bool → Node → List β → β) : ∀ (node : Node) (opened : Bool),
    node.unplaced.gather make opened = node.gather (fun here node results => make here node.unplaced results) opened := by
  refine induct fun label children ih opened => ?_
  have block : (Node.mk label.unplaced (forestUnplaced children)).isOpenBlock = (Node.mk label children).isOpenBlock :=
    open_block_alike rfl (forest_unplaced_bare children)
  rw [unplaced, gather_mk, gather_mk, flagged_unplaced, List.map_map, block]
  congr 1
  exact List.map_congr_left fun entry member => ih entry.2 (flagged_mem member) entry.1

theorem depth_unplaced (opened : Bool) (node : Node) : node.unplaced.depth opened = node.depth opened :=
  gather_unplaced depthAt node opened

theorem bodies_unplaced (opened : Bool) (node : Node) : node.unplaced.bodies opened = node.bodies opened :=
  gather_unplaced countAt node opened

theorem rebuilt_unplaced (here : Bool) (label : Label) (children : List Node) :
    (rebuilt here label children).unplaced = rebuilt here label.unplaced (children.map unplaced) := by
  rw [← forest_unplaced_map]
  cases here <;> rfl

theorem wrap_all_unplaced : ∀ (node : Node) (opened : Bool),
    (node.wrapAll opened).unplaced = node.unplaced.wrapAll opened := by
  refine induct fun label children ih opened => ?_
  rw [wrapAll, wrapAll, gather_unplaced, gather_mk, gather_mk, rebuildAt, rebuilt_unplaced, List.map_map]
  refine congrArg (rebuilt _ label.unplaced) (List.map_congr_left fun entry member => ?_)
  exact (ih entry.2 (flagged_mem member) entry.1).trans (gather_unplaced rebuildAt entry.2 entry.1)

end Unplaced

section Pass

variable {β : Type} (make : Bool → Label → List β → β)

def byLabel (here : Bool) (node : Node) (results : List β) : β := make here node.label results

-- A fold over a block with one `try` statement in it, given the results for what the block held before.
def guardedAt (label : Label) (results : List β) : β :=
  let bare (kind : String) : β := make false (token kind 0 0).label []
  make false label [
    bare "\x7b",
    make false (rule "try_statement" 0 0 []).label [
      bare "try", make false tryBlock results, catchClause.gather (byLabel make) false],
    bare "\x7d"]

theorem guarded_not_open (label : Label) (children : List Node) : (guarded (.mk label children)).isOpenBlock = false := by
  simp [guarded, isOpenBlock, needsWrapping, namedChildren, token, rule, isComment, Node.kind, Node.children, Node.label]

theorem gather_guarded (opened : Bool) (label : Label) (children : List Node) (block : label.kind = "statement_block") :
    (guarded (.mk label children)).gather (byLabel make) opened =
      guardedAt make label ((flagged label [] children).map fun entry => entry.2.gather (byLabel make) entry.1) := by
  have single (kind : String) (opened : Bool) : (token kind 0 0).gather (byLabel make) opened =
      make false (token kind 0 0).label [] := by
    rw [token, gather_mk]
    simp [isOpenBlock, byLabel, flagged, Node.label]
  have closed (passed : List Label) : opens (rule "try_statement" 0 0 []).label passed = false := rfl
  have held (opened : Bool) : (rule "try_statement" 0 0 [token "try" 0 0, .mk tryBlock children, catchClause]).gather
      (byLabel make) opened = make false (rule "try_statement" 0 0 []).label [
        make false (token "try" 0 0).label [],
        make false tryBlock ((flagged label [] children).map fun entry => entry.2.gather (byLabel make) entry.1),
        catchClause.gather (byLabel make) false] := by
    have inner : flagged tryBlock [] children = flagged label [] children := flagged_kind block.symm children []
    have other : (rule "try_statement" 0 0 [token "try" 0 0, .mk tryBlock children, catchClause]).isOpenBlock = false := rfl
    rw [rule] at other ⊢
    rw [gather_mk, other, Bool.and_false]
    rw [rule, Node.label] at closed
    simp only [flagged, List.map_cons, List.map_nil, single, closed, gather_mk, Bool.false_and, inner]
    rfl
  have other := guarded_not_open label children
  rw [guarded] at other ⊢
  rw [gather_mk, other, Bool.and_false]
  simp only [flagged, List.map_cons, List.map_nil, single, held]
  rfl

theorem wrap_outer_mk (opened : Bool) (label : Label) (children : List Node) :
    (Node.mk label children).wrapOuter opened =
      if opened && (Node.mk label children).isOpenBlock then guarded (.mk label children)
      else .mk label ((flagged label [] children).map fun entry => entry.2.wrapOuter entry.1) := by
  rw [wrapOuter, gather_mk, outerly]
  split
  · simp [rebuildAt, rebuilt, Node.label, Node.children]
  · rfl

theorem wrap_outer_label (opened : Bool) (node : Node) : (node.wrapOuter opened).label = node.label := by
  cases node with
  | mk label children =>
      rw [wrap_outer_mk]
      split <;> rfl

-- A fold over a tree after a pass.
theorem gather_wrap_outer (opened : Bool) (label : Label) (children : List Node) :
    ((Node.mk label children).wrapOuter opened).gather (byLabel make) opened =
      if opened && (Node.mk label children).isOpenBlock then
        guardedAt make label ((flagged label [] children).map fun entry => entry.2.gather (byLabel make) entry.1)
      else make false label ((flagged label [] children).map fun entry =>
        (entry.2.wrapOuter entry.1).gather (byLabel make) entry.1) := by
  rw [wrap_outer_mk]
  cases here : opened && (Node.mk label children).isOpenBlock with
  | true =>
      have block : label.kind = "statement_block" := by
        simp [isOpenBlock, Node.kind, Node.label] at here
        exact here.2.1.1
      exact gather_guarded make opened label children block
  | false =>
      have labels : ((flagged label [] children).map fun entry => entry.2.wrapOuter entry.1).map (·.label.bare) =
          children.map (·.label.bare) := by
        conv => rhs; rw [← flagged_nodes label children []]
        rw [List.map_map, List.map_map]
        exact List.map_congr_left fun entry _ => congrArg Label.bare (wrap_outer_label entry.1 entry.2)
      have still : (Node.mk label ((flagged label [] children).map fun entry => entry.2.wrapOuter entry.1)).isOpenBlock =
          (Node.mk label children).isOpenBlock := open_block_alike rfl labels
      have kind : label.kind = label.kind := rfl
      have flags := flagged_alike (fun entry => entry.2.wrapOuter entry.1) kind children [] [] rfl
        fun entry _ => congrArg Label.bare (wrap_outer_label entry.1 entry.2)
      simp only [Bool.false_eq_true, if_false, gather_mk, still, here, flags, List.map_map]
      rfl

end Pass

section Numbers

variable {α : Type} {entries : List α} {first second : α → Nat}

theorem max_pred (lower : ∀ entry ∈ entries, first entry = second entry - 1) :
    (entries.map first).foldr max 0 = (entries.map second).foldr max 0 - 1 := by
  induction entries with
  | nil => rfl
  | cons entry rest ih =>
      have head := lower entry List.mem_cons_self
      have tail := ih fun other member => lower other (List.mem_cons_of_mem entry member)
      rw [List.map_cons, List.map_cons, List.foldr_cons, List.foldr_cons, head, tail]
      omega

theorem max_le_sum (bounded : ∀ entry ∈ entries, first entry ≤ second entry) :
    (entries.map first).foldr max 0 ≤ (entries.map second).foldr (· + ·) 0 := by
  induction entries with
  | nil => exact Nat.le_refl 0
  | cons entry rest ih =>
      have head := bounded entry List.mem_cons_self
      have tail := ih fun other member => bounded other (List.mem_cons_of_mem entry member)
      simp only [List.map_cons, List.foldr_cons]
      omega

theorem max_zero_iff : (entries.map first).foldr max 0 = 0 ↔ ∀ entry ∈ entries, first entry = 0 := by
  induction entries with
  | nil => simp
  | cons entry rest ih =>
      rw [List.map_cons, List.foldr_cons, List.forall_mem_cons, ← ih]
      omega

theorem sum_zero_iff : (entries.map first).foldr (· + ·) 0 = 0 ↔ ∀ entry ∈ entries, first entry = 0 := by
  induction entries with
  | nil => simp
  | cons entry rest ih =>
      rw [List.map_cons, List.foldr_cons, List.forall_mem_cons, ← ih]
      omega

theorem sum_add {third : α → Nat} (adds : ∀ entry ∈ entries, first entry + second entry = third entry) :
    (entries.map first).foldr (· + ·) 0 + (entries.map second).foldr (· + ·) 0 = (entries.map third).foldr (· + ·) 0 := by
  induction entries with
  | nil => rfl
  | cons entry rest ih =>
      have head := adds entry List.mem_cons_self
      have tail := ih fun other member => adds other (List.mem_cons_of_mem entry member)
      simp only [List.map_cons, List.foldr_cons]
      omega

end Numbers

section Facts

variable (opened : Bool) (label : Label) (children : List Node)

theorem depth_mk : (Node.mk label children).depth opened =
    (opened && (Node.mk label children).isOpenBlock).toNat +
      ((flagged label [] children).map fun entry => entry.2.depth entry.1).foldr max 0 :=
  gather_mk depthAt opened label children

theorem bodies_mk : (Node.mk label children).bodies opened =
    (opened && (Node.mk label children).isOpenBlock).toNat +
      ((flagged label [] children).map fun entry => entry.2.bodies entry.1).foldr (· + ·) 0 :=
  gather_mk countAt opened label children

theorem outer_bodies_mk : (Node.mk label children).outerBodies opened =
    if opened && (Node.mk label children).isOpenBlock then 1
    else ((flagged label [] children).map fun entry => entry.2.outerBodies entry.1).foldr (· + ·) 0 := by
  rw [outerBodies, gather_mk, outerly]
  split
  · exact congrArg (1 + ·) (count_none children)
  · exact Nat.zero_add _

theorem wrap_all_mk : (Node.mk label children).wrapAll opened =
    rebuilt (opened && (Node.mk label children).isOpenBlock) label
      ((flagged label [] children).map fun entry => entry.2.wrapAll entry.1) :=
  gather_mk rebuildAt opened label children

-- The new block, its statement and the clause add nothing to what the old children come to.
theorem guarded_depth (depths : List Nat) :
    guardedAt (fun here _ depths => here.toNat + depths.foldr max 0) label depths = depths.foldr max 0 := by
  have clause : catchClause.gather (byLabel fun here _ depths => here.toNat + depths.foldr max 0) false = 0 := by decide
  simp [guardedAt, clause]

theorem guarded_count (counts : List Nat) :
    guardedAt (fun here _ counts => here.toNat + counts.foldr (· + ·) 0) label counts = counts.foldr (· + ·) 0 := by
  have clause : catchClause.gather (byLabel fun here _ counts => here.toNat + counts.foldr (· + ·) 0) false = 0 := by decide
  simp [guardedAt, clause]

theorem guarded_rebuilt (results : List Node) :
    guardedAt rebuilt label results = rebuilt true label results := rfl

variable {label children}

-- A pass takes one body from each way down on which there is one.
theorem depth_wrap_outer : ∀ (node : Node) (opened : Bool), (node.wrapOuter opened).depth opened = node.depth opened - 1 := by
  refine induct fun label children ih opened => ?_
  have after : ((Node.mk label children).wrapOuter opened).depth opened = _ :=
    gather_wrap_outer (fun here _ depths => here.toNat + depths.foldr max 0) opened label children
  rw [after, depth_mk]
  cases opened && (Node.mk label children).isOpenBlock with
  | true =>
      rw [if_pos rfl, guarded_depth, Bool.toNat_true, Nat.add_sub_cancel_left]
      rfl
  | false =>
      simp only [Bool.false_eq_true, if_false, Bool.toNat_false, Nat.zero_add]
      exact max_pred fun entry member => ih entry.2 (flagged_mem member) entry.1

theorem bodies_wrap_outer : ∀ (node : Node) (opened : Bool),
    (node.wrapOuter opened).bodies opened + node.outerBodies opened = node.bodies opened := by
  refine induct fun label children ih opened => ?_
  have after : ((Node.mk label children).wrapOuter opened).bodies opened = _ :=
    gather_wrap_outer (fun here _ counts => here.toNat + counts.foldr (· + ·) 0) opened label children
  rw [after, bodies_mk, outer_bodies_mk]
  cases opened && (Node.mk label children).isOpenBlock with
  | true =>
      rw [if_pos rfl, guarded_count, if_pos rfl, Nat.add_comm]
      rfl
  | false =>
      simp only [Bool.false_eq_true, if_false, Bool.toNat_false, Nat.zero_add]
      exact sum_add fun entry member => ih entry.2 (flagged_mem member) entry.1

-- Wrapping the outer bodies first leaves what is to be wrapped in the end.
theorem wrap_all_wrap_outer : ∀ (node : Node) (opened : Bool), (node.wrapOuter opened).wrapAll opened = node.wrapAll opened := by
  refine induct fun label children ih opened => ?_
  have after : ((Node.mk label children).wrapOuter opened).wrapAll opened = _ :=
    gather_wrap_outer rebuilt opened label children
  rw [after, wrap_all_mk]
  cases opened && (Node.mk label children).isOpenBlock with
  | true =>
      rw [if_pos rfl, guarded_rebuilt]
      rfl
  | false =>
      simp only [Bool.false_eq_true, if_false]
      exact congrArg (Node.mk label) (List.map_congr_left fun entry member => ih entry.2 (flagged_mem member) entry.1)

theorem depth_le_bodies : ∀ (node : Node) (opened : Bool), node.depth opened ≤ node.bodies opened := by
  refine induct fun label children ih opened => ?_
  rw [depth_mk, bodies_mk]
  exact Nat.add_le_add_left (max_le_sum fun entry member => ih entry.2 (flagged_mem member) entry.1) _

theorem outer_bodies_zero_iff : ∀ (node : Node) (opened : Bool), node.outerBodies opened = 0 ↔ node.depth opened = 0 := by
  refine induct fun label children ih opened => ?_
  rw [depth_mk, outer_bodies_mk]
  cases opened && (Node.mk label children).isOpenBlock with
  | true => simp
  | false =>
      simp only [Bool.false_eq_true, if_false, Bool.toNat_false, Nat.zero_add, sum_zero_iff, max_zero_iff]
      exact forall₂_congr fun entry member => ih entry.2 (flagged_mem member) entry.1

theorem bodies_zero : ∀ (node : Node) (opened : Bool), node.depth opened = 0 → node.bodies opened = 0 := by
  refine induct fun label children ih opened none => ?_
  rw [depth_mk, Nat.add_eq_zero_iff, max_zero_iff] at none
  rw [bodies_mk, Nat.add_eq_zero_iff, sum_zero_iff]
  exact ⟨none.1, fun entry member => ih entry.2 (flagged_mem member) entry.1 (none.2 entry member)⟩

theorem wrap_all_settled : ∀ (node : Node) (opened : Bool), node.depth opened = 0 → node.wrapAll opened = node := by
  refine induct fun label children ih opened none => ?_
  rw [depth_mk, Nat.add_eq_zero_iff, max_zero_iff] at none
  have kept : ((flagged label [] children).map fun entry => entry.2.wrapAll entry.1) = children := by
    conv => rhs; rw [← flagged_nodes label children []]
    exact List.map_congr_left fun entry member => ih entry.2 (flagged_mem member) entry.1 (none.2 entry member)
  have still : (opened && (Node.mk label children).isOpenBlock) = false := by simpa using none.1
  rw [wrap_all_mk, kept, still]
  rfl

end Facts

end ScriptTidy.Node
