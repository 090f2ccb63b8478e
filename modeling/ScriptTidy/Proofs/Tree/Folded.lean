import ScriptTidy.Tree.Place

/-! Trees folded from the leaves up, each node with its place, and trees up to the offsets of their nodes. -/

set_option autoImplicit false

namespace ScriptTidy

def Label.unplaced (label : Label) : Label := { label with start := 0, stop := 0 }

namespace Node

mutual
def unplaced : Node → Node
  | .mk label children => .mk label.unplaced (forestUnplaced children)
def forestUnplaced : List Node → List Node
  | [] => []
  | child :: rest => unplaced child :: forestUnplaced rest
end

mutual
def same : (node other : Node) → Decidable (node = other)
  | .mk label children, .mk front others =>
      match decEq label front, sameForest children others with
      | isTrue first, isTrue rest => isTrue (by rw [first, rest])
      | isFalse differ, _ => isFalse fun equal => differ (Node.mk.inj equal).1
      | _, isFalse differ => isFalse fun equal => differ (Node.mk.inj equal).2
def sameForest : (nodes others : List Node) → Decidable (nodes = others)
  | [], [] => isTrue rfl
  | [], _ :: _ => isFalse nofun
  | _ :: _, [] => isFalse nofun
  | node :: rest, other :: more =>
      match same node other, sameForest rest more with
      | isTrue first, isTrue last => isTrue (by rw [first, last])
      | isFalse differ, _ => isFalse fun equal => differ (List.cons.inj equal).1
      | _, isFalse differ => isFalse fun equal => differ (List.cons.inj equal).2
end

instance : DecidableEq Node := same

theorem forest_unplaced_map : (nodes : List Node) → forestUnplaced nodes = nodes.map unplaced
  | [] => rfl
  | child :: rest => congrArg (unplaced child :: ·) (forest_unplaced_map rest)

theorem induct {holds : Node → Prop}
    (step : ∀ label children, (∀ child ∈ children, holds child) → holds (.mk label children)) : ∀ node, holds node :=
  @Node.rec holds (fun nodes => ∀ node ∈ nodes, holds node) step (fun _ member => nomatch member)
    fun _ _ first rest _ member => (List.mem_cons.mp member).elim (fun same => same ▸ first) (rest _)

section Fold

variable {β : Type} (make : Place → List β → β)

mutual
def foldVia (above : List Step) : Node → β
  | .mk label children => make ⟨.mk label children, above⟩ (forestFoldVia label above [] children)
def forestFoldVia (parent : Label) (above : List Step) (passed : List Node) : List Node → List β
  | [] => []
  | child :: rest => foldVia (⟨parent, passed, rest⟩ :: above) child :: forestFoldVia parent above (child :: passed) rest
end

end Fold

mutual
theorem count_places (wanted : Place → Bool) (above : List Step) (node : Node) :
    (node.placesVia above).countP wanted =
      node.foldVia (fun place counts => (wanted place).toNat + counts.foldr (· + ·) 0) above := by
  cases node with
  | mk label children =>
      rw [placesVia, foldVia, List.countP_cons, count_forest_places wanted label above [] children, Nat.add_comm]
      cases wanted ⟨.mk label children, above⟩ <;> rfl
theorem count_forest_places (wanted : Place → Bool) (parent : Label) (above : List Step) (passed nodes : List Node) :
    (forestPlacesVia parent above passed nodes).countP wanted =
      (forestFoldVia (fun place counts => (wanted place).toNat + counts.foldr (· + ·) 0)
        parent above passed nodes).foldr (· + ·) 0 := by
  cases nodes with
  | nil => rfl
  | cons child rest =>
      rw [forestPlacesVia, forestFoldVia, List.countP_append, List.foldr_cons, count_places wanted _ child,
        count_forest_places wanted parent above (child :: passed) rest]
end

-- The largest number of wanted places on a way from the root down.
def deepest (wanted : Place → Bool) (root : Node) : Nat :=
  (root.places.map fun place => (place :: place.ancestors).countP wanted).foldr max 0

-- `base` counts the wanted places above; `bound` is what the places behind have come to.
mutual
theorem deepest_via (wanted : Place → Bool) (above : List Step) (node : Node) (base bound : Nat)
    (counted : (Place.ancestorsVia node above).countP wanted = base) :
    ((node.placesVia above).map fun place => (place :: place.ancestors).countP wanted).foldr max bound =
      max bound (base + node.foldVia (fun place depths => (wanted place).toNat + depths.foldr max 0) above) := by
  cases node with
  | mk label children =>
      have here : ((⟨.mk label children, above⟩ : Place) :: Place.ancestors ⟨.mk label children, above⟩).countP wanted =
          base + (wanted ⟨.mk label children, above⟩).toNat := by
        rw [List.countP_cons, Place.ancestors, counted]
        cases wanted ⟨.mk label children, above⟩ <;> rfl
      have below := deepest_forest wanted label above [] children _ bound children rfl here
      rw [placesVia, foldVia, List.map_cons, List.foldr_cons, here]
      omega
theorem deepest_forest (wanted : Place → Bool) (parent : Label) (above : List Step) (passed nodes : List Node)
    (base bound : Nat) (children : List Node) (whole : passed.reverse ++ nodes = children)
    (counted : ((⟨.mk parent children, above⟩ : Place) :: Place.ancestors ⟨.mk parent children, above⟩).countP wanted =
      base) :
    max base (((forestPlacesVia parent above passed nodes).map fun place =>
        (place :: place.ancestors).countP wanted).foldr max bound) =
      max bound (base + (forestFoldVia (fun place depths => (wanted place).toNat + depths.foldr max 0)
        parent above passed nodes).foldr max 0) := by
  cases nodes with
  | nil => exact Nat.max_comm base bound
  | cons child rest =>
      have later := deepest_forest wanted parent above (child :: passed) rest base bound children
        (by rw [← whole, List.reverse_cons, List.append_assoc]; rfl) counted
      have first := deepest_via wanted (⟨parent, passed, rest⟩ :: above) child base
        (((forestPlacesVia parent above (child :: passed) rest).map fun place =>
          (place :: place.ancestors).countP wanted).foldr max bound)
        (by rw [← counted, ← whole]; rfl)
      rw [forestPlacesVia, forestFoldVia, List.map_append, List.foldr_append, first, List.foldr_cons]
      omega
end

theorem deepest_fold (wanted : Place → Bool) (root : Node) :
    root.deepest wanted = root.foldVia (fun place depths => (wanted place).toNat + depths.foldr max 0) [] := by
  rw [deepest, places, deepest_via wanted [] root 0 0 rfl, Nat.zero_add, Nat.zero_max]

end Node

end ScriptTidy
