import ScriptTidy.Tree.Node

/-!
Trees written as a list of their nodes in document order, each with its depth.

The list is read from its end: a row takes as its children the finished trees behind it that lie
deeper, up to the next one that does not.
-/

set_option autoImplicit false

namespace ScriptTidy

/-- One node of a listed tree. -/
structure Row where
  depth : Nat
  label : Label
deriving DecidableEq, Repr

namespace Row

/-- Puts a row in front of the finished trees behind it, and the deeper ones under it. -/
def adopt (row : Row) (finished : List (Nat × Node)) : List (Nat × Node) :=
  let deeper := finished.takeWhile fun tree => row.depth < tree.1
  (row.depth, .mk row.label (deeper.map (·.2))) :: finished.dropWhile fun tree => row.depth < tree.1

end Row

namespace Node

/-- The tree that a listing writes down, if it is one tree. -/
def ofListing? (rows : List Row) : Option Node :=
  match rows.foldr Row.adopt [] with
  | [(_, root)] => some root
  | _ => none

mutual
/-- The rows of a tree whose root has the given depth. -/
def listing (depth : Nat) : Node → List Row
  | .mk label children => ⟨depth, label⟩ :: forestListing (depth + 1) children
def forestListing (depth : Nat) : List Node → List Row
  | [] => []
  | child :: rest => listing depth child ++ forestListing depth rest
end

end Node

end ScriptTidy
