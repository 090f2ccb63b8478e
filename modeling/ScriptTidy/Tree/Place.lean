import ScriptTidy.Tree.Node

/-!
Places in a tree: a node together with the way up to the root.

Each step of the way names the parent and the siblings on both sides, so that parents, siblings and
ancestors are read off the place. Two places of one tree are the same if their addresses are.
-/

set_option autoImplicit false

namespace ScriptTidy

/-- One step up: the parent, and the siblings in front (nearest first) and behind. -/
structure Step where
  parent : Label
  before : List Node
  after : List Node
deriving Repr

namespace Step

/-- The parent with `node` put back among its siblings. -/
def close (step : Step) (node : Node) : Node := .mk step.parent (step.before.reverse ++ node :: step.after)

end Step

structure Place where
  node : Node
  /-- The way up, nearest step first. -/
  steps : List Step
deriving Repr

namespace Place

def kind (place : Place) : String := place.node.kind

def start (place : Place) : Nat := place.node.start

def stop (place : Place) : Nat := place.node.stop

/-- The siblings in front, nearest first. -/
def before (place : Place) : List Node :=
  match place.steps with
  | [] => []
  | step :: _ => step.before

/-- The siblings behind, nearest first. -/
def after (place : Place) : List Node :=
  match place.steps with
  | [] => []
  | step :: _ => step.after

/-- The number of siblings in front at each step, nearest first. It tells a place from all others of
its tree. -/
def address (place : Place) : List Nat := place.steps.map (·.before.length)

/-- Holds of two places of one tree that are the same. -/
def isAt (place other : Place) : Bool := place.address == other.address

def parent? (place : Place) : Option Place :=
  match place.steps with
  | [] => none
  | step :: above => some ⟨step.close place.node, above⟩

/-- The places above a node with the given way up, nearest first. -/
def ancestorsVia (node : Node) : List Step → List Place
  | [] => []
  | step :: above => ⟨step.close node, above⟩ :: ancestorsVia (step.close node) above

/-- The places above, nearest first. -/
def ancestors (place : Place) : List Place := ancestorsVia place.node place.steps

/-- The children of `parent` as places, given those already passed, nearest first. -/
def childrenUnder (parent : Label) (above : List Step) (passed : List Node) : List Node → List Place
  | [] => []
  | child :: rest => ⟨child, ⟨parent, passed, rest⟩ :: above⟩ :: childrenUnder parent above (child :: passed) rest

def children (place : Place) : List Place := childrenUnder place.node.label place.steps [] place.node.children

def namedChildren (place : Place) : List Place := place.children.filter (·.node.label.named)

/-- The first child that fills `field`. -/
def childByField? (place : Place) (field : String) : Option Place :=
  place.children.find? (·.node.label.fields.contains field)

/-- Holds if the place is the parent's answer for `field`. -/
def isField (place : Place) (field : String) : Bool :=
  place.node.label.fields.contains field && !place.steps.isEmpty &&
    !place.before.any (·.label.fields.contains field)

/-- Holds if the place or one above it has the kind. -/
def isUnder (place : Place) (kind : String) : Bool :=
  place.kind == kind || place.ancestors.any (·.kind == kind)

/-- Holds if `other` is the place or one above it. -/
def isWithin (place other : Place) : Bool := place.isAt other || place.ancestors.any (·.isAt other)

end Place

namespace Node

mutual
/-- The places of a tree in document order, given the way up to its root. -/
def placesVia (above : List Step) : Node → List Place
  | .mk label children => ⟨.mk label children, above⟩ :: forestPlacesVia label above [] children
def forestPlacesVia (parent : Label) (above : List Step) (passed : List Node) : List Node → List Place
  | [] => []
  | child :: rest =>
      placesVia (⟨parent, passed, rest⟩ :: above) child ++ forestPlacesVia parent above (child :: passed) rest
end

/-- All places of a tree in document order. -/
def places (root : Node) : List Place := placesVia [] root

end Node

namespace Place

/-- The place and all below it, in document order. -/
def descendants (place : Place) : List Place := place.node.placesVia place.steps

/-- The places that satisfy `wanted` and do not lie below another one that does. -/
def outermost (wanted : Place → Bool) (places : List Place) : List Place :=
  (places.filter wanted).filter fun place => !place.ancestors.any wanted

end Place

end ScriptTidy
