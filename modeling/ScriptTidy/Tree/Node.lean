import ScriptTidy.Text.Basic

/-!
Syntax trees of JavaScript and TypeScript files.

A node carries the name its grammar gives to its kind, the bytes of the text it covers, and the fields
of its parent that it fills. Named nodes are the grammar's rules, the others its bare tokens, such as
commas and keywords; a rule and a token may share a kind.
-/

set_option autoImplicit false

namespace ScriptTidy

/-- What a node is and which bytes it covers. -/
structure Label where
  kind : String
  /-- The fields of the parent for which this node is the answer. -/
  fields : List String
  /-- A rule of the grammar, and not a bare token. -/
  named : Bool
  /-- Text that the grammar does not accept, or a token that it misses. -/
  flawed : Bool
  start : Nat
  stop : Nat
deriving DecidableEq, Repr

inductive Node where
  | mk (label : Label) (children : List Node)
deriving Repr

namespace Node

def label : Node → Label
  | .mk label _ => label

def children : Node → List Node
  | .mk _ children => children

def kind (node : Node) : String := node.label.kind

def start (node : Node) : Nat := node.label.start

def stop (node : Node) : Nat := node.label.stop

/-- The first child that fills `field`. -/
def childByField? (node : Node) (field : String) : Option Node :=
  node.children.find? (·.label.fields.contains field)

def namedChildren (node : Node) : List Node := node.children.filter (·.label.named)

/-- Comments may stand between any two nodes; they are siblings like all others. -/
def isComment (node : Node) : Bool := node.kind == "comment"

mutual
/-- The nodes of a tree in document order, each in front of its children. -/
def preorder : Node → List Node
  | .mk label children => .mk label children :: forestPreorder children
def forestPreorder : List Node → List Node
  | [] => []
  | child :: rest => preorder child ++ forestPreorder rest
end

/-- The first node in document order that the grammar did not accept. -/
def firstFlaw? (node : Node) : Option Node := node.preorder.find? (·.label.flawed)

end Node

end ScriptTidy
