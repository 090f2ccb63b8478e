import ScriptTidy.Source

/-!
Pending edits of a text, in the order in which they were recorded.

A splice replaces exactly its bytes. A removal of a statement may grow before it is applied, so that it takes
whole lines.
-/

set_option autoImplicit false

namespace ScriptTidy

inductive EditKind where
  | splice
  | removal
deriving DecidableEq, Repr

structure Edit where
  start : Nat
  stop : Nat
  text : Text
  kind : EditKind
deriving DecidableEq, Repr

abbrev Edits := List Edit

namespace Edit

/-- Replaces the bytes from `start` to `stop`. -/
def replaceRange (start stop : Nat) (text : Text) : Edit := ⟨start, stop, text, .splice⟩

def replace (node : Node) (text : Text) : Edit := replaceRange node.start node.stop text

def remove (node : Node) : Edit := replace node []

def insert (offset : Nat) (text : Text) : Edit := replaceRange offset offset text

/-- Removes a statement with the comments attached to it. -/
def removeStatement (tree : SourceTree) (statement : Place) : Edit :=
  ⟨tree.attachedStart statement, tree.attachedStop statement, [], .removal⟩

/-- The order in which edits are applied: by start, then by end. -/
def atOrBefore (first second : Edit) : Bool :=
  first.start < second.start || (first.start == second.start && first.stop ≤ second.stop)

end Edit

namespace Edits

/-- Puts an edit in front of the first one that does not come before it. -/
def place (edit : Edit) : Edits → Edits
  | [] => [edit]
  | first :: rest => if edit.atOrBefore first then edit :: first :: rest else first :: place edit rest

/-- The edits in the order in which they are applied. Edits of the same range stay in the order in which they
were recorded. -/
def sorted : Edits → Edits
  | [] => []
  | edit :: rest => place edit (sorted rest)

/-- Two removals in a row are one if they touch or only blanks stand between them. -/
def joins (text : Text) (first second : Edit) : Bool :=
  first.kind == .removal && second.kind == .removal &&
    (second.start ≤ first.stop || (text.between first.stop second.start).all isBlank)

/-- Merges removals into the edit in front of them. -/
def mergeFrom (text : Text) (last : Edit) : Edits → Edits
  | [] => [last]
  | edit :: rest =>
      if joins text last edit then mergeFrom text { last with stop := max last.stop edit.stop } rest
      else last :: mergeFrom text edit rest

/-- Merges neighbouring removals of sorted edits. -/
def merged (text : Text) : Edits → Edits
  | [] => []
  | edit :: rest => mergeFrom text edit rest

end Edits

end ScriptTidy
