import ScriptTidy.Edit.Apply

/-!
Comments at the head of a file.

They are attached to the first statement and would go with it. They are remembered before statements are
removed, and put back in front of the statement that comes first then.
-/

set_option autoImplicit false

namespace ScriptTidy

/-- The comments of the first statement, up to the start of its line: the line breaks between them and the
statement belong to them. -/
structure Header where
  statement : Place
  start : Nat
  stop : Nat
deriving Repr

namespace Header

/-- The header of a file; none if there is no statement or it has no leading comments. -/
def capture? (tree : SourceTree) : Option Header :=
  match tree.firstStatement? with
  | none => none
  | some first =>
      match tree.leadingComments first with
      | [] => none
      | comment :: others =>
          let last := others.getLast?.getD comment
          some ⟨first, comment.start, max (tree.text.lineStartIfIndented first.start) last.stop⟩

def text (tree : SourceTree) (header : Header) : Except Fault Text := Edits.copy tree.text header.start header.stop

/-- Where the header goes when statements are removed: in front of the leading comments of the first statement
that stays, or at the end of the text if none does. -/
def anchor (tree : SourceTree) (removed : Place → Bool) : Nat :=
  match tree.statements.find? fun statement => !removed statement with
  | some statement => tree.text.lineStartIfIndented (tree.attachedStart statement)
  | none => tree.text.bytes

/-- The edit that puts the header back, needed only if its statement is removed. -/
def restore? (tree : SourceTree) (removed : Place → Bool) (header : Header) : Except Fault (Option Edit) :=
  if removed header.statement then do return some (.insert (anchor tree removed) (← header.text tree))
  else .ok none

end Header

end ScriptTidy
