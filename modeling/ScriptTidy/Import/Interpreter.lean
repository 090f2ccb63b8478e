import ScriptTidy.Edit.Apply

/-!
The `#!` line that names the interpreter of a file.

It is taken out before statements are removed and written back in front of the result, so that no removal can
reach it.
-/

set_option autoImplicit false

namespace ScriptTidy

structure InterpreterLine where
  /-- What follows the mark, without blanks at its end. -/
  value : Text
  start : Nat
  stop : Nat
deriving DecidableEq, Repr

namespace InterpreterLine

def mark : Text := ['#', '!']

/-- The first node of a file, if it is such a line. -/
def find? (tree : SourceTree) : Option InterpreterLine :=
  match tree.root.children with
  | [] => none
  | node :: _ =>
      if node.kind == "hash_bang_line" then
        let text := tree.textOf node
        let value := if mark.isPrefixOf text then text.drop mark.length else text
        some ⟨Text.trimEnd value, node.start, node.stop⟩
      else none

/-- The edit that takes the line out, with its line break. -/
def strip (tree : SourceTree) (line : InterpreterLine) : Edit :=
  .replaceRange line.start (tree.text.nextLineStart line.stop) []

/-- The line in front of a text. -/
def prepend (line : InterpreterLine) (text : Text) : Text := mark ++ line.value ++ '\n' :: text

end InterpreterLine

end ScriptTidy
