import ScriptTidy.Edit.Widen

/-!
Applying edits to a text.

The text is copied from edit to edit. An edit may not start in front of the end of the one before it. All
that no edit touches is copied as it is.
-/

set_option autoImplicit false

namespace ScriptTidy

namespace Edits

/-- The text from `start` to `stop`, which must be offsets between characters. -/
def copy (text : Text) (start stop : Nat) : Except Fault Text :=
  match text.slice? start stop with
  | some piece => .ok piece
  | none => .error .badOffset

/-- The text from `cursor` on with the edits applied. -/
def spliceFrom (text : Text) (cursor : Nat) : Edits → Except Fault Text
  | [] => copy text cursor text.bytes
  | edit :: rest =>
      if edit.start < cursor then .error (.overlappingEdits cursor edit.start)
      else do
        let kept ← copy text cursor edit.start
        let tail ← spliceFrom text edit.stop rest
        return kept ++ edit.text ++ tail

/-- The edits as they are applied: sorted, neighbouring removals merged, and removals grown. -/
def prepared (text : Text) (edits : Edits) : Edits := (merged text edits.sorted).map (·.widened text)

/-- The text with the edits applied. -/
def apply (text : Text) (edits : Edits) : Except Fault Text := spliceFrom text 0 (edits.prepared text)

end Edits

namespace SourceTree

/-- The text of a file with the edits applied. -/
def print (tree : SourceTree) (edits : Edits) : Except Fault Text := edits.apply tree.text

end SourceTree

end ScriptTidy
