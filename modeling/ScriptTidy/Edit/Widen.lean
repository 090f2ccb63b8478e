import ScriptTidy.Edit.Basic

/-!
How far a removal grows into the blanks around it.

A removal that has its lines for itself takes them whole, and then the blank lines that would be doubled, or
that would come first or last in the text. One that shares a line takes the spaces next to it.
-/

set_option autoImplicit false

namespace ScriptTidy

/-- The text that a removal takes on its two sides. -/
structure Reach where
  left : Text
  right : Text
deriving DecidableEq, Repr

namespace Reach

/-- The blank lines at the end of a text that ends with a line break. -/
def blankLinesBefore (before : Text) : Text :=
  let blanks := before.endWhile isBlank
  if blanks.length = before.length then blanks else (blanks.dropWhile (· != '\n')).drop 1

/-- The blank lines at the start of a text, as far as they end with a line break. -/
def blankLinesAfter (after : Text) : Text := Text.wholeLines (after.takeWhile isBlank)

/-- Holds if the text is empty or its last line is empty. -/
def endsWithEmptyLine (before : Text) : Bool :=
  before.isEmpty || ['\n', '\n'].isSuffixOf before || ['\n', '\r', '\n'].isSuffixOf before

/-- The blank lines that go with whole lines: those before them at the end of the text, else those after them
if an empty line or nothing stands before them. -/
def ofLines (before after : Text) : Reach :=
  if after = [] then ⟨blankLinesBefore before, []⟩
  else if endsWithEmptyLine before then ⟨[], blankLinesAfter after⟩
  else ⟨[], []⟩

/-- What a removal between two texts takes of them. -/
def of (before after : Text) : Reach :=
  let indent := before.endWhile isHorizontal
  let above := before.trimEndWhile isHorizontal
  let gap := after.takeWhile isHorizontal
  let behind := after.dropWhile isHorizontal
  let ownsStart := above.isEmpty || above.getLast? == some '\n'
  let ownsEnd := behind.isEmpty || behind.head? == some '\n'
  match ownsStart, ownsEnd with
  | true, true =>
      let more := ofLines above (behind.drop 1)
      ⟨more.left ++ indent, gap ++ behind.take 1 ++ more.right⟩
  | false, true => ⟨indent, gap⟩
  | _, false => ⟨[], gap⟩

end Reach

namespace Edit

/-- A removal with what it takes on both sides; a splice as it is. -/
def widened (text : Text) (edit : Edit) : Edit :=
  match edit.kind with
  | .splice => edit
  | .removal =>
      let reach := Reach.of (text.before edit.start) (text.after edit.stop)
      { edit with start := edit.start - reach.left.bytes, stop := edit.stop + reach.right.bytes }

end Edit

end ScriptTidy
