import ScriptTidy.Text.Blank

/-!
Source text as a list of characters, addressed by byte offsets.

An offset counts the bytes of the UTF-8 form in front of it. `Text.before` and `Text.after` cut at any
offset (inside a character they cut in front of it), so that questions about a place in the text are
total. `Text.slice?` is for copying: it answers only for offsets in order that lie between characters
of the text.
-/

set_option autoImplicit false

namespace ScriptTidy

abbrev Text := List Char

namespace Text

/-- The length of the UTF-8 form. -/
def bytes : Text → Nat
  | [] => 0
  | char :: rest => char.utf8Size + bytes rest

/-- The characters that end at or in front of `offset`. -/
def before (text : Text) (offset : Nat) : Text :=
  match text with
  | [] => []
  | char :: rest => if char.utf8Size ≤ offset then char :: before rest (offset - char.utf8Size) else []

/-- The characters that do not end at or in front of `offset`. -/
def after (text : Text) (offset : Nat) : Text :=
  match text with
  | [] => []
  | char :: rest => if char.utf8Size ≤ offset then after rest (offset - char.utf8Size) else char :: rest

/-- An offset between two characters, or at either end. -/
def IsBoundary (text : Text) (offset : Nat) : Prop := bytes (text.before offset) = offset

instance (text : Text) (offset : Nat) : Decidable (text.IsBoundary offset) :=
  inferInstanceAs (Decidable (_ = _))

/-- The characters from `start` to `stop`. -/
def between (text : Text) (start stop : Nat) : Text := (text.before stop).after start

/-- The characters from `start` to `stop`, if both are boundaries and in order. -/
def slice? (text : Text) (start stop : Nat) : Option Text :=
  if start ≤ stop ∧ text.IsBoundary start ∧ text.IsBoundary stop then some (text.between start stop) else none

/-- The end of a text without the characters that satisfy `drop`. -/
def trimEndWhile (drop : Char → Bool) (text : Text) : Text := (text.reverse.dropWhile drop).reverse

/-- The longest end of a text whose characters satisfy `keep`. -/
def endWhile (keep : Char → Bool) (text : Text) : Text := (text.reverse.takeWhile keep).reverse

/-- A text without the blanks at its end. -/
def trimEnd (text : Text) : Text := text.trimEndWhile isBlank

/-- A text without the blanks at both ends. -/
def trim (text : Text) : Text := trimEnd (text.dropWhile isBlank)

/-- What follows the last line break. -/
def lastLine (text : Text) : Text := text.endWhile (· != '\n')

/-- The text up to and including its last line break. -/
def wholeLines (text : Text) : Text := text.trimEndWhile (· != '\n')

/-- The number of line breaks in front of `offset`. -/
def row (text : Text) (offset : Nat) : Nat := (text.before offset).count '\n'

/-- The number of bytes between the last line break in front of `offset` and `offset`. -/
def column (text : Text) (offset : Nat) : Nat := bytes (lastLine (text.before offset))

/-- The part of its line that stands in front of `offset`. -/
def lineBefore (text : Text) (offset : Nat) : Text := lastLine (text.before offset)

/-- The offset at which the line of `offset` begins. -/
def lineStart (text : Text) (offset : Nat) : Nat := bytes (wholeLines (text.before offset))

/-- The offset just past the next line break at or after `offset`, or the end of the text. -/
def nextLineStart (text : Text) (offset : Nat) : Nat :=
  let here := text.after offset
  offset + bytes (here.takeWhile (· != '\n')) + bytes ((here.dropWhile (· != '\n')).take 1)

/-- The start of the line of `offset` if only indentation stands between them, else `offset`. -/
def lineStartIfIndented (text : Text) (offset : Nat) : Nat :=
  if (text.lineBefore offset).all isIndent then text.lineStart offset else offset

/-- The spaces and tabs with which the line of `offset` begins. -/
def lineIndent (text : Text) (offset : Nat) : Text := (text.after (text.lineStart offset)).takeWhile isIndent

/-- The indentation in front of `offset`, if nothing else stands in front of it on its line. -/
def ownIndent? (text : Text) (offset : Nat) : Option Text :=
  if (text.lineBefore offset).all isIndent then some (text.lineBefore offset) else none

/-- Line and column of `offset` as people count them, from one. -/
def position (text : Text) (offset : Nat) : Nat × Nat := (text.row offset + 1, text.column offset + 1)

@[simp] theorem bytes_nil : bytes [] = 0 := rfl

@[simp] theorem bytes_cons (char : Char) (rest : Text) : bytes (char :: rest) = char.utf8Size + bytes rest := rfl

@[simp] theorem bytes_append (first second : Text) : bytes (first ++ second) = bytes first + bytes second := by
  induction first with
  | nil => simp
  | cons char rest ih => simp [ih, Nat.add_assoc]

theorem before_append_after (text : Text) (offset : Nat) : text.before offset ++ text.after offset = text := by
  induction text generalizing offset with
  | nil => rfl
  | cons char rest ih =>
      by_cases fits : char.utf8Size ≤ offset
      · simp [before, after, fits, ih]
      · simp [before, after, fits]

theorem whole_lines_append_last_line (text : Text) : text.wholeLines ++ text.lastLine = text := by
  rw [wholeLines, lastLine, trimEndWhile, endWhile, ← List.reverse_append, List.takeWhile_append_dropWhile,
    List.reverse_reverse]

end Text

end ScriptTidy
