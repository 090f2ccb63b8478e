import ScriptTidy.Decimal.Shortest
import ScriptTidy.Text.Visible

/-!
What can be wrong with a JSON text, and where.

A reader stops at the first flaw. It reports what was left of the text there, so that the place is known
from the whole text, and how many bytes more it had already looked at.
-/

set_option autoImplicit false

namespace ScriptTidy.Json

/-- A value that stands where another kind is needed. -/
inductive Found where
  | null
  | boolean (value : Bool)
  | integer (value : Int)
  | decimal (negative : Bool) (value : Binary)
  | string (value : Text)
  | list
  | object
deriving Repr

inductive Flaw where
  | endOfList
  | endOfObject
  | endOfString
  | endOfValue
  | expectedColon
  | expectedListSeparator
  | expectedObjectSeparator
  | expectedWord
  | expectedValue
  | invalidEscape
  | invalidNumber
  | numberOutOfRange
  | controlCharacter
  | keyNotString
  | loneSurrogate
  | unfinishedEscape
  | trailingComma
  | trailingCharacters
  | wrongType (found : Found) (expected : String)
  | duplicateField (name : String)
deriving Repr

structure Stop where
  flaw : Flaw
  /-- What was left of the text. -/
  rest : Text
  /-- The bytes of it that had been looked at. -/
  ahead : Nat
deriving Repr

/-- A reader's answer: a value with the text behind it, or where it stopped. -/
abbrev Scan (α : Type) := Except Stop (α × Text)

/-- Stops at the next character, which belongs to the reported place. -/
def stopOn {α : Type} (flaw : Flaw) (rest : Text) : Except Stop α := .error ⟨flaw, rest, 1⟩

/-- Stops behind all that was read. -/
def stopPast {α : Type} (flaw : Flaw) (rest : Text) : Except Stop α := .error ⟨flaw, rest, 0⟩

namespace Found

def message : Found → String
  | .null => "null"
  | .boolean true => "boolean `true`"
  | .boolean false => "boolean `false`"
  | .integer value => "integer `" ++ toString value ++ "`"
  | .decimal negative value => "floating point `" ++ (if negative then "-" else "") ++ value.text ++ "`"
  | .string value => "string " ++ value.quoted
  | .list => "sequence"
  | .object => "map"

end Found

namespace Flaw

def message : Flaw → String
  | .endOfList => "EOF while parsing a list"
  | .endOfObject => "EOF while parsing an object"
  | .endOfString => "EOF while parsing a string"
  | .endOfValue => "EOF while parsing a value"
  | .expectedColon => "expected `:`"
  | .expectedListSeparator => "expected `,` or `]`"
  | .expectedObjectSeparator => "expected `,` or `\x7d`"
  | .expectedWord => "expected ident"
  | .expectedValue => "expected value"
  | .invalidEscape => "invalid escape"
  | .invalidNumber => "invalid number"
  | .numberOutOfRange => "number out of range"
  | .controlCharacter => "control character (\\u0000-\\u001F) found while parsing a string"
  | .keyNotString => "key must be a string"
  | .loneSurrogate => "lone leading surrogate in hex escape"
  | .unfinishedEscape => "unexpected end of hex escape"
  | .trailingComma => "trailing comma"
  | .trailingCharacters => "trailing characters"
  | .wrongType found expected => "invalid type: " ++ found.message ++ ", expected " ++ expected
  | .duplicateField name => "duplicate field `" ++ name ++ "`"

end Flaw

namespace Stop

/-- The offset of the reported place in the whole text. -/
def offset (stop : Stop) (whole : Text) : Nat :=
  min whole.bytes (whole.bytes - stop.rest.bytes + stop.ahead)

/-- The line of the reported place counts from one, its column from zero. -/
def message (stop : Stop) (whole : Text) : String :=
  let offset := stop.offset whole
  stop.flaw.message ++ " at line " ++ toString (whole.row offset + 1) ++ " column " ++
    toString (offset - whole.lineStart offset)

end Stop

end ScriptTidy.Json
