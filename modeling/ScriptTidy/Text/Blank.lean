/-!
The Unicode property White_Space, and cutting blank characters off the ends of a text.
-/

set_option autoImplicit false

namespace ScriptTidy

/-- The ranges of code points with the property White_Space, both ends included. -/
def blankRanges : List (Nat × Nat) :=
  [(0x9, 0xD), (0x20, 0x20), (0x85, 0x85), (0xA0, 0xA0), (0x1680, 0x1680), (0x2000, 0x200A),
    (0x2028, 0x2029), (0x202F, 0x202F), (0x205F, 0x205F), (0x3000, 0x3000)]

/-- Holds of the characters with the property White_Space. -/
def isBlank (char : Char) : Bool :=
  blankRanges.any fun range => range.1 ≤ char.toNat && char.toNat ≤ range.2

/-- Indentation is made of spaces and tabs. -/
def isIndent (char : Char) : Bool := char == ' ' || char == '\t'

/-- What may stand between a statement and the ends of its line: a carriage return counts, because
it belongs to the line break. -/
def isHorizontal (char : Char) : Bool := char == ' ' || char == '\t' || char == '\r'

end ScriptTidy
