import ScriptTidy.Json.Quoted

/-!
JSON texts laid out over lines: two spaces for each level, one member or element a line.

A piece is laid out for a depth, which is that of the line on which it begins.
-/

set_option autoImplicit false

namespace ScriptTidy.Json

/-- The layout of a value at a depth. -/
abbrev Layout := Nat → Text

namespace Layout

def indentation (depth : Nat) : Text := List.replicate (2 * depth) ' '

def string (text : Text) : Layout := fun _ => encode text

def number (value : Nat) : Layout := fun _ => (toString value).toList

/-- Pieces between brackets, each on a line of its own; without pieces the brackets stand together. -/
def enclosed (opening closing : Char) (pieces : List Layout) : Layout := fun depth =>
  if pieces.isEmpty then [opening, closing]
  else
    let lines := pieces.map fun piece => indentation (depth + 1) ++ piece (depth + 1)
    opening :: '\n' :: (List.intersperse [',', '\n'] lines).flatten ++ '\n' :: indentation depth ++ [closing]

def list (items : List Layout) : Layout := enclosed '[' ']' items

def object (members : List (String × Layout)) : Layout :=
  enclosed '{' '}' (members.map fun member => fun depth =>
    encode member.1.toList ++ ':' :: ' ' :: member.2 depth)

end Layout

end ScriptTidy.Json
