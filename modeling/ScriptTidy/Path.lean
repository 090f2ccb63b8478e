import ScriptTidy.Text.Basic

/-!
File paths as texts with `/` between their parts.

A path is kept as it was given, since messages repeat it. Empty parts and the part `.` name nothing,
wherever they stand, so the last part of `src/a.js/.` is `a.js`.
-/

set_option autoImplicit false

namespace ScriptTidy

abbrev Path := Text

namespace Path

/-- The parts between the slashes, the empty ones included; there is always one. -/
def parts : Path → List Text
  | [] => [[]]
  | '/' :: rest => [] :: parts rest
  | char :: rest =>
      match parts rest with
      | [] => [[char]]
      | first :: others => (char :: first) :: others

/-- The part `.` names the folder itself. -/
def here : Text := ['.']

/-- The part `..` names the folder above. -/
def up : Text := ['.', '.']

/-- The parts that name something. -/
def names (path : Path) : List Text := path.parts.filter fun part => part != [] && part != here

/-- The last part that names something, unless that is the folder above. -/
def fileName? (path : Path) : Option Text :=
  match path.names.getLast? with
  | none => none
  | some part => if part = up then none else some part

/-- What follows the last dot of the file name. A name whose only dot comes first has no extension. -/
def extension? (path : Path) : Option Text :=
  match fileName? path with
  | none => none
  | some name =>
      match name.reverse.dropWhile (· != '.') with
      | [] => none
      | _ :: [] => none
      | _ :: _ => some (Text.endWhile (· != '.') name)

/-- The path of an entry of a folder. A slash at the end of the folder's path is not doubled. -/
def join (folder : Path) (name : Text) : Path :=
  if folder = [] ∨ folder.getLast? = some '/' then folder ++ name else folder ++ '/' :: name

end Path

end ScriptTidy
