import ScriptTidy.Json.Value
import ScriptTidy.Options.Basic

/-!
Reading options from a JSON text.

The text holds an object, whose unknown members are passed over, or a list with the two sets in the order of
the fields. A set that is missing keeps its default.
-/

set_option autoImplicit false

namespace ScriptTidy.Options

open Json

/-- Reads a name of a set. -/
def readName (text : Text) : Scan Text :=
  match skipSpace text with
  | [] => stopOn .endOfValue []
  | '\x22' :: rest => readString rest
  | other => wrongValue "a string" other

/-- Reads the names of a list, from one on to the closing bracket; each name takes one unit of fuel. -/
def readNamesWith (fuel : Nat) (found : NameSet) (text : Text) : Scan NameSet :=
  match fuel with
  | 0 => stopOn .expectedValue text
  | fuel + 1 =>
      match readName text with
      | .error stop => .error stop
      | .ok (name, behind) =>
          match skipSpace behind with
          | [] => stopOn .endOfList []
          | ']' :: rest => .ok (found.insert name, rest)
          | ',' :: rest =>
              match skipSpace rest with
              | [] => stopOn .endOfValue []
              | ']' :: last => stopOn .trailingComma (']' :: last)
              | other => readNamesWith fuel (found.insert name) other
          | other => stopOn .expectedListSeparator other

/-- Reads a list of names. -/
def readNames (text : Text) : Scan NameSet :=
  match skipSpace text with
  | [] => stopOn .endOfValue []
  | '[' :: rest =>
      match skipSpace rest with
      | [] => stopOn .endOfList []
      | ']' :: behind => .ok (.empty, behind)
      | other => readNamesWith other.length .empty other
  | other => wrongValue "a sequence" other

/-- The sets that an object has given so far. -/
structure Given where
  exempt : Option NameSet
  console : Option NameSet

namespace Given

def none : Given := ⟨.none, .none⟩

/-- The options with the default for each set that is missing. -/
def complete (given : Given) : Options :=
  ⟨given.exempt.getD default.exemptNames, given.console.getD default.consoleMethods⟩

end Given

/-- A field that comes again is refused once its name is read; the space behind the name, and a brace behind
that, have then been read as well. -/
def stopAtDuplicate {α : Type} (field : String) (text : Text) : Except Stop α :=
  match skipSpace text with
  | '}' :: rest => stopPast (.duplicateField field) rest
  | rest => stopPast (.duplicateField field) rest

/-- Reads the value of the member with the given name. -/
def readMember (given : Given) (name text : Text) : Except Stop (Given × Text) :=
  if name = exemptField.toList then
    if given.exempt.isSome then stopAtDuplicate exemptField text
    else do
      let (names, rest) ← readNames (← readColon text)
      return ({ given with exempt := some names }, rest)
  else if name = consoleField.toList then
    if given.console.isSome then stopAtDuplicate consoleField text
    else do
      let (names, rest) ← readNames (← readColon text)
      return ({ given with console := some names }, rest)
  else do
    let rest ← skipValue (← readColon text)
    return (given, rest)

/-- Reads the members of an object, from one on to the closing brace; each member takes one unit of fuel. -/
def readMembersWith (fuel : Nat) (given : Given) (text : Text) : Scan Given :=
  match fuel with
  | 0 => stopOn .keyNotString text
  | fuel + 1 =>
      match text with
      | '\x22' :: named =>
          match readString named with
          | .error stop => .error stop
          | .ok (name, behind) =>
              match readMember given name behind with
              | .error stop => .error stop
              | .ok (given, behind) =>
                  match skipSpace behind with
                  | [] => stopOn .endOfObject []
                  | '}' :: rest => .ok (given, rest)
                  | ',' :: rest =>
                      match skipSpace rest with
                      | [] => stopOn .endOfValue []
                      | '}' :: last => stopOn .trailingComma ('}' :: last)
                      | other => readMembersWith fuel given other
                  | other => stopOn .expectedObjectSeparator other
      | other => stopOn .keyNotString other

/-- Reads an object whose opening brace has been read. -/
def readObject (text : Text) : Scan Given :=
  match skipSpace text with
  | [] => stopOn .endOfObject []
  | '}' :: rest => .ok (.none, rest)
  | other => readMembersWith other.length .none other

/-- Reads the end of a list with both sets. -/
def readEnd (given : Given) (text : Text) : Scan Given :=
  match skipSpace text with
  | [] => stopOn .endOfList []
  | ']' :: rest => .ok (given, rest)
  | ',' :: rest =>
      match skipSpace rest with
      | ']' :: last => stopOn .trailingComma (']' :: last)
      | other => stopOn .trailingCharacters other
  | other => stopOn .trailingCharacters other

/-- Reads a list whose opening bracket has been read. -/
def readPositions (text : Text) : Except Stop (Given × Text) :=
  match skipSpace text with
  | [] => stopOn .endOfList []
  | ']' :: rest => .ok (.none, rest)
  | other => do
      let (exempt, behind) ← readNames other
      match skipSpace behind with
      | [] => stopOn .endOfList []
      | ']' :: rest => .ok (⟨some exempt, .none⟩, rest)
      | ',' :: rest =>
          match skipSpace rest with
          | [] => stopOn .endOfValue []
          | ']' :: last => stopOn .trailingComma (']' :: last)
          | other => do
              let (console, behind) ← readNames other
              readEnd ⟨some exempt, some console⟩ behind
      | other => stopOn .expectedListSeparator other

/-- Reads options from a whole text. -/
def read (text : Text) : Except Stop Options := do
  let (given, rest) ←
    match skipSpace text with
    | [] => stopOn .endOfValue []
    | '{' :: rest => readObject rest
    | '[' :: rest => readPositions rest
    | other => wrongValue "struct TransformOptions" other
  match skipSpace rest with
  | [] => return given.complete
  | other => stopOn .trailingCharacters other

end ScriptTidy.Options
