import ScriptTidy.Json.Number
import ScriptTidy.Json.Quoted

/-!
Passing over JSON values, and naming a value of the wrong kind.

Values may be nested to any depth. A list passed over has no name for a comma at its end: what follows a
comma must be a value.
-/

set_option autoImplicit false

namespace ScriptTidy.Json

def isSpace (char : Char) : Bool := char == ' ' || char == '\n' || char == '\t' || char == '\r'

def skipSpace (text : Text) : Text := text.dropWhile isSpace

/-- Reads the rest of a word that begins a value. -/
def readWord : List Char → Text → Except Stop Text
  | [], text => .ok text
  | _ :: _, [] => stopOn .endOfValue []
  | letter :: letters, char :: rest =>
      if char == letter then readWord letters rest else stopOn .expectedWord (char :: rest)

/-- Reads the colon between a name and its value. -/
def readColon (text : Text) : Except Stop Text :=
  match skipSpace text with
  | [] => stopOn .endOfObject []
  | ':' :: rest => .ok rest
  | other => stopOn .expectedColon other

mutual
/-- Passes over a value; each step takes one unit of fuel. -/
def skipValueWith (fuel : Nat) (text : Text) : Except Stop Text :=
  match fuel with
  | 0 => stopOn .expectedValue text
  | fuel + 1 =>
      match skipSpace text with
      | [] => stopOn .endOfValue []
      | 'n' :: rest => readWord ['u', 'l', 'l'] rest
      | 't' :: rest => readWord ['r', 'u', 'e'] rest
      | 'f' :: rest => readWord ['a', 'l', 's', 'e'] rest
      | '-' :: rest => skipNumber rest
      | '\x22' :: rest => skipString rest
      | '[' :: rest =>
          match skipSpace rest with
          | [] => stopOn .endOfList []
          | ']' :: behind => .ok behind
          | other => skipItems fuel other
      | '{' :: rest =>
          match skipSpace rest with
          | [] => stopOn .endOfObject []
          | '}' :: behind => .ok behind
          | other => skipMembers fuel other
      | char :: rest => if isDigit char then skipNumber (char :: rest) else stopOn .expectedValue (char :: rest)
/-- Passes over the values of a list, from one on to the closing bracket. -/
def skipItems (fuel : Nat) (text : Text) : Except Stop Text :=
  match fuel with
  | 0 => stopOn .expectedValue text
  | fuel + 1 =>
      match skipValueWith fuel text with
      | .error stop => .error stop
      | .ok behind =>
          match skipSpace behind with
          | [] => stopOn .endOfList []
          | ',' :: rest => skipItems fuel rest
          | ']' :: rest => .ok rest
          | other => stopOn .expectedListSeparator other
/-- Passes over the members of an object, from one on to the closing brace. -/
def skipMembers (fuel : Nat) (text : Text) : Except Stop Text :=
  match fuel with
  | 0 => stopOn .expectedValue text
  | fuel + 1 =>
      match skipSpace text with
      | [] => stopOn .endOfObject []
      | '\x22' :: name =>
          match (skipString name).bind readColon with
          | .error stop => .error stop
          | .ok value =>
              match skipValueWith fuel value with
              | .error stop => .error stop
              | .ok behind =>
                  match skipSpace behind with
                  | [] => stopOn .endOfObject []
                  | ',' :: rest => skipMembers fuel rest
                  | '}' :: rest => .ok rest
                  | other => stopOn .expectedObjectSeparator other
      | other => stopOn .keyNotString other
end

/-- Passes over a value. Two steps are taken for each character at most. -/
def skipValue (text : Text) : Except Stop Text := skipValueWith (2 * text.length + 2) text

/-- The answer to a value of the wrong kind: it is read to be named, but a list or an object is not entered. -/
def wrongValue {α : Type} (expected : String) (text : Text) : Except Stop α :=
  let named (found : Found) (rest : Text) : Except Stop α := stopPast (.wrongType found expected) rest
  let word (letters : List Char) (found : Found) (rest : Text) : Except Stop α :=
    match readWord letters rest with
    | .error stop => .error stop
    | .ok behind => named found behind
  match text with
  | [] => stopOn .expectedValue []
  | 'n' :: rest => word ['u', 'l', 'l'] .null rest
  | 't' :: rest => word ['r', 'u', 'e'] (.boolean true) rest
  | 'f' :: rest => word ['a', 'l', 's', 'e'] (.boolean false) rest
  | '[' :: _ => named .list text
  | '{' :: _ => named .object text
  | '\x22' :: rest =>
      match readString rest with
      | .error stop => .error stop
      | .ok (value, behind) => named (.string value) behind
  | char :: rest =>
      if char == '-' || isDigit char then
        match readNumber (char == '-') (if char == '-' then rest else char :: rest) with
        | .error stop => .error stop
        | .ok (found, behind) => named found behind
      else stopOn .expectedValue (char :: rest)

end ScriptTidy.Json
