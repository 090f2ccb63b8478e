import ScriptTidy.Json.Flaw

/-!
JSON strings: writing them, reading them, and passing over them.

Characters from space on are written as they are, but for the quote and the backslash. Reading accepts all
escapes; two escapes of surrogates in a row stand for one character, and a lone one is refused. Passing over
a string checks the escapes but not what they stand for.
-/

set_option autoImplicit false

namespace ScriptTidy.Json

/-- The digit of a number below sixteen. -/
def hexDigit (value : Nat) : Char := (Nat.toDigits 16 value).headD '0'

/-- One character of a written string. -/
def encodeChar (char : Char) : Text :=
  if char == '\x22' then ['\\', '\x22']
  else if char == '\\' then ['\\', '\\']
  else if char == '\x08' then ['\\', 'b']
  else if char == '\x09' then ['\\', 't']
  else if char == '\x0a' then ['\\', 'n']
  else if char == '\x0c' then ['\\', 'f']
  else if char == '\x0d' then ['\\', 'r']
  else if char.toNat < 0x20 then ['\\', 'u', '0', '0', hexDigit (char.toNat / 16), hexDigit (char.toNat % 16)]
  else [char]

/-- A text as a JSON string with its quotes. -/
def encode (text : Text) : Text := '\x22' :: text.flatMap encodeChar ++ ['\x22']

/-- The character that a backslash and one other character stand for. -/
def unescape? (char : Char) : Option Char :=
  if char == '\x22' then some '\x22'
  else if char == '\\' then some '\\'
  else if char == '/' then some '/'
  else if char == 'b' then some '\x08'
  else if char == 'f' then some '\x0c'
  else if char == 'n' then some '\x0a'
  else if char == 'r' then some '\x0d'
  else if char == 't' then some '\x09'
  else none

def hexValue? (char : Char) : Option Nat :=
  if '0' ≤ char ∧ char ≤ '9' then some (char.toNat - '0'.toNat)
  else if 'a' ≤ char ∧ char ≤ 'f' then some (char.toNat - 'a'.toNat + 10)
  else if 'A' ≤ char ∧ char ≤ 'F' then some (char.toNat - 'A'.toNat + 10)
  else none

/-- The number that four hexadecimal digits write. -/
def hexNumber? (digits : List Char) : Option Nat :=
  digits.foldlM (fun number digit => (hexValue? digit).map (16 * number + ·)) 0

/-- Four bytes are read at once before they are looked at, so a text with fewer ends too soon. -/
def stopInHex {α : Type} (rest : Text) : Except Stop α :=
  if rest.bytes < 4 then stopOn .endOfString [] else .error ⟨.invalidEscape, rest, 4⟩

/-- The first half of a pair. -/
def isHighSurrogate (unit : Nat) : Bool := 0xD800 ≤ unit && unit ≤ 0xDBFF

/-- The second half of a pair. -/
def isLowSurrogate (unit : Nat) : Bool := 0xDC00 ≤ unit && unit ≤ 0xDFFF

/-- The character that a pair of surrogates stands for. -/
def joinSurrogates (high low : Nat) : Char := Char.ofNat ((high - 0xD800) * 0x400 + (low - 0xDC00) + 0x10000)

/-- Puts a character in front of a string that was read. -/
def prepend (char : Char) (read : Scan Text) : Scan Text :=
  match read with
  | .ok (text, rest) => .ok (char :: text, rest)
  | .error stop => .error stop

/-- Reads a string whose opening quote has been read. -/
def readString : Text → Scan Text
  | [] => stopOn .endOfString []
  | char :: rest =>
      if char == '\x22' then .ok ([], rest)
      else if char == '\\' then
        match rest with
        | [] => stopOn .endOfString []
        | 'u' :: a :: b :: c :: d :: behind =>
            match hexNumber? [a, b, c, d] with
            | none => stopInHex (a :: b :: c :: d :: behind)
            | some unit =>
                if isLowSurrogate unit then stopPast .loneSurrogate behind
                else if isHighSurrogate unit then
                  match behind with
                  | [] => stopOn .endOfString []
                  | '\\' :: [] => stopOn .endOfString []
                  | '\\' :: 'u' :: e :: f :: g :: h :: further =>
                      match hexNumber? [e, f, g, h] with
                      | none => stopInHex (e :: f :: g :: h :: further)
                      | some second =>
                          if isLowSurrogate second then prepend (joinSurrogates unit second) (readString further)
                          else stopPast .loneSurrogate further
                  | '\\' :: 'u' :: short => stopInHex short
                  | '\\' :: other => stopOn .unfinishedEscape other
                  | other => stopOn .unfinishedEscape other
                else prepend (Char.ofNat unit) (readString behind)
        | 'u' :: short => stopInHex short
        | escaped :: behind =>
            match unescape? escaped with
            | some meant => prepend meant (readString behind)
            | none => stopOn .invalidEscape (escaped :: behind)
      else if char.toNat < 0x20 then stopOn .controlCharacter (char :: rest)
      else prepend char (readString rest)

/-- Passes over a string whose opening quote has been read. -/
def skipString : Text → Except Stop Text
  | [] => stopOn .endOfString []
  | char :: rest =>
      if char == '\x22' then .ok rest
      else if char == '\\' then
        match rest with
        | [] => stopOn .endOfString []
        | 'u' :: a :: b :: c :: d :: behind =>
            match hexNumber? [a, b, c, d] with
            | none => stopInHex (a :: b :: c :: d :: behind)
            | some _ => skipString behind
        | 'u' :: short => stopInHex short
        | escaped :: behind =>
            match unescape? escaped with
            | some _ => skipString behind
            | none => stopOn .invalidEscape (escaped :: behind)
      else if char.toNat < 0x20 then stopPast .controlCharacter (char :: rest)
      else skipString rest

end ScriptTidy.Json
