import ScriptTidy.Json.Flaw

/-!
JSON numbers: passing over them, and reading them to name them in a message.

A whole number that fits 64 bits is exact. Any other number keeps the digits that fit 64 bits and becomes a
binary number: these digits times or over the power of ten, each step rounded.
-/

set_option autoImplicit false

namespace ScriptTidy.Json

def isDigit (char : Char) : Bool := '0' ≤ char && char ≤ '9'

def digitValue (char : Char) : Nat := char.toNat - '0'.toNat

/-- Passes over the power of ten, if there is one. -/
def skipPower : Text → Except Stop Text
  | [] => .ok []
  | char :: rest =>
      if char == 'e' || char == 'E' then
        let digits := match rest with
          | sign :: behind => if sign == '+' || sign == '-' then behind else rest
          | [] => rest
        match digits with
        | [] => stopOn .invalidNumber []
        | digit :: behind =>
            if isDigit digit then .ok (behind.dropWhile isDigit) else stopOn .invalidNumber (digit :: behind)
      else .ok (char :: rest)

/-- Passes over what may follow the whole part of a number. -/
def skipFraction : Text → Except Stop Text
  | '.' :: rest =>
      match rest with
      | [] => stopOn .invalidNumber []
      | digit :: behind =>
          if isDigit digit then skipPower (behind.dropWhile isDigit) else stopOn .invalidNumber (digit :: behind)
  | rest => skipPower rest

/-- Passes over a number whose sign has been read. -/
def skipNumber : Text → Except Stop Text
  | [] => stopOn .invalidNumber []
  | '0' :: rest =>
      match rest with
      | [] => .ok []
      | char :: behind => if isDigit char then stopOn .invalidNumber (char :: behind) else skipFraction (char :: behind)
  | char :: rest =>
      if isDigit char then skipFraction (rest.dropWhile isDigit) else stopOn .invalidNumber (char :: rest)

/-- The greatest whole number that is kept exactly. -/
def greatestExact : Nat := twoTo 64 - 1

/-- Appends digits to a number as long as it stays exact, and the digits that were not appended. -/
def absorb (number : Nat) : List Char → Nat × List Char
  | [] => (number, [])
  | digit :: rest =>
      let next := 10 * number + digitValue digit
      if next ≤ greatestExact then absorb next rest else (number, digit :: rest)

/-- The power of ten as a binary number. -/
def powerOfTen (power : Nat) : Option Binary := Binary.nearest? (tenTo power) 1

/-- A binary number times a power of ten. Small powers are reached in steps, since the greatest power that is
a binary number is 308. -/
def timesPower : Nat → Binary → Int → Option Binary
  | 0, number, _ => some number
  | steps + 1, number, power =>
      if power.natAbs ≤ 308 then do
        let factor ← powerOfTen power.natAbs
        if 0 ≤ power then number.mul? factor else number.div? factor
      else if number.mantissa = 0 then some number
      else if 0 ≤ power then none
      else do timesPower steps (← number.div? (← powerOfTen 308)) (power + 308)

/-- The binary number of the digits and the power of ten; `rest` is left of the text. -/
def finishDecimal (negative : Bool) (digits : Nat) (power : Int) (rest : Text) : Scan Found :=
  match (Binary.nearest? digits 1).bind fun number => timesPower 8 number power with
  | none => stopPast .numberOutOfRange rest
  | some value => .ok (.decimal negative value, rest)

/-- Powers of ten are counted up to here. -/
def greatestPower : Nat := twoTo 31 - 1

/-- Reads the digits of a power of ten. A power beyond all counting leaves zero or is out of range. -/
def readPowerDigits (negative : Bool) (digits : Nat) (shift : Int) (small : Bool) (power : Nat) : Text → Scan Found
  | char :: rest =>
      if isDigit char then
        let next := 10 * power + digitValue char
        if greatestPower < next then
          if digits ≠ 0 ∧ small = false then stopPast .numberOutOfRange rest
          else .ok (.decimal negative ⟨0, 0⟩, rest.dropWhile isDigit)
        else readPowerDigits negative digits shift small next rest
      else finishDecimal negative digits (if small then shift - power else shift + power) (char :: rest)
  | [] => finishDecimal negative digits (if small then shift - power else shift + power) []

/-- Reads a power of ten whose letter has been read. -/
def readPower (negative : Bool) (digits : Nat) (shift : Int) (text : Text) : Scan Found :=
  let (small, text) := match text with
    | '+' :: rest => (false, rest)
    | '-' :: rest => (true, rest)
    | rest => (false, rest)
  match text with
  | [] => stopOn .endOfValue []
  | char :: rest =>
      if isDigit char then readPowerDigits negative digits shift small (digitValue char) rest
      else stopOn .invalidNumber (char :: rest)

/-- Reads what may follow the digits of a number that is not whole. -/
def readTail (negative : Bool) (digits : Nat) (shift : Int) : Text → Scan Found
  | [] => finishDecimal negative digits shift []
  | char :: rest =>
      if char == 'e' || char == 'E' then readPower negative digits shift rest
      else finishDecimal negative digits shift (char :: rest)

/-- A whole number with its sign; zero has none, and one beyond 64 bits with sign is not exact. -/
def whole (negative : Bool) (number : Nat) (rest : Text) : Scan Found :=
  if negative = false then .ok (.integer number, rest)
  else if 0 < number ∧ number ≤ twoTo 63 then .ok (.integer (-(number : Int)), rest)
  else finishDecimal true number 0 rest

/-- Reads what follows the whole part, of which `dropped` digits did not fit. -/
def readFraction (negative : Bool) (number dropped : Nat) (text : Text) : Scan Found :=
  match text with
  | '.' :: rest =>
      match rest.takeWhile isDigit with
      | [] => if rest = [] then stopOn .endOfValue [] else stopOn .invalidNumber rest
      | decimals =>
          let (digits, unused) := absorb number decimals
          readTail negative digits ((dropped : Int) - (decimals.length - unused.length : Nat))
            (rest.dropWhile isDigit)
  | [] => if dropped = 0 then whole negative number [] else finishDecimal negative number dropped []
  | char :: rest =>
      if char == 'e' || char == 'E' then readPower negative number dropped rest
      else if dropped = 0 then whole negative number (char :: rest)
      else finishDecimal negative number dropped (char :: rest)

/-- Reads a number whose sign has been read. -/
def readNumber (negative : Bool) (text : Text) : Scan Found :=
  match text with
  | [] => stopOn .endOfValue []
  | '0' :: rest =>
      match rest with
      | char :: behind =>
          if isDigit char then stopOn .invalidNumber (char :: behind)
          else readFraction negative 0 0 (char :: behind)
      | [] => readFraction negative 0 0 []
  | char :: rest =>
      if isDigit char then
        let (number, unused) := absorb 0 ((char :: rest).takeWhile isDigit)
        readFraction negative number unused.length (rest.dropWhile isDigit)
      else stopOn .invalidNumber (char :: rest)

end ScriptTidy.Json
