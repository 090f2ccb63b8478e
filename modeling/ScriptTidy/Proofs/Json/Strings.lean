import ScriptTidy.Json.Quoted

/-! The written forms of a JSON string: each of them is read as the text that it stands for, and one of them is written. -/

set_option autoImplicit false

namespace ScriptTidy.Json

-- The letters that may follow a backslash, each with the character that both stand for.
def shortEscapes : List (Char × Char) :=
  [('\x22', '\x22'), ('\\', '\\'), ('/', '/'), ('b', '\x08'), ('f', '\x0c'), ('n', '\n'), ('r', '\r'), ('t', '\t')]

def hexAlphabets : List Text := ["0123456789abcdef".toList, "0123456789ABCDEF".toList]

def IsHex (char : Char) (value : Nat) : Prop := ∃ letters ∈ hexAlphabets, letters[value]? = some char

instance (char : Char) (value : Nat) : Decidable (IsHex char value) :=
  inferInstanceAs (Decidable (∃ letters ∈ hexAlphabets, letters[value]? = some char))

-- A number of sixteen bits, written with four hexadecimal digits.
inductive UnitText : Text → Nat → Prop where
  | digits (a b c d : Char) (first second third fourth : Nat) : IsHex a first → IsHex b second → IsHex c third →
      IsHex d fourth → UnitText ['\\', 'u', a, b, c, d] (first * 0x1000 + second * 0x100 + third * 0x10 + fourth)

-- The UTF-16 form of a character.
def units (char : Char) : List Nat :=
  if char.toNat < 0x10000 then [char.toNat]
  else [0xD800 + (char.toNat - 0x10000) / 0x400, 0xDC00 + (char.toNat - 0x10000) % 0x400]

def isPlain (char : Char) : Bool := char != '\x22' && char != '\\' && 0x20 ≤ char.toNat

-- What stands for a character between the quotes of a string.
inductive CharText : Text → Char → Prop where
  | plain (char : Char) : isPlain char = true → CharText [char] char
  | short (letter meant : Char) : (letter, meant) ∈ shortEscapes → CharText ['\\', letter] meant
  | one (char : Char) (unit : Nat) (text : Text) : units char = [unit] → UnitText text unit → CharText text char
  | two (char : Char) (high low : Nat) (front back : Text) : units char = [high, low] → UnitText front high →
      UnitText back low → CharText (front ++ back) char

inductive StringText : Text → Text → Prop where
  | nil : StringText [] []
  | cons (char : Char) (front body value : Text) : CharText front char → StringText body value →
      StringText (front ++ body) (char :: value)

-- What may stand between the quotes of a string that is passed over: its units need not be the form of a text.
inductive StringShape : Text → Prop where
  | nil : StringShape []
  | plain (char : Char) (body : Text) : isPlain char = true → StringShape body → StringShape (char :: body)
  | short (letter meant : Char) (body : Text) : (letter, meant) ∈ shortEscapes → StringShape body →
      StringShape ('\\' :: letter :: body)
  | unit (front : Text) (unit : Nat) (body : Text) : UnitText front unit → StringShape body → StringShape (front ++ body)

theorem hex_value (char : Char) (value : Nat) (hex : IsHex char value) : hexValue? char = some value := by
  obtain ⟨letters, listed, found⟩ := hex
  have small : value < 16 := by
    have bound := (List.getElem?_eq_some_iff.mp found).1
    simp only [hexAlphabets, List.mem_cons, List.not_mem_nil, or_false] at listed
    rcases listed with rfl | rfl <;> exact bound
  have table : ∀ letters ∈ hexAlphabets, ∀ value < 16, letters[value]?.bind hexValue? = some value := by decide +kernel
  have read := table letters listed value small
  rwa [found] at read

theorem unit_number (front : Text) (unit : Nat) (written : UnitText front unit) :
    ∃ a b c d, front = ['\\', 'u', a, b, c, d] ∧ hexNumber? [a, b, c, d] = some unit := by
  cases written with
  | digits a b c d first second third fourth one two three four =>
      refine ⟨a, b, c, d, rfl, ?_⟩
      simp only [hexNumber?, List.foldlM_cons, List.foldlM_nil, hex_value a first one, hex_value b second two,
        hex_value c third three, hex_value d fourth four, Option.map_some, Option.bind_eq_bind, Option.bind_some]
      exact congrArg some (by omega)

theorem plain_char (char : Char) (plain : isPlain char = true) : char ≠ '\x22' ∧ char ≠ '\\' ∧ ¬ char.toNat < 0x20 := by
  simpa [isPlain, and_assoc] using plain

section Reading

variable (rest : Text)

theorem read_plain (char : Char) (plain : isPlain char = true) :
    readString (char :: rest) = prepend char (readString rest) := by
  obtain ⟨noQuote, noSlash, visible⟩ := plain_char char plain
  rw [readString.eq_def]
  simp [noQuote, noSlash, visible]

theorem short_escape (letter meant : Char) (listed : (letter, meant) ∈ shortEscapes) :
    readString ('\\' :: letter :: rest) = prepend meant (readString rest) ∧
      skipString ('\\' :: letter :: rest) = skipString rest := by
  simp only [shortEscapes, List.mem_cons, Prod.mk.injEq, List.not_mem_nil, or_false] at listed
  rcases listed with ⟨rfl, rfl⟩ | ⟨rfl, rfl⟩ | ⟨rfl, rfl⟩ | ⟨rfl, rfl⟩ | ⟨rfl, rfl⟩ | ⟨rfl, rfl⟩ | ⟨rfl, rfl⟩ | ⟨rfl, rfl⟩ <;>
    exact ⟨rfl, rfl⟩

-- A character is no half of a pair.
theorem char_range (char : Char) : char.toNat < 0xD800 ∨ 0xDFFF < char.toNat ∧ char.toNat < 0x110000 := char.valid

theorem read_one (char : Char) (unit : Nat) (front : Text) (same : units char = [unit]) (written : UnitText front unit) :
    readString (front ++ rest) = prepend char (readString rest) := by
  obtain ⟨a, b, c, d, rfl, number⟩ := unit_number front unit written
  have value : unit = char.toNat := by
    unfold units at same
    split at same
    · exact (List.cons.inj same).1.symm
    · cases same
  subst value
  have range := char_range char
  have low : isLowSurrogate char.toNat = false := by simp [isLowSurrogate]; omega
  have high : isHighSurrogate char.toNat = false := by simp [isHighSurrogate]; omega
  rw [List.cons_append, readString.eq_def]
  simp [number, low, high]

theorem read_two (char : Char) (high low : Nat) (front back : Text) (same : units char = [high, low])
    (first : UnitText front high) (second : UnitText back low) :
    readString (front ++ back ++ rest) = prepend char (readString rest) := by
  obtain ⟨a, b, c, d, rfl, one⟩ := unit_number front high first
  obtain ⟨e, f, g, h, rfl, two⟩ := unit_number back low second
  unfold units at same
  split at same
  · cases same
  next beyond =>
    obtain ⟨highValue, others⟩ := List.cons.inj same
    have lowValue := (List.cons.inj others).1
    have range := char_range char
    have notLow : isLowSurrogate high = false := by simp [isLowSurrogate]; omega
    have isHigh : isHighSurrogate high = true := by simp [isHighSurrogate]; omega
    have isLow : isLowSurrogate low = true := by simp [isLowSurrogate]; omega
    have joined : joinSurrogates high low = char := by
      rw [joinSurrogates, show (high - 0xD800) * 0x400 + (low - 0xDC00) + 0x10000 = char.toNat by omega, Char.ofNat_toNat]
    rw [List.cons_append, List.cons_append, readString.eq_def]
    simp [one, two, notLow, isHigh, isLow, joined]

theorem read_string (body value : Text) (written : StringText body value) :
    readString (body ++ '\x22' :: rest) = .ok (value, rest) := by
  induction written with
  | nil =>
      rw [List.nil_append, readString.eq_def]
      rfl
  | cons char front body value first _ ih =>
      have step : readString (front ++ (body ++ '\x22' :: rest)) = prepend char (readString (body ++ '\x22' :: rest)) := by
        cases first with
        | plain _ plain => exact read_plain _ char plain
        | short letter _ listed => exact (short_escape _ letter char listed).1
        | one _ unit _ same unitText => exact read_one _ char unit front same unitText
        | two _ high low front back same one two => exact read_two _ char high low front back same one two
      rw [List.append_assoc, step, ih]
      rfl

end Reading

theorem skip_string (body rest : Text) (shape : StringShape body) : skipString (body ++ '\x22' :: rest) = .ok rest := by
  induction shape with
  | nil =>
      rw [List.nil_append, skipString.eq_def]
      rfl
  | plain char body plain _ ih =>
      obtain ⟨noQuote, noSlash, visible⟩ := plain_char char plain
      rw [List.cons_append, skipString.eq_def]
      simpa [noQuote, noSlash, visible] using ih
  | short letter meant body listed _ ih => exact (short_escape _ letter meant listed).2.trans ih
  | unit front unit body written _ ih =>
      obtain ⟨a, b, c, d, rfl, number⟩ := unit_number front unit written
      rw [List.append_assoc, List.cons_append, skipString.eq_def]
      simpa [number] using ih

theorem hex_digit (value : Nat) (small : value < 16) : IsHex (hexDigit value) value := by
  have table : ∀ value < 16, IsHex (hexDigit value) value := by decide +kernel
  exact table value small

theorem encode_char_text (char : Char) : CharText (encodeChar char) char := by
  unfold encodeChar
  simp only [beq_iff_eq]
  split
  next same => exact same ▸ .short '\x22' '\x22' (by decide)
  split
  next same => exact same ▸ .short '\\' '\\' (by decide)
  split
  next same => exact same ▸ .short 'b' '\x08' (by decide)
  split
  next same => exact same ▸ .short 't' '\t' (by decide)
  split
  next same => exact same ▸ .short 'n' '\n' (by decide)
  split
  next same => exact same ▸ .short 'f' '\x0c' (by decide)
  split
  next same => exact same ▸ .short 'r' '\r' (by decide)
  next noQuote noSlash _ _ _ _ _ =>
    split
    next control =>
      refine .one char char.toNat _ (if_pos (by omega)) ?_
      have digits := UnitText.digits '0' '0' (hexDigit (char.toNat / 16)) (hexDigit (char.toNat % 16)) 0 0 _ _ (by decide)
        (by decide) (hex_digit _ (by omega)) (hex_digit _ (by omega))
      rwa [show 0 * 0x1000 + 0 * 0x100 + char.toNat / 16 * 0x10 + char.toNat % 16 = char.toNat by omega] at digits
    next visible => exact .plain char (by simp [isPlain, noQuote, noSlash, Nat.not_lt.mp visible])

-- What is written between the quotes is a form of the text.
theorem encoded_text (text : Text) : StringText (text.flatMap encodeChar) text := by
  induction text with
  | nil => exact .nil
  | cons char rest ih =>
      rw [List.flatMap_cons]
      exact .cons char _ _ _ (encode_char_text char) ih

end ScriptTidy.Json
