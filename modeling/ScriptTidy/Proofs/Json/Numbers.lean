import ScriptTidy.Json.Value

/-! The written forms of JSON numbers: what passes over a number stops at its end. -/

set_option autoImplicit false

namespace ScriptTidy.Json

def IsDigits (text : Text) : Prop := text ≠ [] ∧ text.all isDigit = true

inductive WholeText : Text → Prop where
  | zero : WholeText ['0']
  | digits (first : Char) (rest : Text) : first ≠ '0' → IsDigits (first :: rest) → WholeText (first :: rest)

inductive FractionText : Text → Prop where
  | none : FractionText []
  | some (digits : Text) : IsDigits digits → FractionText ('.' :: digits)

inductive PowerText : Text → Prop where
  | none : PowerText []
  | some (letter : Char) (sign digits : Text) : letter ∈ ['e', 'E'] → sign ∈ [[], ['+'], ['-']] → IsDigits digits →
      PowerText (letter :: sign ++ digits)

inductive NumberText : Text → Prop where
  | number (sign whole fraction power : Text) : sign ∈ [[], ['-']] → WholeText whole → FractionText fraction →
      PowerText power → NumberText (sign ++ whole ++ fraction ++ power)

def digitChars : List Char := ['0', '1', '2', '3', '4', '5', '6', '7', '8', '9']

theorem digit_listed (char : Char) (digit : isDigit char = true) : char ∈ digitChars := by
  have table : ∀ code < 58, 48 ≤ code → Char.ofNat code ∈ digitChars := by decide
  obtain ⟨low, high⟩ : '0' ≤ char ∧ char ≤ '9' := by simpa [isDigit] using digit
  have listed := table char.toNat (Nat.lt_succ_of_le high) low
  rwa [Char.ofNat_toNat] at listed

theorem digits_split (digits : Text) (numeral : IsDigits digits) :
    ∃ first rest, digits = first :: rest ∧ isDigit first = true ∧ rest.all isDigit = true := by
  obtain ⟨nonempty, all⟩ := numeral
  obtain ⟨first, rest, rfl⟩ := List.exists_cons_of_ne_nil nonempty
  rw [List.all_cons, Bool.and_eq_true] at all
  exact ⟨first, rest, rfl, all⟩

theorem whole_head (whole : Text) (written : WholeText whole) : ∃ first rest, whole = first :: rest ∧ isDigit first = true := by
  cases written with
  | zero => exact ⟨_, _, rfl, rfl⟩
  | digits first rest _ numeral =>
      obtain ⟨_, _, same, digit, _⟩ := digits_split _ numeral
      exact ⟨_, _, same, digit⟩

theorem number_head (text : Text) (written : NumberText text) :
    ∃ first rest, text = first :: rest ∧ (first = '-' ∨ isDigit first = true) := by
  cases written with
  | number sign whole fraction power signed begun _ _ =>
      simp only [List.mem_cons, List.not_mem_nil, or_false] at signed
      rcases signed with rfl | rfl
      · obtain ⟨first, rest, rfl, digit⟩ := whole_head whole begun
        exact ⟨_, _, rfl, .inr digit⟩
      · exact ⟨_, _, rfl, .inl rfl⟩

def extendsNumber (char : Char) : Bool := isDigit char || char == '.' || char == 'e' || char == 'E'

-- What stands behind a number cannot belong to it.
def Ended (rest : Text) : Prop := ∀ char ∈ rest.head?, extendsNumber char = false

theorem ended_cons (char : Char) (rest : Text) (other : extendsNumber char = false) : Ended (char :: rest) :=
  fun _ first => Option.some.inj first ▸ other

theorem skip_digits (digits rest : Text) (all : digits.all isDigit = true) (stop : ∀ char ∈ rest.head?, isDigit char = false) :
    (digits ++ rest).dropWhile isDigit = rest := by
  rw [List.dropWhile_append_of_pos fun char member => List.all_eq_true.mp all char member]
  cases rest with
  | nil => rfl
  | cons char others => exact List.dropWhile_cons_of_neg (by simp [stop char rfl])

section Skipping

variable (rest : Text) (ended : Ended rest)

include ended

theorem ended_parts : ∀ char ∈ rest.head?, isDigit char = false ∧ char ≠ '.' ∧ char ≠ 'e' ∧ char ≠ 'E' := by
  intro char first
  simpa [extendsNumber, and_assoc] using ended char first

-- The parts of a number are told apart by their first characters.
theorem power_head (power : Text) (written : PowerText power) :
    ∀ char ∈ (power ++ rest).head?, isDigit char = false ∧ char ≠ '.' := by
  cases written with
  | none => exact fun char first => ⟨(ended_parts rest ended char first).1, (ended_parts rest ended char first).2.1⟩
  | some letter sign digits listed _ _ =>
      intro char first
      obtain rfl : letter = char := Option.some.inj first
      simp only [List.mem_cons, List.not_mem_nil, or_false] at listed
      rcases listed with rfl | rfl <;> decide

theorem fraction_head (fraction power : Text) (written : FractionText fraction) (followed : PowerText power) :
    ∀ char ∈ (fraction ++ (power ++ rest)).head?, isDigit char = false := by
  cases written with
  | none => exact fun char first => (power_head rest ended power followed char first).1
  | some digits numeral => exact fun char first => Option.some.inj first ▸ rfl

theorem skip_power (power : Text) (written : PowerText power) : skipPower (power ++ rest) = .ok rest := by
  cases written with
  | none =>
      cases rest with
      | nil => rfl
      | cons char others =>
          obtain ⟨-, -, small, capital⟩ := ended_parts _ ended char rfl
          simp [skipPower, small, capital]
  | some letter sign digits listed signed numeral =>
      obtain ⟨first, others, rfl, digit, later⟩ := digits_split digits numeral
      have behind := skip_digits others rest later fun char first => (ended_parts rest ended char first).1
      have begins : (letter == 'e' || letter == 'E') = true := by
        simp only [List.mem_cons, List.not_mem_nil, or_false] at listed
        rcases listed with rfl | rfl <;> rfl
      have unsigned : first ≠ '+' ∧ first ≠ '-' := by
        constructor <;> rintro rfl <;> exact absurd digit (by decide)
      simp only [List.mem_cons, List.not_mem_nil, or_false] at signed
      rcases signed with rfl | rfl | rfl
      · simp [skipPower, begins, unsigned, digit, behind]
      · simp [skipPower, begins, digit, behind]
      · simp [skipPower, begins, digit, behind]

theorem skip_fraction (fraction power : Text) (written : FractionText fraction) (followed : PowerText power) :
    skipFraction (fraction ++ (power ++ rest)) = .ok rest := by
  have after := skip_power rest ended power followed
  have stop := power_head rest ended power followed
  cases written with
  | none =>
      rw [List.nil_append, skipFraction]
      · exact after
      · intro behind shape
        exact (stop '.' (by rw [shape]; rfl)).2 rfl
  | some digits numeral =>
      obtain ⟨first, others, rfl, digit, later⟩ := digits_split digits numeral
      have behind := skip_digits others (power ++ rest) later fun char first => (stop char first).1
      simp [skipFraction, digit, behind, after]

theorem skip_number (whole fraction power : Text) (begun : WholeText whole) (written : FractionText fraction)
    (followed : PowerText power) : skipNumber (whole ++ (fraction ++ (power ++ rest))) = .ok rest := by
  have after := skip_fraction rest ended fraction power written followed
  have stop := fraction_head rest ended fraction power written followed
  generalize fraction ++ (power ++ rest) = behind at after stop
  cases begun with
  | zero =>
      cases behind with
      | nil => exact after
      | cons char others => simpa [skipNumber, stop char rfl] using after
  | digits first others nonzero numeral =>
      obtain ⟨_, _, same, digit, later⟩ := digits_split _ numeral
      obtain ⟨rfl, rfl⟩ := List.cons.inj same
      have past := skip_digits others behind later stop
      rw [List.cons_append, skipNumber]
      · simpa [digit, past] using after
      · exact fun zero => nonzero zero

end Skipping

end ScriptTidy.Json
