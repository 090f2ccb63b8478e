import ScriptTidy.Proofs.Text.Pieces

/-! The tokens of an import clause, as a scan from left to right gives them. Blanks and comments are passed over. -/

set_option autoImplicit false

namespace ScriptTidy

open Text

-- What a scan stands in: nothing, a word, a string, perhaps a comment, a line comment or a block comment.
inductive Lexing where
  | free
  | word (letters : Text)
  | quoted (double : Bool) (letters : Text)
  | escaped (double : Bool) (letters : Text)
  | slash
  | line
  | block
  | star
deriving DecidableEq

namespace Lexing

def isLineBreak (char : Char) : Bool := char == '\n' || char == '\r' || char == '\u2028' || char == '\u2029'

def isMark (char : Char) : Bool := ['{', '}', ',', '*', '/', '\x22', '\x27'].contains char

def isLetter (char : Char) : Bool := !isSkipped char && !isMark char

def quote (double : Bool) : Char := if double then '\x22' else '\x27'

-- What a character begins.
def start (char : Char) : Lexing :=
  if isSkipped char then .free
  else if char = '/' then .slash
  else if char = '\x22' ∨ char = '\x27' then .quoted (char == '\x22') [char]
  else if isMark char then .free
  else .word [char]

-- A mark is a token by itself.
def single (char : Char) : List Text :=
  if isSkipped char ∨ char = '/' ∨ char = '\x22' ∨ char = '\x27' ∨ isMark char = false then [] else [[char]]

-- The token that ends when a scan does.
def pending : Lexing → List Text
  | .word letters => [letters]
  | .quoted _ letters => [letters]
  | .escaped _ letters => [letters]
  | .slash => [['/']]
  | _ => []

def step : Lexing → Char → Lexing
  | .free, char => start char
  | .word letters, char => if isLetter char then .word (letters ++ [char]) else start char
  | .quoted double letters, char =>
      if char = quote double then .free
      else if char = '\\' then .escaped double (letters ++ [char])
      else .quoted double (letters ++ [char])
  | .escaped double letters, char => .quoted double (letters ++ [char])
  | .slash, char => if char = '/' then .line else if char = '*' then .block else start char
  | .line, char => if isLineBreak char then .free else .line
  | .block, char => if char = '*' then .star else .block
  | .star, char => if char = '/' then .free else if char = '*' then .star else .block

-- The tokens that are complete with a character.
def emit : Lexing → Char → List Text
  | .free, char => single char
  | .word letters, char => if isLetter char then [] else letters :: single char
  | .quoted double letters, char => if char = quote double then [letters ++ [char]] else []
  | .slash, char => if char = '/' ∨ char = '*' then [] else ['/'] :: single char
  | _, _ => []

def ending (scan : Lexing) : Text → Lexing
  | [] => scan
  | char :: rest => ending (step scan char) rest

def emitted (scan : Lexing) : Text → List Text
  | [] => scan.pending
  | char :: rest => emit scan char ++ emitted (step scan char) rest

-- Holds if the character takes up no token that the scan stands in.
def settles : Lexing → Char → Bool
  | .free, _ => true
  | .word _, char => !isLetter char
  | .line, char => isLineBreak char
  | _, _ => false

end Lexing

namespace Text

def tokens (text : Text) : List Text := Lexing.emitted .free text

end Text

namespace Lexing

theorem break_skipped (char : Char) (lineBreak : isLineBreak char = true) : isSkipped char = true := by
  simp only [isLineBreak, Bool.or_eq_true, beq_iff_eq] at lineBreak
  rcases lineBreak with ((rfl | rfl) | rfl) | rfl <;> decide

theorem start_skipped (char : Char) (skipped : isSkipped char = true) : start char = .free ∧ single char = [] := by
  simp [start, single, skipped]

theorem step_settled (scan : Lexing) (char : Char) (settled : scan.settles char = true) :
    step scan char = start char ∧ emit scan char = scan.pending ++ single char := by
  cases scan with
  | free => exact ⟨rfl, rfl⟩
  | word letters =>
      have other : isLetter char = false := by simpa [settles] using settled
      simp [step, emit, pending, other]
  | line =>
      obtain ⟨begins, alone⟩ := start_skipped char (break_skipped char settled)
      simp [step, emit, pending, show isLineBreak char = true from settled, begins, alone]
  | quoted double letters => cases settled
  | escaped double letters => cases settled
  | slash => cases settled
  | block => cases settled
  | star => cases settled

theorem emitted_settled (scan : Lexing) (text : Text) (settled : text.head?.all scan.settles = true) :
    emitted scan text = scan.pending ++ tokens text := by
  cases text with
  | nil => simp [emitted, tokens, pending]
  | cons char rest =>
      obtain ⟨next, made⟩ := step_settled scan char (by simpa using settled)
      rw [emitted, next, made, tokens, emitted, List.append_assoc]
      rfl

theorem ending_settled (scan : Lexing) (text : Text) (some : text ≠ []) (settled : text.head?.all scan.settles = true) :
    ending scan text = ending .free text := by
  cases text with
  | nil => exact absurd rfl some
  | cons char rest =>
      rw [ending, (step_settled scan char (by simpa using settled)).1]
      rfl

theorem ending_append (front back : Text) : ∀ scan : Lexing, ending scan (front ++ back) = ending (ending scan front) back := by
  induction front with
  | nil => exact fun _ => rfl
  | cons char rest ih => exact fun scan => ih (step scan char)

theorem emitted_append (front back : Text) : ∀ scan : Lexing, back.head?.all (ending scan front).settles = true →
    emitted scan (front ++ back) = emitted scan front ++ tokens back := by
  induction front with
  | nil => exact fun scan settled => emitted_settled scan back settled
  | cons char rest ih =>
      intro scan settled
      rw [List.cons_append, emitted, emitted, ih _ settled, List.append_assoc]

theorem tokens_append (front back : Text) (settled : back.head?.all (ending .free front).settles = true) :
    tokens (front ++ back) = tokens front ++ tokens back := emitted_append front back .free settled

theorem free_append (front back : Text) (free : ending .free front = .free) : tokens (front ++ back) = tokens front ++ tokens back :=
  tokens_append front back (by rw [free]; cases back <;> rfl)

theorem comma_append (front back : Text) (settled : (ending .free front).settles ',' = true) :
    tokens (front ++ (',' :: ' ' :: back)) = tokens front ++ [','] :: tokens back := by
  rw [tokens_append front (',' :: ' ' :: back) settled]
  exact congrArg (tokens front ++ ·) (free_append [',', ' '] back (by decide))

theorem skipped_free (text : Text) (skipped : text.all isSkipped = true) : ending .free text = .free ∧ tokens text = [] := by
  induction text with
  | nil => exact ⟨rfl, rfl⟩
  | cons char rest ih =>
      rw [List.all_cons, Bool.and_eq_true] at skipped
      obtain ⟨begins, alone⟩ := start_skipped char skipped.1
      obtain ⟨free, none⟩ := ih skipped.2
      have next : step .free char = .free := begins
      have made : emit .free char = [] := alone
      exact ⟨by rw [ending, next, free], by rw [tokens, emitted, next, made]; exact none⟩

-- A word that is begun is a token.
theorem word_first (text : Text) : ∀ letters : Text, ∃ more others, emitted (.word letters) text = (letters ++ more) :: others := by
  induction text with
  | nil => exact fun letters => ⟨[], [], by rw [List.append_nil]; rfl⟩
  | cons char rest ih =>
      intro letters
      by_cases letter : isLetter char = true
      · obtain ⟨more, others, shape⟩ := ih (letters ++ [char])
        refine ⟨char :: more, others, ?_⟩
        rw [emitted, show emit (.word letters) char = [] by simp [emit, letter],
          show step (.word letters) char = .word (letters ++ [char]) by simp [step, letter], shape]
        simp
      · refine ⟨[], single char ++ emitted (step (.word letters) char) rest, ?_⟩
        rw [emitted, show emit (.word letters) char = letters :: single char by simp [emit, letter], List.append_nil]
        rfl

theorem letter_first (char : Char) (rest : Text) (letter : isLetter char = true) :
    ∃ more others, tokens (char :: rest) = (char :: more) :: others := by
  simp only [isLetter, Bool.and_eq_true, Bool.not_eq_true'] at letter
  have plain : char ≠ '/' ∧ char ≠ '\x22' ∧ char ≠ '\x27' := by
    refine ⟨?_, ?_, ?_⟩ <;> rintro rfl <;> exact absurd letter.2 (by decide)
  have next : step .free char = .word [char] := by simp [step, start, letter, plain]
  have made : emit .free char = [] := by simp [emit, single, letter]
  obtain ⟨more, others, shape⟩ := word_first rest [char]
  exact ⟨more, others, by rw [tokens, emitted, next, made, shape]; rfl⟩

-- Tokens that all stand for marks begin with no letter.
theorem not_letter_of_tokens (text : Text) (first : ∀ token ∈ (tokens text).head?, ∃ mark, token = [mark] ∧ isMark mark = true) :
    text.head?.all (fun char => !isLetter char) = true := by
  cases text with
  | nil => rfl
  | cons char rest =>
      by_cases letter : isLetter char = true
      · obtain ⟨more, others, shape⟩ := letter_first char rest letter
        obtain ⟨mark, same, isMark⟩ := first (char :: more) (by rw [shape]; rfl)
        obtain ⟨rfl, _⟩ := List.cons.inj same
        simp [isLetter, isMark] at letter
      · simp [letter]

-- A line comment goes up to the next line break.
theorem line_emitted (text : Text) : emitted .line text = tokens (text.dropWhile fun char => !isLineBreak char) := by
  induction text with
  | nil => rfl
  | cons char rest ih =>
      by_cases lineBreak : isLineBreak char = true
      · obtain ⟨begins, alone⟩ := start_skipped char (break_skipped char lineBreak)
        rw [List.dropWhile_cons_of_neg (by simp [lineBreak]), tokens, emitted, emitted,
          show step .line char = .free by simp [step, lineBreak], show emit .line char = [] from rfl,
          show step .free char = .free from begins, show emit .free char = [] from alone]
      · rw [List.dropWhile_cons_of_pos (by simp [lineBreak]), ← ih, emitted, show step .line char = .line by simp [step, lineBreak],
          show emit .line char = [] from rfl, List.nil_append]

-- Within a string or a block comment.
def inside : Lexing → Bool
  | .quoted _ _ => true
  | .escaped _ _ => true
  | .block => true
  | .star => true
  | _ => false

theorem blank_plain (char : Char) (blank : isBlank char = true) :
    char ≠ '/' ∧ char ≠ '*' ∧ char ≠ '\x22' ∧ char ≠ '\x27' := by
  refine ⟨?_, ?_, ?_, ?_⟩ <;> rintro rfl <;> exact absurd blank (by decide)

theorem step_inside (scan : Lexing) (char : Char) (blank : isBlank char = true) (within : scan.inside = true) :
    (step scan char).inside = true := by
  obtain ⟨slash, star, double, single⟩ := blank_plain char blank
  cases scan with
  | quoted isDouble letters =>
      have other : char ≠ quote isDouble := by
        cases isDouble with
        | true => exact double
        | false => exact single
      by_cases escape : char = '\\'
      · simp only [step, if_neg other, if_pos escape, inside]
      · simp only [step, if_neg other, if_neg escape, inside]
  | escaped isDouble letters => rfl
  | block => simp [step, star, inside]
  | star => simp [step, slash, star, inside]
  | free => cases within
  | word letters => cases within
  | slash => cases within
  | line => cases within

theorem ending_inside (blanks : Text) : ∀ scan : Lexing, blanks.all isBlank = true → scan.inside = true →
    (ending scan blanks).inside = true := by
  induction blanks with
  | nil => exact fun _ _ within => within
  | cons char rest ih =>
      intro scan blank within
      rw [List.all_cons, Bool.and_eq_true] at blank
      exact ih _ blank.2 (step_inside scan char blank.1 within)

-- Blanks that lead out of all tokens add none.
theorem blanks_free (blanks : Text) : ∀ scan : Lexing, blanks.all isBlank = true → ending scan blanks = .free →
    scan.inside = false ∧ emitted scan blanks = scan.pending := by
  induction blanks with
  | nil =>
      rintro scan _ rfl
      exact ⟨rfl, rfl⟩
  | cons char rest ih =>
      intro scan blank free
      have within : scan.inside = false := by
        cases given : scan.inside with
        | false => rfl
        | true =>
            have stays := ending_inside (char :: rest) scan blank given
            rw [free] at stays
            cases stays
      rw [List.all_cons, Bool.and_eq_true] at blank
      obtain ⟨slash, star, _, _⟩ := blank_plain char blank.1
      have skipped := skipped_of_blank char blank.1
      obtain ⟨begins, alone⟩ := start_skipped char skipped
      obtain ⟨_, later⟩ := ih (step scan char) blank.2 free
      refine ⟨within, ?_⟩
      rw [emitted, later]
      cases scan with
      | free => simp [emit, step, begins, alone, pending]
      | word letters => simp [emit, step, isLetter, skipped, begins, alone, pending]
      | slash => simp [emit, step, slash, star, begins, alone, pending]
      | line => by_cases lineBreak : isLineBreak char = true <;> simp [emit, step, lineBreak, pending]
      | quoted double letters => cases within
      | escaped double letters => cases within
      | block => cases within
      | star => cases within

theorem emitted_quiet (blanks front : Text) : ∀ scan : Lexing,
    emitted (ending scan front) blanks = (ending scan front).pending → emitted scan (front ++ blanks) = emitted scan front := by
  induction front with
  | nil => exact fun scan quiet => quiet
  | cons char rest ih =>
      intro scan quiet
      rw [List.cons_append, emitted, emitted, ih _ quiet]

theorem trimmed_tokens (text : Text) (free : ending .free text = .free) :
    tokens (trimEnd text) = tokens text ∧ (ending .free (trimEnd text)).inside = false := by
  obtain ⟨blanks, whole, blank⟩ := trim_end_parts text
  rw [whole, ending_append] at free
  obtain ⟨outside, quiet⟩ := blanks_free blanks _ blank free
  have same := emitted_quiet blanks (trimEnd text) .free quiet
  rw [← whole] at same
  exact ⟨same.symm, outside⟩

-- What is left of a text for the tokens if another one is put in front of it: a line comment at the end of that one
-- takes the rest of the line.
def seam (front back : Text) : Text :=
  if ending .free front = .line then back.dropWhile fun char => !isLineBreak char else back

theorem emitted_line (front back : Text) : ∀ scan : Lexing, ending scan front = .line →
    emitted scan (front ++ back) = emitted scan front ++ emitted .line back := by
  induction front with
  | nil =>
      rintro scan rfl
      rfl
  | cons char rest ih =>
      intro scan line
      rw [List.cons_append, emitted, emitted, ih _ line, List.append_assoc]

theorem emitted_pending (text : Text) : ∀ scan : Lexing, ∃ front, emitted scan text = front ++ (ending scan text).pending := by
  induction text with
  | nil => exact fun _ => ⟨[], rfl⟩
  | cons char rest ih =>
      intro scan
      obtain ⟨front, shape⟩ := ih (step scan char)
      exact ⟨emit scan char ++ front, by rw [emitted, ending, shape, List.append_assoc]⟩

theorem not_slash_of_tokens (text : Text) (last : ∀ token ∈ (tokens text).getLast?, token ≠ ['/']) : ending .free text ≠ .slash := by
  intro slash
  obtain ⟨front, shape⟩ := emitted_pending text .free
  rw [slash] at shape
  exact last ['/'] (by rw [tokens, shape]; simp [pending]) rfl

theorem not_word_of_tokens (text : Text) (none : tokens text = []) (letters : Text) : ending .free text ≠ .word letters := by
  intro word
  obtain ⟨front, shape⟩ := emitted_pending text .free
  rw [word] at shape
  rw [tokens, shape] at none
  simp [pending] at none

-- Where no line break follows, a settled scan stands in nothing or in a word.
theorem settled_plain (scan : Lexing) (char : Char) (plain : isLineBreak char = false) (settled : scan.settles char = true) :
    scan = .free ∨ ∃ letters, scan = .word letters ∧ isLetter char = false := by
  cases scan with
  | free => exact .inl rfl
  | word letters => exact .inr ⟨letters, rfl, by simpa [settles] using settled⟩
  | line => rw [settles, plain] at settled; cases settled
  | quoted double letters => cases settled
  | escaped double letters => cases settled
  | slash => cases settled
  | block => cases settled
  | star => cases settled

-- What has no tokens changes none of those in front of it.
theorem quiet_append (front back : Text) (stands : ending .free front = .free ∨ ∃ letters, ending .free front = .word letters)
    (quiet : tokens back = []) (outside : (ending .free back).inside = false) : tokens (front ++ back) = tokens front ∧
      (ending .free (front ++ back)).inside = false ∧ ending .free (front ++ back) ≠ .slash := by
  have head := not_letter_of_tokens back fun token first => by
    rw [quiet] at first
    cases first
  have settled : back.head?.all (ending .free front).settles = true := by
    rcases stands with free | ⟨letters, word⟩
    · rw [free]
      cases back <;> rfl
    · rw [word]
      exact head
  refine ⟨by rw [tokens_append front back settled, quiet, List.append_nil], ?_⟩
  by_cases empty : back = []
  · rw [empty, List.append_nil]
    rcases stands with free | ⟨letters, word⟩
    · simp [free, inside]
    · simp [word, inside]
  · rw [ending_append, ending_settled _ back empty settled]
    refine ⟨outside, not_slash_of_tokens back fun token last => ?_⟩
    rw [quiet] at last
    cases last

theorem tokens_seam (front back : Text) (outside : (ending .free front).inside = false)
    (last : ending .free front ≠ .slash)
    (first : ∀ token ∈ (tokens back).head?, ∃ mark, token = [mark] ∧ isMark mark = true) :
    tokens (front ++ back) = tokens front ++ tokens (seam front back) := by
  have head := not_letter_of_tokens back first
  cases scan : ending .free front with
  | line =>
      rw [seam, if_pos scan, ← line_emitted]
      exact emitted_line front back .free scan
  | free => rw [seam, if_neg (by simp [scan]), free_append front back scan]
  | word letters => rw [seam, if_neg (by simp [scan]), tokens_append front back (by rw [scan]; exact head)]
  | slash => exact absurd scan last
  | quoted double letters => rw [scan] at outside; cases outside
  | escaped double letters => rw [scan] at outside; cases outside
  | block => rw [scan] at outside; cases outside
  | star => rw [scan] at outside; cases outside

end Lexing

end ScriptTidy
