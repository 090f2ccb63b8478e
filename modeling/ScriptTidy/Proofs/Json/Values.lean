import ScriptTidy.Proofs.Json.Numbers
import ScriptTidy.Proofs.Json.Strings

/-! The written forms of JSON values: what passes over a value stops at its end, however deep it is nested. -/

set_option autoImplicit false

namespace ScriptTidy.Json

def IsGap (text : Text) : Prop := text.all isSpace = true

-- A value, the values of a list between its brackets, or the members of an object between its braces.
inductive Phrase where
  | value
  | items
  | members

inductive Written : Phrase → Text → Prop where
  | word (word : Text) : word ∈ ["null", "true", "false"].map String.toList → Written .value word
  | number (text : Text) : NumberText text → Written .value text
  | string (body : Text) : StringShape body → Written .value ('\x22' :: body ++ ['\x22'])
  | emptyList (gap : Text) : IsGap gap → Written .value ('[' :: gap ++ [']'])
  | list (items : Text) : Written .items items → Written .value ('[' :: items ++ [']'])
  | emptyObject (gap : Text) : IsGap gap → Written .value ('{' :: gap ++ ['}'])
  | object (members : Text) : Written .members members → Written .value ('{' :: members ++ ['}'])
  | item (front value back : Text) : IsGap front → Written .value value → IsGap back → Written .items (front ++ value ++ back)
  | moreItems (front value back rest : Text) : IsGap front → Written .value value → IsGap back → Written .items rest →
      Written .items (front ++ value ++ back ++ ',' :: rest)
  | member (front name middle colon value back : Text) : IsGap front → StringShape name → IsGap middle → IsGap colon →
      Written .value value → IsGap back →
      Written .members (front ++ '\x22' :: name ++ '\x22' :: middle ++ ':' :: colon ++ value ++ back)
  | moreMembers (front name middle colon value back rest : Text) : IsGap front → StringShape name → IsGap middle →
      IsGap colon → Written .value value → IsGap back → Written .members rest →
      Written .members (front ++ '\x22' :: name ++ '\x22' :: middle ++ ':' :: colon ++ value ++ back ++ ',' :: rest)

section Gaps

variable (gap rest : Text) (spaces : IsGap gap)

include spaces

theorem skip_gap : skipSpace (gap ++ rest) = skipSpace rest :=
  List.dropWhile_append_of_pos fun char member => List.all_eq_true.mp spaces char member

omit spaces in
theorem skip_solid (char : Char) (solid : isSpace char = false) : skipSpace (char :: rest) = char :: rest :=
  List.dropWhile_cons_of_neg (by simp [solid])

theorem skip_to (char : Char) (solid : isSpace char = false) : skipSpace (gap ++ char :: rest) = char :: rest :=
  (skip_gap gap _ spaces).trans (skip_solid rest char solid)

theorem ended_gap (ended : Ended rest) : Ended (gap ++ rest) := by
  cases gap with
  | nil => exact ended
  | cons char others =>
      have space := (Bool.and_eq_true_iff.mp (List.all_cons.symm.trans spaces)).1
      refine ended_cons char (others ++ rest) ?_
      simp only [isSpace, Bool.or_eq_true, beq_iff_eq] at space
      rcases space with ((rfl | rfl) | rfl) | rfl <;> rfl

theorem read_colon : readColon (gap ++ ':' :: rest) = .ok rest := by
  rw [readColon, skip_to gap rest spaces ':' rfl]
  rfl

end Gaps

theorem skip_space_twice (text : Text) : skipSpace (skipSpace text) = skipSpace text := by
  induction text with
  | nil => rfl
  | cons char rest ih =>
      by_cases space : isSpace char = true
      · rwa [show skipSpace (char :: rest) = skipSpace rest from List.dropWhile_cons_of_pos space]
      · have solid : isSpace char = false := by simpa using space
        rw [skip_solid rest char solid, skip_solid rest char solid]

section Steps

variable (fuel : Nat) (text : Text)

theorem skip_value_space : skipValueWith (fuel + 1) (skipSpace text) = skipValueWith (fuel + 1) text := by
  rw [skipValueWith, skip_space_twice, skipValueWith]

theorem skip_items_space : skipItems (fuel + 2) (skipSpace text) = skipItems (fuel + 2) text := by
  rw [skipItems, skip_value_space, skipItems]

theorem skip_members_space : skipMembers (fuel + 1) (skipSpace text) = skipMembers (fuel + 1) text := by
  rw [skipMembers, skip_space_twice, skipMembers]

theorem skip_value_list : skipValueWith (fuel + 1) ('[' :: text) = match skipSpace text with
    | [] => stopOn .endOfList []
    | ']' :: behind => .ok behind
    | other => skipItems fuel other := rfl

theorem skip_value_object : skipValueWith (fuel + 1) ('{' :: text) = match skipSpace text with
    | [] => stopOn .endOfObject []
    | '}' :: behind => .ok behind
    | other => skipMembers fuel other := rfl

theorem skip_value_digit (first : Char) (digit : isDigit first = true) :
    skipValueWith (fuel + 1) (first :: text) = skipNumber (first :: text) := by
  have listed := digit_listed first digit
  simp only [digitChars, List.mem_cons, List.not_mem_nil, or_false] at listed
  rcases listed with rfl | rfl | rfl | rfl | rfl | rfl | rfl | rfl | rfl | rfl <;> rfl

end Steps

-- With fuel for two steps at each character, what is written is passed over up to its end.
def Passed : Phrase → Text → Prop
  | .value, text => ∀ (fuel : Nat) (rest : Text), Ended rest → 2 * text.length ≤ fuel + 1 →
      skipValueWith fuel (text ++ rest) = .ok rest
  | .items, text => ∀ (fuel : Nat) (rest : Text), 2 * text.length ≤ fuel → skipItems fuel (text ++ ']' :: rest) = .ok rest
  | .members, text => ∀ (fuel : Nat) (rest : Text), 2 * text.length ≤ fuel → skipMembers fuel (text ++ '}' :: rest) = .ok rest

section Leaves

theorem word_passed (word : Text) (listed : word ∈ ["null", "true", "false"].map String.toList) : Passed .value word := by
  intro fuel rest _ enough
  simp only [List.map_cons, List.map_nil, List.mem_cons, List.not_mem_nil, or_false] at listed
  cases fuel with
  | zero => rcases listed with rfl | rfl | rfl <;> exact absurd enough (by decide)
  | succ fuel => rcases listed with rfl | rfl | rfl <;> rfl

theorem number_passed (text : Text) (written : NumberText text) : Passed .value text := by
  intro fuel rest ended enough
  obtain ⟨_, _, shape, _⟩ := number_head text written
  cases fuel with
  | zero => exact absurd enough (by rw [shape, List.length_cons]; omega)
  | succ fuel =>
      cases written with
      | number sign whole fraction power signed begun between final =>
          have after := skip_number rest ended whole fraction power begun between final
          simp only [List.mem_cons, List.not_mem_nil, or_false] at signed
          rcases signed with rfl | rfl
          · obtain ⟨digit, behind, rfl, isDigit⟩ := whole_head whole begun
            simp only [List.nil_append, List.append_assoc, List.cons_append] at after ⊢
            rw [skip_value_digit fuel _ digit isDigit, after]
          · simp only [List.nil_append, List.append_assoc, List.cons_append] at after ⊢
            exact after

theorem string_passed (body : Text) (shape : StringShape body) : Passed .value ('\x22' :: body ++ ['\x22']) := by
  intro fuel rest _ enough
  cases fuel with
  | zero => exact absurd enough (by simp; omega)
  | succ fuel =>
      rw [List.cons_append, List.cons_append, List.append_assoc]
      exact skip_string body rest shape

end Leaves

-- A written value begins with neither a space nor the end of a list.
theorem value_head (value : Text) (written : Written .value value) :
    ∃ first rest, value = first :: rest ∧ isSpace first = false ∧ first ≠ ']' := by
  cases written with
  | word word listed =>
      simp only [List.map_cons, List.map_nil, List.mem_cons, List.not_mem_nil, or_false] at listed
      rcases listed with rfl | rfl | rfl <;> exact ⟨_, _, rfl, by decide⟩
  | number value numeral =>
      obtain ⟨first, rest, rfl, minus | digit⟩ := number_head value numeral
      · exact ⟨first, rest, rfl, by rw [minus]; decide⟩
      · have table : (digitChars.all fun char => !isSpace char && char != ']') = true := by decide
        have shown := List.all_eq_true.mp table first (digit_listed first digit)
        exact ⟨first, rest, rfl, by simpa using shown⟩
  | string body shape => exact ⟨_, _, rfl, by decide⟩
  | emptyList gap spaces => exact ⟨_, _, rfl, by decide⟩
  | list items inner => exact ⟨_, _, rfl, by decide⟩
  | emptyObject gap spaces => exact ⟨_, _, rfl, by decide⟩
  | object members inner => exact ⟨_, _, rfl, by decide⟩

theorem items_head (items rest : Text) (written : Written .items items) :
    ∃ first others, skipSpace (items ++ rest) = first :: others ∧ first ≠ ']' := by
  obtain ⟨front, value, back, rfl, spaces, inner⟩ : ∃ front value back, items = front ++ value ++ back ∧ IsGap front ∧
      Written .value value := by
    cases written with
    | item front value back spaces inner _ => exact ⟨front, value, back, rfl, spaces, inner⟩
    | moreItems front value back others spaces inner _ _ => exact ⟨front, value, _, List.append_assoc _ _ _, spaces, inner⟩
  obtain ⟨first, others, rfl, solid, other⟩ := value_head value inner
  refine ⟨first, others ++ (back ++ rest), ?_, other⟩
  rw [List.append_assoc, List.append_assoc]
  exact skip_to front _ spaces first solid

theorem members_head (members rest : Text) (written : Written .members members) :
    ∃ others, skipSpace (members ++ rest) = '\x22' :: others := by
  obtain ⟨front, others, rfl, spaces⟩ : ∃ front others, members = front ++ '\x22' :: others ∧ IsGap front := by
    cases written with
    | member front name middle colon value back spaces _ _ _ _ _ => exact ⟨front, _, by simp; rfl, spaces⟩
    | moreMembers front name middle colon value back others spaces _ _ _ _ _ _ => exact ⟨front, _, by simp; rfl, spaces⟩
  refine ⟨others ++ rest, ?_⟩
  rw [List.append_assoc]
  exact skip_to front _ spaces '\x22' rfl

section Nested

variable (fuel : Nat) (rest : Text)

theorem empty_list_passed (gap : Text) (spaces : IsGap gap) :
    skipValueWith (fuel + 1) ('[' :: (gap ++ ']' :: rest)) = .ok rest := by
  rw [skip_value_list, skip_to gap rest spaces ']' rfl]
  rfl

theorem empty_object_passed (gap : Text) (spaces : IsGap gap) :
    skipValueWith (fuel + 1) ('{' :: (gap ++ '}' :: rest)) = .ok rest := by
  rw [skip_value_object, skip_to gap rest spaces '}' rfl]
  rfl

theorem list_passed (items : Text) (written : Written .items items) (passed : Passed .items items)
    (enough : 2 * items.length ≤ fuel + 2) : skipValueWith (fuel + 3) ('[' :: (items ++ ']' :: rest)) = .ok rest := by
  obtain ⟨first, others, head, other⟩ := items_head items (']' :: rest) written
  have entered : skipItems (fuel + 2) (first :: others) = .ok rest := by
    rw [← head, skip_items_space]
    exact passed (fuel + 2) rest enough
  rw [skip_value_list, head]
  simpa [other] using entered

theorem object_passed (members : Text) (written : Written .members members) (passed : Passed .members members)
    (enough : 2 * members.length ≤ fuel + 1) : skipValueWith (fuel + 2) ('{' :: (members ++ '}' :: rest)) = .ok rest := by
  obtain ⟨others, head⟩ := members_head members ('}' :: rest) written
  have entered : skipMembers (fuel + 1) ('\x22' :: others) = .ok rest := by
    rw [← head, skip_members_space]
    exact passed (fuel + 1) rest enough
  rw [skip_value_object, head]
  exact entered

section Between

variable (front value back behind : Text) (spaces : IsGap front) (gap : IsGap back) (passed : Passed .value value)
  (enough : 2 * value.length ≤ fuel + 2)

include spaces gap passed enough

-- A value between gaps is passed over up to the character that ends it.
theorem within_gaps (closing : Char) (other : extendsNumber closing = false) (solid : isSpace closing = false) : ∃ rest,
    skipValueWith (fuel + 1) (front ++ (value ++ (back ++ closing :: behind))) = .ok rest ∧
      skipSpace rest = closing :: behind := by
  refine ⟨back ++ closing :: behind, ?_, skip_to back behind gap closing solid⟩
  rw [← skip_value_space, skip_gap front _ spaces, skip_value_space]
  exact passed (fuel + 1) _ (ended_gap back _ gap (ended_cons closing behind other)) enough

theorem last_item_passed : skipItems (fuel + 2) (front ++ (value ++ (back ++ ']' :: behind))) = .ok behind := by
  obtain ⟨rest, skipped, after⟩ := within_gaps fuel front value back behind spaces gap passed enough ']' rfl rfl
  rw [skipItems, skipped]
  simp only [after]

theorem item_passed : skipItems (fuel + 2) (front ++ (value ++ (back ++ ',' :: behind))) = skipItems (fuel + 1) behind := by
  obtain ⟨rest, skipped, after⟩ := within_gaps fuel front value back behind spaces gap passed enough ',' rfl rfl
  rw [skipItems, skipped]
  simp only [after]

section Named

variable (name middle lead : Text) (before : IsGap lead) (shape : StringShape name) (second : IsGap middle)

include before shape second

theorem last_member_passed : skipMembers (fuel + 2) (lead ++ '\x22' :: (name ++ '\x22' :: (middle ++ ':' ::
    (front ++ (value ++ (back ++ '}' :: behind)))))) = .ok behind := by
  obtain ⟨rest, skipped, after⟩ := within_gaps fuel front value back behind spaces gap passed enough '}' rfl rfl
  rw [skipMembers, skip_to lead _ before '\x22' rfl]
  simp only [skip_string name _ shape, Except.bind, read_colon middle _ second, skipped, after]

theorem member_passed : skipMembers (fuel + 2) (lead ++ '\x22' :: (name ++ '\x22' :: (middle ++ ':' ::
    (front ++ (value ++ (back ++ ',' :: behind)))))) = skipMembers (fuel + 1) behind := by
  obtain ⟨rest, skipped, after⟩ := within_gaps fuel front value back behind spaces gap passed enough ',' rfl rfl
  rw [skipMembers, skip_to lead _ before '\x22' rfl]
  simp only [skip_string name _ shape, Except.bind, read_colon middle _ second, skipped, after]

end Named

end Between

end Nested

theorem passed_written (phrase : Phrase) (text : Text) (written : Written phrase text) : Passed phrase text := by
  induction written with
  | word word listed => exact word_passed word listed
  | number text numeral => exact number_passed text numeral
  | string body shape => exact string_passed body shape
  | emptyList gap spaces =>
      intro fuel rest _ enough
      obtain ⟨fuel, rfl⟩ : ∃ less, fuel = less + 1 := ⟨fuel - 1, by simp at enough; omega⟩
      simpa using empty_list_passed fuel rest gap spaces
  | list items inner ih =>
      intro fuel rest _ enough
      simp only [List.length_append, List.length_cons, List.length_nil] at enough
      obtain ⟨fuel, rfl⟩ : ∃ less, fuel = less + 3 := ⟨fuel - 3, by omega⟩
      simpa using list_passed fuel rest items inner ih (by omega)
  | emptyObject gap spaces =>
      intro fuel rest _ enough
      obtain ⟨fuel, rfl⟩ : ∃ less, fuel = less + 1 := ⟨fuel - 1, by simp at enough; omega⟩
      simpa using empty_object_passed fuel rest gap spaces
  | object members inner ih =>
      intro fuel rest _ enough
      simp only [List.length_append, List.length_cons, List.length_nil] at enough
      obtain ⟨fuel, rfl⟩ : ∃ less, fuel = less + 2 := ⟨fuel - 2, by omega⟩
      simpa using object_passed fuel rest members inner ih (by omega)
  | item front value back spaces inner gap ih =>
      intro fuel rest enough
      obtain ⟨_, _, shape, _⟩ := value_head value inner
      have size : 0 < value.length := by rw [shape, List.length_cons]; omega
      simp only [List.length_append] at enough
      obtain ⟨fuel, rfl⟩ : ∃ less, fuel = less + 2 := ⟨fuel - 2, by omega⟩
      simpa using last_item_passed fuel front value back rest spaces gap ih (by omega)
  | moreItems front value back others spaces inner gap more ih later =>
      intro fuel rest enough
      obtain ⟨_, _, shape, _⟩ := value_head value inner
      have size : 0 < value.length := by rw [shape, List.length_cons]; omega
      simp only [List.length_append, List.length_cons] at enough
      obtain ⟨fuel, rfl⟩ : ∃ less, fuel = less + 2 := ⟨fuel - 2, by omega⟩
      have past := item_passed fuel front value back (others ++ ']' :: rest) spaces gap ih (by omega)
      rw [later (fuel + 1) rest (by omega)] at past
      simpa using past
  | member front name middle colon value back spaces shape first second inner gap ih =>
      intro fuel rest enough
      simp only [List.length_append, List.length_cons] at enough
      obtain ⟨fuel, rfl⟩ : ∃ less, fuel = less + 2 := ⟨fuel - 2, by omega⟩
      simpa using last_member_passed fuel colon value back rest second gap ih (by omega) name middle front spaces shape first
  | moreMembers front name middle colon value back others spaces shape first second inner gap more ih later =>
      intro fuel rest enough
      simp only [List.length_append, List.length_cons] at enough
      obtain ⟨fuel, rfl⟩ : ∃ less, fuel = less + 2 := ⟨fuel - 2, by omega⟩
      have past := member_passed fuel colon value back (others ++ '}' :: rest) second gap ih (by omega) name middle front
        spaces shape first
      rw [later (fuel + 1) rest (by omega)] at past
      simpa using past

theorem skip_value (gap text rest : Text) (spaces : IsGap gap) (written : Written .value text) (ended : Ended rest) :
    skipValue (gap ++ (text ++ rest)) = .ok rest := by
  rw [skipValue, ← skip_value_space, skip_gap gap _ spaces, skip_value_space]
  refine passed_written .value text written _ rest ended ?_
  simp only [List.length_append]
  omega

end ScriptTidy.Json
