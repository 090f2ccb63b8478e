import ScriptTidy.Options.Reader
import ScriptTidy.Proofs.Json.Values

/-! The written forms of options: objects with the two sets, and other members around them, in any order. -/

set_option autoImplicit false

namespace ScriptTidy.Options

open Json

-- The names of a list between its brackets.
inductive NamesInside : List Text → Text → Prop where
  | last (front body name back : Text) : IsGap front → StringText body name → IsGap back →
      NamesInside [name] (front ++ '\x22' :: body ++ '\x22' :: back)
  | more (front body name back rest : Text) (names : List Text) : IsGap front → StringText body name → IsGap back →
      NamesInside names rest → NamesInside (name :: names) (front ++ '\x22' :: body ++ '\x22' :: back ++ ',' :: rest)

inductive NamesText : List Text → Text → Prop where
  | empty (gap : Text) : IsGap gap → NamesText [] ('[' :: gap ++ [']'])
  | list (names : List Text) (inside : Text) : NamesInside names inside → NamesText names ('[' :: inside ++ [']'])

inductive Member where
  | exempt (names : List Text)
  | console (names : List Text)
  | unknown

namespace Member

def exempt? : Member → Option (List Text)
  | .exempt names => some names
  | _ => none

def console? : Member → Option (List Text)
  | .console names => some names
  | _ => none

-- The name and the value by which a member is given.
inductive IsGiven : Member → Text → Text → Prop where
  | exempt (names : List Text) (value : Text) : NamesText names value → IsGiven (.exempt names) "exempt_names".toList value
  | console (names : List Text) (value : Text) : NamesText names value → IsGiven (.console names) "console_methods".toList value
  | unknown (name value : Text) : name ≠ "exempt_names".toList → name ≠ "console_methods".toList → Written .value value →
      IsGiven .unknown name value

end Member

inductive MembersInside : List Member → Text → Prop where
  | last (front body name middle colon value back : Text) (member : Member) : IsGap front → StringText body name →
      IsGap middle → IsGap colon → member.IsGiven name value → IsGap back →
      MembersInside [member] (front ++ '\x22' :: body ++ '\x22' :: middle ++ ':' :: colon ++ value ++ back)
  | more (front body name middle colon value back rest : Text) (member : Member) (members : List Member) : IsGap front →
      StringText body name → IsGap middle → IsGap colon → member.IsGiven name value → IsGap back → MembersInside members rest →
      MembersInside (member :: members)
        (front ++ '\x22' :: body ++ '\x22' :: middle ++ ':' :: colon ++ value ++ back ++ ',' :: rest)

inductive ObjectText : List Member → Text → Prop where
  | empty (gap : Text) : IsGap gap → ObjectText [] ('{' :: gap ++ ['}'])
  | object (members : List Member) (inside : Text) : MembersInside members inside → ObjectText members ('{' :: inside ++ ['}'])

-- An object alone in its text.
inductive WholeObject : List Member → Text → Prop where
  | within (front object back : Text) (members : List Member) : IsGap front → ObjectText members object → IsGap back →
      WholeObject members (front ++ object ++ back)

section Names

variable (front body name back rest : Text) (spaces : IsGap front) (written : StringText body name) (gap : IsGap back)

theorem read_name_space (text : Text) : readName (skipSpace text) = readName text := by
  rw [readName, skip_space_twice, readName]

include spaces written

theorem read_name : readName (front ++ '\x22' :: (body ++ '\x22' :: rest)) = .ok (name, rest) := by
  rw [readName, skip_to front _ spaces '\x22' rfl]
  exact read_string rest body name written

include gap

theorem read_last_name (fuel : Nat) (found : NameSet) : readNamesWith (fuel + 1) found
    (skipSpace (front ++ '\x22' :: (body ++ '\x22' :: (back ++ ']' :: rest)))) = .ok (found.insert name, rest) := by
  rw [readNamesWith, read_name_space, read_name front body name _ spaces written]
  simp only [skip_to back rest gap ']' rfl]

theorem read_more_names (fuel : Nat) (found : NameSet) (next : Char) (others : Text) (head : skipSpace rest = next :: others)
    (other : next ≠ ']') : readNamesWith (fuel + 1) found
      (skipSpace (front ++ '\x22' :: (body ++ '\x22' :: (back ++ ',' :: rest)))) =
        readNamesWith fuel (found.insert name) (next :: others) := by
  rw [readNamesWith, read_name_space, read_name front body name _ spaces written]
  simp [skip_to back rest gap ',' rfl, head, other]

end Names

theorem names_head (names : List Text) (inside : Text) (listed : NamesInside names inside) : ∃ front others,
    inside = front ++ '\x22' :: others ∧ IsGap front ∧ names.length ≤ others.length + 1 := by
  induction listed with
  | last front body name back spaces _ _ => exact ⟨front, body ++ '\x22' :: back, by simp, spaces, by simp⟩
  | more front body name back rest names spaces _ _ _ ih =>
      obtain ⟨_, _, rfl, _, size⟩ := ih
      refine ⟨front, body ++ '\x22' :: (back ++ ',' :: _), by simp; rfl, spaces, ?_⟩
      simp only [List.length_append, List.length_cons]
      omega

theorem read_names_inside (names : List Text) (inside rest : Text) (listed : NamesInside names inside) :
    ∀ (fuel : Nat) (found : NameSet), names.length ≤ fuel →
      readNamesWith fuel found (skipSpace (inside ++ ']' :: rest)) = .ok (found.insertAll names, rest) := by
  induction listed with
  | last front body name back spaces written gap =>
      intro fuel found enough
      obtain ⟨fuel, rfl⟩ : ∃ less, fuel = less + 1 := ⟨fuel - 1, by simp at enough; omega⟩
      simpa [NameSet.insertAll] using read_last_name front body name back rest spaces written gap fuel found
  | more front body name back later names spaces written gap others ih =>
      intro fuel found enough
      obtain ⟨fuel, rfl⟩ : ∃ less, fuel = less + 1 := ⟨fuel - 1, by simp at enough; omega⟩
      obtain ⟨lead, tail, rfl, indent, _⟩ := names_head names later others
      have head := skip_to lead (tail ++ ']' :: rest) indent '\x22' rfl
      have first := read_more_names front body name back ((lead ++ '\x22' :: tail) ++ ']' :: rest) spaces written gap fuel
        found '\x22' (tail ++ ']' :: rest) (by simpa using head) (by decide)
      have next := ih fuel (found.insert name) (by simpa using enough)
      simp only [List.append_assoc, List.cons_append] at first next head ⊢
      rw [first, ← head, next]
      rfl

theorem read_names (names : List Text) (value rest : Text) (listed : NamesText names value) (gap : Text) (spaces : IsGap gap) :
    readNames (gap ++ (value ++ rest)) = .ok (.ofList names, rest) := by
  cases listed with
  | empty inner blank =>
      rw [readNames, List.cons_append, List.cons_append, List.append_assoc, skip_to gap _ spaces '[' rfl]
      simp only [List.cons_append, List.nil_append, skip_to inner rest blank ']' rfl]
      rfl
  | list names inside inner =>
      obtain ⟨lead, others, rfl, indent, size⟩ := names_head names inside inner
      have head := skip_to lead (others ++ ']' :: rest) indent '\x22' rfl
      have found := read_names_inside names _ rest inner ('\x22' :: (others ++ ']' :: rest)).length .empty (by
        simp only [List.length_append, List.length_cons]
        omega)
      simp only [List.append_assoc, List.cons_append, List.nil_append] at found head ⊢
      rw [readNames, skip_to gap _ spaces '[' rfl]
      simp only [head] at found ⊢
      exact found

namespace Given

-- The options after one more member.
def record (given : Given) : Member → Given
  | .exempt names => { given with exempt := some (.ofList names) }
  | .console names => { given with console := some (.ofList names) }
  | .unknown => given

end Given

-- The sets that a member brings are not given already.
def Fresh (given : Given) (member : Member) : Prop :=
  (∀ names, member = .exempt names → given.exempt = none) ∧ ∀ names, member = .console names → given.console = none

theorem read_member (given : Given) (member : Member) (name middle colon value rest : Text) (found : member.IsGiven name value)
    (first : IsGap middle) (second : IsGap colon) (ended : Ended rest) (fresh : Fresh given member) :
    readMember given name (middle ++ ':' :: (colon ++ (value ++ rest))) = .ok (given.record member, rest) := by
  have colonRead := read_colon middle (colon ++ (value ++ rest)) first
  unfold readMember
  cases found with
  | exempt names value listed =>
      have namesRead := read_names names value rest listed colon second
      simp [exemptField, fresh.1 names rfl, colonRead, namesRead, bind, Except.bind, pure, Except.pure, Given.record]
  | console names value listed =>
      have namesRead := read_names names value rest listed colon second
      simp [exemptField, consoleField, fresh.2 names rfl, colonRead, namesRead, bind, Except.bind, pure, Except.pure, Given.record]
  | unknown name value notExempt notConsole written =>
      have passed := skip_value colon value rest second written ended
      rw [if_neg (show name ≠ exemptField.toList from notExempt), if_neg (show name ≠ consoleField.toList from notConsole)]
      simp [colonRead, passed, bind, Except.bind, pure, Except.pure, Given.record]

section Members

variable (front body name middle colon value back rest : Text) (member : Member) (spaces : IsGap front)
  (written : StringText body name) (first : IsGap middle) (second : IsGap colon) (found : member.IsGiven name value)
  (gap : IsGap back) (given : Given) (fresh : Fresh given member) (fuel : Nat)

include spaces written first second found gap fresh

theorem read_last_member : readMembersWith (fuel + 1) given (skipSpace (front ++ '\x22' :: (body ++ '\x22' ::
    (middle ++ ':' :: (colon ++ (value ++ (back ++ '}' :: rest))))))) = .ok (given.record member, rest) := by
  have ended := ended_gap back ('}' :: rest) gap (ended_cons '}' rest rfl)
  rw [skip_to front _ spaces '\x22' rfl, readMembersWith]
  simp only [read_string _ body name written, read_member given member name middle colon value _ found first second ended fresh,
    skip_to back rest gap '}' rfl]

theorem read_more_members (others : Text) (head : skipSpace rest = '\x22' :: others) :
    readMembersWith (fuel + 1) given (skipSpace (front ++ '\x22' :: (body ++ '\x22' ::
      (middle ++ ':' :: (colon ++ (value ++ (back ++ ',' :: rest))))))) =
        readMembersWith fuel (given.record member) ('\x22' :: others) := by
  have ended := ended_gap back (',' :: rest) gap (ended_cons ',' rest rfl)
  rw [skip_to front _ spaces '\x22' rfl, readMembersWith]
  simp only [read_string _ body name written, read_member given member name middle colon value _ found first second ended fresh,
    skip_to back rest gap ',' rfl, head]
  rfl

end Members

theorem inside_head (members : List Member) (inside : Text) (listed : MembersInside members inside) : ∃ front others,
    inside = front ++ '\x22' :: others ∧ IsGap front ∧ members.length ≤ others.length + 1 := by
  induction listed with
  | last front body name middle colon value back member spaces _ _ _ _ _ => exact ⟨front, _, by simp; rfl, spaces, by simp⟩
  | more front body name middle colon value back rest member members spaces _ _ _ _ _ _ ih =>
      obtain ⟨_, _, rfl, _, size⟩ := ih
      refine ⟨front, body ++ '\x22' :: (middle ++ ':' :: (colon ++ (value ++ (back ++ ',' :: _)))), by simp; rfl, spaces, ?_⟩
      simp only [List.length_append, List.length_cons]
      omega

-- No set is given twice, neither by the members nor by them and what was read before.
def AllFresh (given : Given) : List Member → Prop
  | [] => True
  | member :: members => Fresh given member ∧ AllFresh (given.record member) members

theorem read_members_inside (members : List Member) (inside rest : Text) (listed : MembersInside members inside) :
    ∀ (fuel : Nat) (given : Given), AllFresh given members → members.length ≤ fuel →
      readMembersWith fuel given (skipSpace (inside ++ '}' :: rest)) = .ok (members.foldl Given.record given, rest) := by
  induction listed with
  | last front body name middle colon value back member spaces written first second found gap =>
      intro fuel given fresh enough
      obtain ⟨fuel, rfl⟩ : ∃ less, fuel = less + 1 := ⟨fuel - 1, by simp at enough; omega⟩
      simpa using read_last_member front body name middle colon value back rest member spaces written first second found gap
        given fresh.1 fuel
  | more front body name middle colon value back later member members spaces written first second found gap others ih =>
      intro fuel given fresh enough
      obtain ⟨fuel, rfl⟩ : ∃ less, fuel = less + 1 := ⟨fuel - 1, by simp at enough; omega⟩
      obtain ⟨lead, tail, rfl, indent, _⟩ := inside_head members later others
      have head := skip_to lead (tail ++ '}' :: rest) indent '\x22' rfl
      have past := read_more_members front body name middle colon value back ((lead ++ '\x22' :: tail) ++ '}' :: rest) member
        spaces written first second found gap given fresh.1 fuel (tail ++ '}' :: rest) (by simpa using head)
      have next := ih fuel (given.record member) fresh.2 (by simpa using enough)
      simp only [List.append_assoc, List.cons_append] at past next head ⊢
      rw [past, ← head, next]
      rfl

theorem read_object (members : List Member) (object rest : Text) (written : ObjectText members object)
    (fresh : AllFresh .none members) :
    ∃ inside, object = '{' :: inside ∧ readObject (inside ++ rest) = .ok (members.foldl Given.record .none, rest) := by
  cases written with
  | empty gap spaces =>
      refine ⟨gap ++ ['}'], rfl, ?_⟩
      rw [readObject, List.append_assoc, List.cons_append, List.nil_append, skip_to gap rest spaces '}' rfl]
      rfl
  | object members inside listed =>
      obtain ⟨lead, others, rfl, indent, size⟩ := inside_head members inside listed
      have head := skip_to lead (others ++ '}' :: rest) indent '\x22' rfl
      have found := read_members_inside members _ rest listed ('\x22' :: (others ++ '}' :: rest)).length .none fresh (by
        simp only [List.length_append, List.length_cons]
        omega)
      refine ⟨lead ++ '\x22' :: others ++ ['}'], rfl, ?_⟩
      simp only [List.append_assoc, List.cons_append, List.nil_append] at found head ⊢
      rw [readObject]
      simp only [head] at found ⊢
      exact found

theorem read_whole (members : List Member) (text : Text) (written : WholeObject members text) (fresh : AllFresh .none members) :
    read text = .ok (members.foldl Given.record .none).complete := by
  cases written with
  | within front object back members spaces inner gap =>
      obtain ⟨inside, rfl, found⟩ := read_object members object back inner fresh
      have blank := skip_gap back [] gap
      rw [List.append_nil, show skipSpace [] = [] from rfl] at blank
      rw [read, List.append_assoc, List.cons_append, skip_to front _ spaces '{' rfl]
      simp [found, blank, bind, Except.bind, pure, Except.pure]

end ScriptTidy.Options
