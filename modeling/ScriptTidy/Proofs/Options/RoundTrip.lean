import ScriptTidy.Proofs.Options.Members

/-! Options that are written are read again, and an object gives the sets that it lists. -/

set_option autoImplicit false

namespace ScriptTidy

namespace NameSet

theorem contains_of_list (names : List Text) (name : Text) : (ofList names).contains name = names.contains name := by
  rw [ofList, contains_insert_all]
  simp [contains, empty]

theorem insert_name_last (name : Text) (names : List Text) (less : ∀ old ∈ names, old < name) :
    insertName name names = names ++ [name] := by
  induction names with
  | nil => rfl
  | cons first rest ih =>
      have before := less first List.mem_cons_self
      have notLess : ¬ name < first := fun after => List.lt_irrefl _ (List.lt_trans after before)
      have other : name ≠ first := fun same => List.lt_irrefl _ (same ▸ before)
      rw [insertName, if_neg notLess, if_neg other, ih fun old member => less old (List.mem_cons_of_mem first member)]
      rfl

theorem insert_all_ascending (names : List Text) : ∀ set : NameSet, names.Pairwise (· < ·) →
    (∀ old ∈ set.names, ∀ name ∈ names, old < name) → (set.insertAll names).names = set.names ++ names := by
  induction names with
  | nil => exact fun set _ _ => (List.append_nil set.names).symm
  | cons name rest ih =>
      intro set ascending less
      have bounds := List.pairwise_cons.mp ascending
      have added : (set.insert name).names = set.names ++ [name] :=
        insert_name_last name set.names fun old member => less old member name List.mem_cons_self
      have later := ih (set.insert name) bounds.2 fun old member next inside => by
        rw [added, List.mem_append, List.mem_singleton] at member
        rcases member with old_one | rfl
        · exact less old old_one next (List.mem_cons_of_mem name inside)
        · exact bounds.1 next inside
      rw [insertAll, List.foldl_cons]
      rw [insertAll, added, List.append_assoc] at later
      exact later

theorem of_list_names (set : NameSet) : ofList set.names = set := by
  have same : (ofList set.names).names = set.names :=
    insert_all_ascending set.names .empty set.ascending fun _ member => absurd member List.not_mem_nil
  obtain ⟨names, ascending⟩ := set
  simp only at same
  generalize ofList names = other at same
  obtain ⟨otherNames, otherAscending⟩ := other
  subst same
  rfl

end NameSet

namespace Options

open Json

theorem one_listed {α : Type} (first : α) (rest : List α) (given : Option α) (shape : first :: rest = given.toList) :
    given = some first ∧ rest = [] := by
  cases given with
  | none => cases shape
  | some only =>
      obtain ⟨rfl, rfl⟩ := List.cons.inj shape
      exact ⟨rfl, rfl⟩

-- Members that bring each set at most once bring what they list.
theorem members_recorded (members : List Member) : ∀ (given : Given) (exempt console : Option (List Text)),
    members.filterMap Member.exempt? = exempt.toList → members.filterMap Member.console? = console.toList →
    (exempt ≠ none → given.exempt = none) → (console ≠ none → given.console = none) →
    AllFresh given members ∧
      members.foldl Given.record given = ⟨(exempt.map .ofList).or given.exempt, (console.map .ofList).or given.console⟩ := by
  induction members with
  | nil =>
      intro given exempt console first second _ _
      cases exempt with
      | some names => cases first
      | none =>
          cases console with
          | some names => cases second
          | none => exact ⟨trivial, rfl⟩
  | cons member rest ih =>
      intro given exempt console first second freshExempt freshConsole
      cases member with
      | exempt names =>
          obtain ⟨rfl, none⟩ := one_listed names _ exempt first
          have before := freshExempt (by simp)
          have later := ih (given.record (.exempt names)) .none console none second (by simp) freshConsole
          exact ⟨⟨⟨fun _ _ => before, nofun⟩, later.1⟩, later.2⟩
      | console names =>
          obtain ⟨rfl, none⟩ := one_listed names _ console second
          have before := freshConsole (by simp)
          have later := ih (given.record (.console names)) exempt .none first none freshExempt (by simp)
          exact ⟨⟨⟨nofun, fun _ _ => before⟩, later.1⟩, later.2⟩
      | unknown =>
          have later := ih given exempt console first second freshExempt freshConsole
          exact ⟨⟨⟨nofun, nofun⟩, later.1⟩, later.2⟩

theorem read_listed (members : List Member) (text : Text) (written : WholeObject members text)
    (exempt console : Option (List Text)) (first : members.filterMap Member.exempt? = exempt.toList)
    (second : members.filterMap Member.console? = console.toList) :
    read text = .ok ⟨.ofList (exempt.getD ["React".toList]), .ofList (console.getD ["log".toList])⟩ := by
  obtain ⟨fresh, recorded⟩ := members_recorded members .none exempt console first second (fun _ => rfl) fun _ => rfl
  rw [read_whole members text written fresh, recorded]
  cases exempt <;> cases console <;> rfl

-- The texts of the names with commas between them.
theorem written_names (name : Text) (names : List Text) :
    NamesInside (name :: names) (List.intersperse [','] ((name :: names).map encode)).flatten := by
  induction names generalizing name with
  | nil => simpa [encode] using NamesInside.last [] _ name [] rfl (encoded_text name) rfl
  | cons next rest ih =>
      have more := NamesInside.more [] _ name [] _ (next :: rest) rfl (encoded_text name) rfl (ih next)
      simpa [encode] using more

theorem write_names (set : NameSet) : NamesText set.names (writeNames set) := by
  rw [writeNames]
  cases set.names with
  | nil => exact .empty [] rfl
  | cons name rest => exact .list _ _ (written_names name rest)

theorem write_whole (options : Options) :
    WholeObject [.exempt options.exemptNames.names, .console options.consoleMethods.names] options.write := by
  have console := MembersInside.last [] _ _ [] [] _ [] (.console options.consoleMethods.names) rfl
    (encoded_text consoleField.toList) rfl rfl (.console _ _ (write_names options.consoleMethods)) rfl
  have both := MembersInside.more [] _ _ [] [] _ [] _ (.exempt options.exemptNames.names) _ rfl
    (encoded_text exemptField.toList) rfl rfl (.exempt _ _ (write_names options.exemptNames)) rfl console
  have whole := WholeObject.within [] _ [] _ rfl (.object _ _ both) rfl
  simpa [write, encode] using whole

theorem options_survive : (∀ options : Options, read options.write = .ok options) ∧
    (∀ (members : List Member) (text : Text) (exempt console : Option (List Text)), WholeObject members text →
      members.filterMap Member.exempt? = exempt.toList → members.filterMap Member.console? = console.toList →
      read text = .ok ⟨.ofList (exempt.getD ["React".toList]), .ofList (console.getD ["log".toList])⟩) ∧
    ∀ (names : List Text) (name : Text), (NameSet.ofList names).contains name = true ↔ name ∈ names := by
  refine ⟨fun options => ?_, fun members text exempt console written first second =>
    read_listed members text written exempt console first second, fun names name => ?_⟩
  · have written := read_listed _ _ (write_whole options) (some options.exemptNames.names)
      (some options.consoleMethods.names) rfl rfl
    rwa [Option.getD_some, Option.getD_some, NameSet.of_list_names, NameSet.of_list_names] at written
  · rw [NameSet.contains_of_list, List.contains_iff_mem]

-- An unknown member in front, with half of a pair in a string, and a list with escapes and a name that comes twice.
def sampleText : Text :=
  " \x7b\x22x\x22: [-1.5e3, \x7b\x7d, \x22\\ud800\x22] ,\n\x22console_methods\x22:[\x22\\u006cog\x22, \x22\\uD83D\\ude00\x22,\x22log\x22]\x7d\n".toList

def sampleMembers : List Member := [.unknown, .console ["log".toList, "😀".toList, "log".toList]]

theorem sample_text_whole : WholeObject sampleMembers sampleText := by
  have number := Written.number _ (.number ['-'] ['1'] ['.', '5'] ['e', '3'] (by decide)
    (.digits '1' [] (by decide) ⟨by decide, rfl⟩) (.some ['5'] ⟨by decide, rfl⟩) (.some 'e' [] ['3'] (by decide) (by decide)
      ⟨by decide, rfl⟩))
  have half := UnitText.digits 'd' '8' '0' '0' 13 8 0 0 (by decide) (by decide) (by decide) (by decide)
  have list := Written.list _ (.moreItems [] _ [] _ rfl number rfl (.moreItems [' '] _ [] _ rfl (.emptyObject [] rfl) rfl
    (.item [' '] _ [] rfl (.string _ (.unit _ _ [] half .nil)) rfl)))
  have letter := CharText.one 'l' 0x6c _ (by decide) (.digits '0' '0' '6' 'c' 0 0 6 12 (by decide) (by decide) (by decide) (by decide))
  have smile := CharText.two '😀' 0xD83D 0xDE00 _ _ (by decide) (.digits 'D' '8' '3' 'D' 13 8 3 13 (by decide) (by decide)
    (by decide) (by decide)) (.digits 'd' 'e' '0' '0' 13 14 0 0 (by decide) (by decide) (by decide) (by decide))
  have names := NamesText.list _ _ (.more [] _ _ [] _ _ rfl (.cons 'l' _ _ _ letter (encoded_text "og".toList)) rfl
    (.more [' '] _ _ [] _ _ rfl (.cons '😀' _ _ _ smile .nil) rfl (.last [] _ _ [] rfl (encoded_text "log".toList) rfl)))
  have console := MembersInside.last ['\n'] _ _ [] [] _ [] _ rfl (encoded_text consoleField.toList) rfl rfl (.console _ _ names) rfl
  have both := MembersInside.more [] _ _ [] [' '] _ [' '] _ .unknown _ rfl (encoded_text "x".toList) rfl rfl
    (.unknown _ _ (by decide) (by decide) list) rfl console
  exact .within [' '] _ ['\n'] _ rfl (.object _ _ both) rfl

theorem sample_text_read : WholeObject sampleMembers sampleText ∧
    read sampleText = .ok ⟨.ofList ["React".toList], .ofList ["log".toList, "😀".toList, "log".toList]⟩ :=
  ⟨sample_text_whole, options_survive.2.1 sampleMembers sampleText none (some ["log".toList, "😀".toList, "log".toList])
    sample_text_whole rfl rfl⟩

end Options

end ScriptTidy
