import ScriptTidy.Files.Collect

/-! What stands at each location, and how giving a file another content changes it. -/

set_option autoImplicit false

namespace ScriptTidy

namespace Content

/-- The content with its text changed; bytes that are no text are kept. -/
def mapText (change : Text → Text) : Content → Content
  | .text held => .text (change held)
  | .binary bytes => .binary bytes

end Content

inductive Standing where
  | nothing
  | folder
  | file (content : Content)
deriving DecidableEq, Repr

namespace Standing

def ofEntry : Option Entry → Standing
  | none => .nothing
  | some (.folder _) => .folder
  | some (.file content) => .file content

def mapText (change : Text → Text) : Standing → Standing
  | .nothing => .nothing
  | .folder => .folder
  | .file content => .file (content.mapText change)

/-- The text that reading gives. -/
def text : Standing → Except FileFault Text
  | .nothing => .error .notFound
  | .folder => .error .isFolder
  | .file (.text held) => .ok held
  | .file (.binary _) => .error .notText

theorem mapText_id (standing : Standing) : standing.mapText id = standing := by
  cases standing with
  | nothing => rfl
  | folder => rfl
  | file content => cases content <;> rfl

theorem text_mapText (standing : Standing) (change : Text → Text) :
    (standing.mapText change).text = standing.text.map change := by
  cases standing with
  | nothing => rfl
  | folder => rfl
  | file content => cases content <;> rfl

theorem mapText_mapText (standing : Standing) (first second : Text → Text) :
    (standing.mapText first).mapText second = standing.mapText fun text => second (first text) := by
  cases standing with
  | nothing => rfl
  | folder => rfl
  | file content => cases content <;> rfl

-- Where there is no text to read, nothing can change.
theorem mapText_unread {standing : Standing} {fault : FileFault} (unread : standing.text = .error fault)
    (change : Text → Text) : standing.mapText change = standing := by
  cases standing with
  | nothing => rfl
  | folder => rfl
  | file content =>
      cases content with
      | text text => nomatch unread
      | binary bytes => rfl

theorem file_of_text {standing : Standing} {text : Text} (read : standing.text = .ok text) :
    standing = .file (.text text) := by
  cases standing with
  | nothing => nomatch read
  | folder => nomatch read
  | file content =>
      cases content with
      | text held => rw [Except.ok.inj read]
      | binary bytes => nomatch read

end Standing

namespace Folder

/-- What stands at a location. -/
def standing (files : Folder) (location : Location) : Standing := .ofEntry ((Entry.folder files).at? location)

/-- The location to which a path leads, if that is not above the working folder. -/
def location? (files : Folder) (path : Path) : Option Location :=
  match files.resolve path with
  | .ok (.inside location) => some location
  | _ => none

/-- The same folders, and files at the same locations. -/
def SameShape (files others : Folder) : Prop :=
  ∀ location, ∃ change, others.standing location = (files.standing location).mapText change

theorem find_put_same (name : Text) (fresh : Entry) : (entries : Folder) →
    (entries.put name fresh).find? name = some fresh
  | .empty => by simp [put, find?]
  | .cons first entry rest => by
      by_cases same : first = name
      · simp [put, find?, same]
      · simp only [put, if_neg same, find?]
        exact find_put_same name fresh rest

theorem find_put_other {name other : Text} (different : other ≠ name) (fresh : Entry) : (entries : Folder) →
    (entries.put name fresh).find? other = entries.find? other
  | .empty => by simp [put, find?, different.symm]
  | .cons first entry rest => by
      by_cases same : first = name
      · have passed : ¬ first = other := fun equal => different (equal.symm.trans same)
        simp only [put, if_pos same, find?, if_neg passed]
      · simp only [put, if_neg same, find?, find_put_other different fresh rest]

end Folder

namespace Entry

theorem standing_putFile (content old : Content) (location : Location) :
    ∀ (entry : Entry) (other : Location), Standing.ofEntry (entry.at? location) = .file old →
      Standing.ofEntry ((entry.putFile content location).at? other) =
        if other = location then .file content else Standing.ofEntry (entry.at? other) := by
  induction location with
  | nil =>
      intro entry other held
      cases entry with
      | folder entries => nomatch held
      | file before => cases other <;> rfl
  | cons name rest ih =>
      intro entry other held
      cases entry with
      | file before => nomatch held
      | folder entries =>
          cases child : entries.find? name with
          | none => simp [at?, child, Standing.ofEntry] at held
          | some below =>
              have heldBelow : Standing.ofEntry (below.at? rest) = .file old := by simpa [at?, child] using held
              cases other with
              | nil => rfl
              | cons first others =>
                  by_cases same : first = name
                  · subst same
                    simpa [putFile, at?, child, Folder.find_put_same] using ih below others heldBelow
                  · simp [putFile, at?, Folder.find_put_other same, same]

end Entry

namespace Folder

variable {files others : Folder}

-- A file that is there can be given another content, and nothing else changes.
theorem write_over {path : Path} {location : Location} {old : Content} (content : Content)
    (leads : files.resolve path = .ok (.inside location)) (held : files.standing location = .file old) :
    ∃ written, files.write path content = .ok written ∧
      ∀ other, written.standing other = if other = location then .file content else files.standing other := by
  have put := Entry.standing_putFile content old location (.folder files)
  cases location with
  | nil => nomatch held
  | cons name rest =>
      refine ⟨files.put name (Entry.putFile content rest ((files.find? name).getD (.folder .empty))), ?_,
        fun other => put other held⟩
      unfold standing at held
      rw [write, leads]
      cases stands : (Entry.folder files).at? (name :: rest) with
      | none => rw [stands] at held; nomatch held
      | some entry =>
          cases entry with
          | folder entries => rw [stands] at held; nomatch held
          | file before => simp only [stands, Entry.putFile]

theorem SameShape.enter (shape : SameShape files others) (part : Text) (start : Destination) :
    others.enter part start = files.enter part start := by
  cases start with
  | above => rfl
  | inside location =>
      obtain ⟨change, same⟩ := shape location
      unfold standing at same
      simp only [Folder.enter]
      cases one : (Entry.folder files).at? location with
      | none =>
          cases two : (Entry.folder others).at? location with
          | none => rfl
          | some entry => cases entry <;> simp [one, two, Standing.ofEntry, Standing.mapText] at same
      | some first =>
          cases two : (Entry.folder others).at? location with
          | none => cases first <;> simp [one, two, Standing.ofEntry, Standing.mapText] at same
          | some second =>
              cases first <;> cases second <;> simp [one, two, Standing.ofEntry, Standing.mapText] at same ⊢

theorem SameShape.follow (shape : SameShape files others) (parts : List Text) :
    ∀ start, others.follow start parts = files.follow start parts := by
  induction parts with
  | nil => intro start; rfl
  | cons part rest ih =>
      intro start
      simp only [Folder.follow, shape.enter]
      cases files.enter part start with
      | error fault => rfl
      | ok next => exact ih next

-- Where a path leads does not depend on what the files hold.
theorem SameShape.resolve (shape : SameShape files others) (path : Path) :
    others.resolve path = files.resolve path := by
  simp only [Folder.resolve, shape.follow]

theorem SameShape.location (shape : SameShape files others) (path : Path) :
    others.location? path = files.location? path := by
  simp only [location?, shape.resolve]

theorem resolve_of_location {path : Path} {location : Location} (leads : files.location? path = some location) :
    files.resolve path = .ok (.inside location) := by
  unfold location? at leads
  split at leads
  · rename_i equation
    rw [equation, Option.some.inj leads]
  · nomatch leads

theorem readText_at {path : Path} {location : Location} (leads : files.location? path = some location) :
    files.readText path = (files.standing location).text := by
  rw [readText, resolve_of_location leads]
  simp only [standing]
  cases (Entry.folder files).at? location with
  | none => rfl
  | some entry =>
      cases entry with
      | folder entries => rfl
      | file content => cases content <;> rfl

theorem readText_nowhere {path : Path} (nowhere : files.location? path = none) :
    ∃ fault, files.readText path = .error fault := by
  unfold location? at nowhere
  unfold readText
  split at nowhere
  · nomatch nowhere
  · rename_i other
    cases led : files.resolve path with
    | error fault => exact ⟨fault, rfl⟩
    | ok destination =>
        cases destination with
        | above => exact ⟨.isFolder, rfl⟩
        | inside location => exact absurd led (other location)

theorem readText_held {path : Path} {text : Text} (read : files.readText path = .ok text) :
    ∃ location, files.location? path = some location ∧ files.standing location = .file (.text text) := by
  cases leads : files.location? path with
  | none =>
      obtain ⟨fault, other⟩ := readText_nowhere leads
      nomatch read.symm.trans other
  | some location =>
      rw [readText_at leads] at read
      exact ⟨location, rfl, Standing.file_of_text read⟩

-- Reading goes wrong in the same way for a path that leads nowhere.
theorem SameShape.readText_nowhere (shape : SameShape files others) {path : Path}
    (nowhere : files.location? path = none) : others.readText path = files.readText path := by
  unfold location? at nowhere
  unfold readText
  rw [shape.resolve path]
  split at nowhere
  · nomatch nowhere
  · rename_i other
    cases led : files.resolve path with
    | error fault => rfl
    | ok destination =>
        cases destination with
        | above => rfl
        | inside location => exact absurd led (other location)

end Folder

end ScriptTidy
