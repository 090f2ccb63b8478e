import ScriptTidy.Proofs.Files.Standing
import ScriptTidy.Run

/-! What comes of each path of a run, told from the files as they were at the start. -/

set_option autoImplicit false

namespace ScriptTidy

namespace Folder

def sameFile (files : Folder) (path other : Path) : Bool := decide (files.location? other = files.location? path)

def leadsTo (files : Folder) (location : Location) (path : Path) : Bool := decide (files.location? path = some location)

end Folder

namespace Report

def output? (report : Report (Option Text)) : Option Text :=
  match report.result with
  | .ok found => found
  | .error _ => none

def isModified (report : Report (Option Text)) : Bool := report.output?.isSome

end Report

namespace Summary

end Summary

namespace Task

variable (parser : Parser Id) (task : Task)

-- A text on which the transform fails is left.
def rework (text : Text) (path : Path) : Text :=
  match (task.transform.apply parser task.options ⟨path, text⟩).run.result with
  | .ok result => result
  | .error _ => text

def reworked (paths : List Path) (text : Text) : Text := paths.foldl (task.rework parser) text

def attempt (path : Path) (text : Text) : Report (Option Text) :=
  (task.transform.apply parser task.options ⟨path, text⟩).run.andThen fun result =>
    if result = text then ⟨[.unchanged path], .ok none⟩
    else ⟨[if task.dryRun then .wouldModify path else .modified path], .ok (some result)⟩

-- What comes of a path once the transform has worked on its file by the earlier ones.
def visit (files : Folder) (earlier : List Path) (path : Path) : Report (Option Text) :=
  match files.readText path with
  | .error fault => .fail (.file fault)
  | .ok text => task.attempt parser path (task.reworked parser (earlier.filter (files.sameFile path)) text)

-- In a dry run no path finds anything of what the ones before it did.
def written (earlier : List Path) : List Path := if task.dryRun then [] else earlier

def visits (files : Folder) (paths : List Path) : List (Report (Option Text)) :=
  paths.mapIdx fun index path => task.visit parser files (task.written (paths.take index)) path

-- The files once the transform has worked on them by the paths.
def Reached (files : Folder) (paths : List Path) (current : Folder) : Prop :=
  ∀ location, current.standing location =
    (files.standing location).mapText (task.reworked parser (paths.filter (files.leadsTo location)))

variable {parser task} {files current : Folder} {earlier : List Path}

theorem attempt_output {path : Path} {text : Text} :
    (task.attempt parser path text).output?.getD text = task.rework parser text path := by
  unfold attempt rework Report.andThen
  cases (task.transform.apply parser task.options ⟨path, text⟩).run.result with
  | error fault => rfl
  | ok result =>
      by_cases same : result = text
      · simp [same, Report.after, Report.output?]
      · simp [same, Report.after, Report.output?]

theorem same_file_leads {path : Path} {location : Location} (leads : files.location? path = some location) :
    files.sameFile path = files.leadsTo location := by
  funext other
  simp only [Folder.sameFile, Folder.leadsTo, leads]

theorem mapText_snoc (standing : Standing) (paths : List Path) (path : Path) :
    standing.mapText (task.reworked parser (paths ++ [path])) =
      (standing.mapText (task.reworked parser paths)).mapText fun text => task.rework parser text path := by
  have stepwise : task.reworked parser (paths ++ [path]) =
      fun text => task.rework parser (task.reworked parser paths text) path := by
    funext text
    simp only [reworked, List.foldl_append, List.foldl_cons, List.foldl_nil]
  rw [Standing.mapText_mapText, stepwise]

theorem leading_snoc {path : Path} {location : Location} (leads : files.location? path = some location)
    (paths : List Path) :
    (paths ++ [path]).filter (files.leadsTo location) = paths.filter (files.leadsTo location) ++ [path] := by
  have named : files.leadsTo location path = true := decide_eq_true leads
  rw [List.filter_append, List.filter_cons_of_pos named]
  rfl

theorem passing_snoc {path : Path} {location : Location} (passes : files.location? path ≠ some location)
    (paths : List Path) :
    (paths ++ [path]).filter (files.leadsTo location) = paths.filter (files.leadsTo location) := by
  have skipped : ¬ files.leadsTo location path = true := by simpa [Folder.leadsTo] using passes
  rw [List.filter_append, List.filter_cons_of_neg skipped]
  exact List.append_nil _

theorem Reached.start (parser : Parser Id) (task : Task) (files : Folder) : Reached parser task files [] files :=
  fun location => ((files.standing location).mapText_id).symm

theorem Reached.shape (reached : Reached parser task files earlier current) : Folder.SameShape files current :=
  fun location => ⟨_, reached location⟩

theorem Reached.readText (reached : Reached parser task files earlier current) (path : Path) :
    current.readText path = (files.readText path).map (task.reworked parser (earlier.filter (files.sameFile path))) := by
  cases leads : files.location? path with
  | none =>
      obtain ⟨fault, read⟩ := Folder.readText_nowhere leads
      rw [reached.shape.readText_nowhere leads, read]
      rfl
  | some location =>
      rw [Folder.readText_at leads, Folder.readText_at ((reached.shape.location path).trans leads), reached location,
        Standing.text_mapText, same_file_leads leads]

theorem Reached.unread (reached : Reached parser task files earlier current) {path : Path} {fault : FileFault}
    (read : files.readText path = .error fault) : Reached parser task files (earlier ++ [path]) current := by
  intro location
  by_cases leads : files.location? path = some location
  · rw [Folder.readText_at leads] at read
    rw [reached location, Standing.mapText_unread read, Standing.mapText_unread read]
  · rw [reached location, passing_snoc leads]

-- One more path changes just the file to which it leads.
theorem Reached.rewritten (reached : Reached parser task files earlier current) {path : Path} {location : Location}
    {text : Text} {after : Folder} (leads : files.location? path = some location)
    (held : current.standing location = .file (.text text))
    (changed : ∀ other, after.standing other =
      if other = location then .file (.text (task.rework parser text path)) else current.standing other) :
    Reached parser task files (earlier ++ [path]) after := by
  intro other
  rw [changed other]
  by_cases same : other = location
  · subst same
    rw [if_pos rfl, leading_snoc leads, mapText_snoc, ← reached other, held]
    rfl
  · rw [if_neg same, reached other, passing_snoc fun equal => same (Option.some.inj (equal.symm.trans leads))]

theorem Reached.kept (reached : Reached parser task files earlier current) {path : Path} {location : Location}
    {text : Text} (leads : files.location? path = some location)
    (held : current.standing location = .file (.text text)) (kept : task.rework parser text path = text) :
    Reached parser task files (earlier ++ [path]) current := by
  refine reached.rewritten leads held fun other => ?_
  by_cases same : other = location
  · rw [if_pos same, same, held, kept]
  · rw [if_neg same]

theorem written_of_dry (dry : task.dryRun = true) (paths : List Path) : task.written paths = [] := if_pos dry

theorem written_of_real (real : task.dryRun = false) (paths : List Path) : task.written paths = paths :=
  if_neg (by simp [real])

-- The step of a run: the file comes out as told from the start, and the files stay told from the start.
theorem runFile_visit (reached : Reached parser task files (task.written earlier) current) (path : Path) :
    (task.runFile parser current path).run.report = task.visit parser files (task.written earlier) path ∧
      Reached parser task files (task.written (earlier ++ [path])) (task.runFile parser current path).run.files := by
  have later {after : Folder} (real : Reached parser task files (task.written earlier ++ [path]) after)
      (dry : task.dryRun = true → after = current) :
      Reached parser task files (task.written (earlier ++ [path])) after := by
    cases mode : task.dryRun with
    | true => simpa only [written_of_dry mode, dry mode] using reached
    | false => simpa only [written_of_real mode] using real
  unfold runFile visit
  rw [reached.readText path]
  cases read : files.readText path with
  | error fault => exact ⟨rfl, later (reached.unread read) fun _ => rfl⟩
  | ok first =>
      have found := reached.readText path
      simp only [read, Except.map] at found ⊢
      generalize task.reworked parser ((task.written earlier).filter (files.sameFile path)) first = text at found ⊢
      obtain ⟨location, leads, held⟩ := Folder.readText_held found
      have named : files.location? path = some location := (reached.shape.location path).symm.trans leads
      unfold attempt Report.andThen
      cases result : (task.transform.apply parser task.options ⟨path, text⟩).run.result with
      | error fault =>
          have kept : task.rework parser text path = text := by rw [rework, result]
          simp only [Id.run_bind, result]
          exact ⟨rfl, later (reached.kept named held kept) fun _ => rfl⟩
      | ok made =>
          have done : task.rework parser text path = made := by rw [rework, result]
          simp only [Id.run_bind, result, deliver]
          by_cases same : made = text
          · simp only [if_pos same]
            exact ⟨rfl, later (reached.kept named held (done.trans same)) fun _ => rfl⟩
          · simp only [if_neg same]
            cases mode : task.dryRun with
            | true =>
                rw [written_of_dry mode] at reached ⊢
                exact ⟨rfl, reached⟩
            | false =>
                obtain ⟨after, wrote, changed⟩ :=
                  Folder.write_over (.text made) (Folder.resolve_of_location leads) held
                rw [← done] at changed
                simp only [wrote, Bool.false_eq_true, if_false]
                exact ⟨rfl, later (reached.rewritten named held changed) fun dry => nomatch mode.symm.trans dry⟩

end Task

end ScriptTidy
