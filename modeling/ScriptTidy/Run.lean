import ScriptTidy.Files.Collect
import ScriptTidy.Transform.Kind

/-!
Running a transform over files.

The files under the given paths are found first and then transformed one after another. A file that fails is
counted and the run goes on. In a dry run nothing is written.
-/

set_option autoImplicit false

namespace ScriptTidy

/-- What is done to each file, and how the results are delivered. -/
structure Task where
  transform : Transform
  options : Options
  /-- Report changes without writing files. -/
  dryRun : Bool
  /-- Print the text of each changed file. -/
  print : Bool
deriving DecidableEq

/-- The files after one of them was worked on, and the new text of that file if it changed. -/
structure FileOutcome where
  files : Folder
  report : Report (Option Text)

namespace Task

variable {m : Type → Type} [Monad m]

/-- Delivers the text that a transform made of a file. -/
def deliver (task : Task) (files : Folder) (file : SourceFile) (text : Text) : FileOutcome :=
  if text = file.text then ⟨files, ⟨[.unchanged file.path], .ok none⟩⟩
  else if task.dryRun then ⟨files, ⟨[.wouldModify file.path], .ok (some text)⟩⟩
  else
    match files.write file.path (.text text) with
    | .error fault => ⟨files, .fail (.file fault)⟩
    | .ok written => ⟨written, ⟨[.modified file.path], .ok (some text)⟩⟩

/-- Works on one file. -/
def runFile (parser : Parser m) (task : Task) (files : Folder) (path : Path) : m FileOutcome :=
  match files.readText path with
  | .error fault => return ⟨files, .fail (.file fault)⟩
  | .ok text => do
      let report ← task.transform.apply parser task.options ⟨path, text⟩
      match report.result with
      | .error fault => return ⟨files, ⟨report.events, .error fault⟩⟩
      | .ok result =>
          let outcome := task.deliver files ⟨path, text⟩ result
          return ⟨outcome.files, outcome.report.after report.events⟩

end Task

/-- How far a run has come. -/
structure Progress where
  files : Folder
  summary : Summary
  printed : Text
  events : List Event

namespace Progress

/-- The start of a run, when the files under the paths are found. -/
def start (files : Folder) (paths : List Path) : Progress :=
  ⟨files, .zero, [], (files.unlisted paths).map .skippedFolder⟩

/-- Counts the outcome of one file. -/
def count (progress : Progress) (task : Task) (path : Path) (outcome : FileOutcome) : Progress :=
  let summary := { progress.summary with processed := progress.summary.processed + 1 }
  let events := progress.events ++ outcome.report.events
  match outcome.report.result with
  | .ok (some text) =>
      ⟨outcome.files, { summary with modified := summary.modified + 1 },
        if task.print then progress.printed ++ text else progress.printed, events⟩
  | .ok none => ⟨outcome.files, { summary with unchanged := summary.unchanged + 1 }, progress.printed, events⟩
  | .error fault =>
      ⟨outcome.files, { summary with failed := summary.failed + 1 }, progress.printed, events ++ [.failed path fault]⟩

end Progress

namespace Task

variable {m : Type → Type} [Monad m]

/-- Works on one more file. -/
def step (parser : Parser m) (task : Task) (progress : Progress) (path : Path) : m Progress := do
  return progress.count task path (← task.runFile parser progress.files path)

/-- Works on all files under the paths. -/
def run (parser : Parser m) (task : Task) (files : Folder) (paths : List Path) : m Progress := do
  let progress ← (files.collect paths).foldlM (task.step parser) (.start files paths)
  return { progress with events := progress.events ++ [.finished task.transform.name progress.summary] }

end Task

end ScriptTidy
