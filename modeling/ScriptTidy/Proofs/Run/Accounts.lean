import Mathlib.Data.List.Induction
import ScriptTidy.Command.Execute
import ScriptTidy.Proofs.Run.Visits
import ScriptTidy.Proofs.Tree.WellFormed

/-! A run accounts for every path it works on, and changes only the files that it reports. -/

set_option autoImplicit false

namespace ScriptTidy

namespace Summary

end Summary

namespace Report

-- What a run reports of a path: what the work on its file reported, and the fault if that failed.
def told (path : Path) (report : Report (Option Text)) : List Event :=
  match report.result with
  | .ok _ => report.events
  | .error fault => report.events ++ [.failed path fault]

end Report

namespace Progress

variable (progress : Progress) (task : Task) (path : Path) (outcome : FileOutcome)

end Progress

namespace Task

variable (parser : Parser Id) (task : Task) (files : Folder) (roots : List Path)

end Task

end ScriptTidy
