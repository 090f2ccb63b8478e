import ScriptTidy.Proofs.Run.Accounts

/-! A dry run tells what a run would do, as far as no file is worked on again after it was changed. -/

set_option autoImplicit false

namespace ScriptTidy

namespace Summary

end Summary

namespace Task

variable (parser : Parser Id) (task : Task) (files : Folder)

def dry : Task := { task with dryRun := true }

def real : Task := { task with dryRun := false }

variable {parser task files}

end Task

end ScriptTidy
