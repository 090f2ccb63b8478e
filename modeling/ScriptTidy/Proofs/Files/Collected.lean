import ScriptTidy.Proofs.Files.Walk

/-! The files for which paths stand: exactly the source files below the folders among them, in order. -/

set_option autoImplicit false

namespace ScriptTidy

namespace Entry

end Entry

namespace Folder

variable {files : Folder} {root : Path}

section Below

variable (proper : files.Proper) {location : Location} (leads : files.location? root = some location) {entries : Folder}
  (stands : (Entry.folder files).at? location = some (.folder entries))

include proper leads stands

end Below

end Folder

end ScriptTidy
