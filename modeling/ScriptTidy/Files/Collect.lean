import ScriptTidy.Dialect
import ScriptTidy.Files.Basic

/-!
Collecting the source files under given paths.

A folder stands for the supported files below it, depth first, the entries of each folder in the order of their
names. Folders that hold dependencies or results of builds are left out, and so is what lies below a folder whose
path is too long to be followed. Any other path stands for itself.
-/

set_option autoImplicit false

namespace ScriptTidy

/-- The folders that are left out, by name. -/
def ignoredFolders : List Text :=
  ["node_modules", ".git", "dist", "build", ".next", "coverage", ".turbo"].map String.toList

def isIgnored (name : Text) : Bool := ignoredFolders.contains name

/-- What is found below a folder. -/
inductive Finding where
  | source (path : Path)
  /-- A folder that cannot be listed, since its path is too long. -/
  | unlisted (path : Path)
deriving DecidableEq, Repr

namespace Finding

def source? : Finding → Option Path
  | .source path => some path
  | .unlisted _ => none

def unlisted? : Finding → Option Path
  | .source _ => none
  | .unlisted path => some path

end Finding

mutual
/-- What is found at an entry with the given path: its supported files, and folders that cannot be listed. -/
def Entry.findings (path : Path) : Entry → List Finding
  | .file _ => if (Dialect.ofPath? path).isSome then [.source path] else []
  | .folder entries =>
      if Folder.longestPath < Text.bytes path then [.unlisted path]
      else (entries.namedFindings path).flatMap (·.2)
/-- What is found at the entries of a folder, entry by entry in the order of their names. -/
def Folder.namedFindings (folder : Path) : Folder → List (Text × List Finding)
  | .empty => []
  | .cons name entry rest =>
      let found := match entry with
        | .file _ => entry.findings (folder.join name)
        | .folder _ => if isIgnored name then [] else entry.findings (folder.join name)
      insertNamed name found (rest.namedFindings folder)
end

namespace Path

/-- The name by which the folder of a path is left out: its last part, or all of it if that names nothing. -/
def rootName (path : Path) : Text := path.fileName?.getD path

end Path

namespace Folder

/-- What is found for one path. Of the folders above the working folder no files are known. -/
def findingsUnder (files : Folder) (root : Path) : List Finding :=
  match files.resolve root with
  | .error _ => [.source root]
  | .ok .above => []
  | .ok (.inside location) =>
      match (Entry.folder files).at? location with
      | some (.folder entries) => if isIgnored root.rootName then [] else (Entry.folder entries).findings root
      | _ => [.source root]

/-- What is found for paths, path by path. -/
def findings (files : Folder) (roots : List Path) : List Finding := roots.flatMap files.findingsUnder

/-- The files for which paths stand, path by path. A file can come more than once. -/
def collect (files : Folder) (roots : List Path) : List Path := (files.findings roots).filterMap Finding.source?

/-- The folders under paths that cannot be listed. -/
def unlisted (files : Folder) (roots : List Path) : List Path := (files.findings roots).filterMap Finding.unlisted?

end Folder

end ScriptTidy
