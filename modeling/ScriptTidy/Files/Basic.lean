import ScriptTidy.Fault

/-!
The files of a working folder as a value: folders with named entries, and files with their contents.

A path is followed from the working folder part by part. Every part but the last must lead to a folder, and so
must a path that ends with a slash. Of what lies above the working folder only its folders are known, and a path
may lead there; the names in them are not part of the value.
-/

set_option autoImplicit false

namespace ScriptTidy

/-- What a file holds: a text, or bytes that are no UTF-8 form of one. -/
inductive Content where
  | text (text : Text)
  | binary (bytes : List UInt8)
deriving DecidableEq, Repr

mutual
inductive Entry where
  | file (content : Content)
  | folder (entries : Folder)
inductive Folder where
  | empty
  | cons (name : Text) (entry : Entry) (rest : Folder)
end

/-- The names from the working folder down to an entry. -/
abbrev Location := List Text

/-- Where a path can lead. -/
inductive Destination where
  | inside (location : Location)
  /-- A folder above the working folder. -/
  | above
deriving DecidableEq, Repr

namespace Folder

/-- The longest name that an entry can have, in bytes. -/
def longestName : Nat := 255

/-- The longest path that can be followed, in bytes. -/
def longestPath : Nat := 4095

/-- Why no entry can have the name, if that is so. -/
def nameFault? (name : Text) : Option FileFault :=
  if '\x00' ∈ name then some .zeroInName
  else if longestName < Text.bytes name then some .nameTooLong
  else none

/-- The entry with the given name. -/
def find? (name : Text) : Folder → Option Entry
  | .empty => none
  | .cons first entry rest => if first = name then some entry else find? name rest

/-- Gives an entry a name, in place of the one that had it. -/
def put (name : Text) (fresh : Entry) : Folder → Folder
  | .empty => .cons name fresh .empty
  | .cons first entry rest =>
      if first = name then .cons first fresh rest else .cons first entry (put name fresh rest)

end Folder

namespace Entry

/-- The entry at a location below. -/
def at? (entry : Entry) : Location → Option Entry
  | [] => some entry
  | name :: rest =>
      match entry with
      | .file _ => none
      | .folder entries => (entries.find? name).bind fun child => child.at? rest

/-- Makes the folders down to a location, as far as that goes, and tells why it does not go on. -/
def makeFolders : Location → Option Entry → Entry × Option FileFault
  | [], none => (.folder .empty, none)
  | [], some (.file content) => (.file content, some .fileExists)
  | [], some (.folder entries) => (.folder entries, none)
  | name :: rest, none =>
      match Folder.nameFault? name with
      | some fault => (.folder .empty, some fault)
      | none =>
          let result := makeFolders rest none
          (.folder (.cons name result.1 .empty), result.2)
  | _ :: _, some (.file content) => (.file content, some .notFolder)
  | name :: rest, some (.folder entries) =>
      match Folder.nameFault? name with
      | some fault => (.folder entries, some fault)
      | none =>
          let result := makeFolders rest (entries.find? name)
          (.folder (entries.put name result.1), result.2)

/-- The entry with a file at a location, in place of what was there. -/
def putFile (content : Content) : Location → Entry → Entry
  | [], _ => .file content
  | _ :: _, .file old => .file old
  | name :: rest, .folder entries =>
      .folder (entries.put name (putFile content rest ((entries.find? name).getD (.folder .empty))))

end Entry

namespace Folder

/-- Goes on from where a path leads by one more part. -/
def enter (files : Folder) (part : Text) : Destination → Except FileFault Destination
  | .above =>
      if part = [] ∨ part = Path.here ∨ part = Path.up then .ok .above
      else if longestName < Text.bytes part then .error .nameTooLong
      else .error .notFound
  | .inside location =>
      match (Entry.folder files).at? location with
      | none => .error .notFound
      | some (.file _) => .error .notFolder
      | some (.folder _) =>
          if part = [] ∨ part = Path.here then .ok (.inside location)
          else if part = Path.up then .ok (if location = [] then .above else .inside location.dropLast)
          else if longestName < Text.bytes part then .error .nameTooLong
          else .ok (.inside (location ++ [part]))

/-- Follows the parts of a path. Nothing need be there where the last part leads. -/
def follow (files : Folder) (start : Destination) : List Text → Except FileFault Destination
  | [] => .ok start
  | part :: rest =>
      match files.enter part start with
      | .error fault => .error fault
      | .ok next => follow files next rest

/-- Where a path leads. A path that begins with a slash starts above the working folder. -/
def resolve (files : Folder) (path : Path) : Except FileFault Destination :=
  if '\x00' ∈ path then .error .zeroInName
  else if path = [] then .error .notFound
  else if longestPath < Text.bytes path then .error .nameTooLong
  else files.follow (if path.head? = some '/' then .above else .inside []) path.parts

/-- The text of the file to which a path leads. -/
def readText (files : Folder) (path : Path) : Except FileFault Text :=
  match files.resolve path with
  | .error fault => .error fault
  | .ok .above => .error .isFolder
  | .ok (.inside location) =>
      match (Entry.folder files).at? location with
      | some (.file (.text text)) => .ok text
      | some (.file (.binary _)) => .error .notText
      | some (.folder _) => .error .isFolder
      | none => .error .notFound

/-- The files with a content for the file to which a path leads. The file is made if it is not there. -/
def write (files : Folder) (path : Path) (content : Content) : Except FileFault Folder :=
  match files.resolve path with
  | .error fault => .error fault
  | .ok .above => .error .isFolder
  | .ok (.inside location) =>
      match (Entry.folder files).at? location with
      | some (.folder _) => .error .isFolder
      | _ =>
          match (Entry.folder files).putFile content location with
          | .folder changed => .ok changed
          | .file _ => .error .isFolder

/-- The files with the folders down to a location, as far as they can be made, and why not all of them. The names are
looked at before anything is made. -/
def makeFolders (files : Folder) (location : Location) : Folder × Option FileFault :=
  if location.any (·.contains '\x00') then (files, some .zeroInName)
  else
    match Entry.makeFolders location (some (.folder files)) with
    | (.folder changed, fault) => (changed, fault)
    | (.file _, fault) => (files, fault)

/-- The files with one more at a path, or a folder if there is no content, and why it could not be made. The folders
on the way are made first; the path must not lead upwards. -/
def create (files : Folder) (path : Path) : Option Content → Folder × Option FileFault
  | none => files.makeFolders path.names
  | some content =>
      match files.makeFolders path.names.dropLast with
      | (changed, some fault) => (changed, some fault)
      | (changed, none) =>
          match changed.write path content with
          | .error fault => (changed, some fault)
          | .ok written => (written, none)

end Folder

/-- Puts a named value in front of the first one whose name is not smaller. -/
def insertNamed {α : Type} (name : Text) (value : α) : List (Text × α) → List (Text × α)
  | [] => [(name, value)]
  | (first, old) :: rest =>
      if first < name then (first, old) :: insertNamed name value rest else (name, value) :: (first, old) :: rest

mutual
/-- The files of an entry with their paths, in the order of the paths. -/
def Entry.contents (path : Path) : Entry → List (Path × Content)
  | .file content => [(path, content)]
  | .folder entries => entries.contents path
def Folder.contents (folder : Path) : Folder → List (Path × Content)
  | .empty => []
  | .cons name entry rest =>
      (entry.contents (folder.join name)).foldr (fun file others => insertNamed file.1 file.2 others)
        (rest.contents folder)
end

end ScriptTidy
