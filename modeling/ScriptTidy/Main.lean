import ScriptTidy.Command.Execute
import ScriptTidy.Tree.Listing

/-!
The command line of the program.

Standard input tells, in lines of fields separated by tabs, what the program works on: `file` and a path names a
file of the working folder, `tree` and `0` or `1` begins the next syntax tree and tells whether the grammar found
fault with the text, and `node` with a depth, flags, a kind, two offsets and field names joined by `|` is the next
node of that tree in document order.
-/

set_option autoImplicit false

namespace ScriptTidy

/-- What the program works on. -/
structure Supplies where
  paths : List String
  trees : List Parsed
  /-- Nodes whose tree is not begun yet; lines are read from the last to the first. -/
  rows : List Row

namespace Supplies

def empty : Supplies := ⟨[], [], []⟩

/-- The tree of a text that holds nothing. -/
def emptyProgram : Node := .mk ⟨"program", [], true, false, 0, 0⟩ []

def rowOfFields? (depth flags kind start stop fields : String) : Option Row := do
  let depth ← depth.toNat?
  let flags ← flags.toNat?
  let start ← start.toNat?
  let stop ← stop.toNat?
  return ⟨depth, ⟨kind, if fields = "" then [] else fields.splitOn "|", flags % 2 = 1, flags / 2 ≠ 0, start, stop⟩⟩

/-- Adds the line in front of those that were read. -/
def addLine (line : String) (supplies : Supplies) : Supplies :=
  match line.splitOn "\t" with
  | ["file", path] => { supplies with paths := path :: supplies.paths }
  | ["tree", fault] =>
      { supplies with
        trees := ⟨fault = "1", (Node.ofListing? supplies.rows).getD emptyProgram⟩ :: supplies.trees, rows := [] }
  | ["node", depth, flags, kind, start, stop, fields] =>
      { supplies with rows := (rowOfFields? depth flags kind start stop fields).toList ++ supplies.rows }
  | _ => supplies

def ofLines (lines : List String) : Supplies := lines.foldr addLine empty

/-- Hands the trees out in order. -/
def nextTree : Parser (StateM (List Parsed)) := fun _ _ => modifyGet fun
  | [] => (⟨false, emptyProgram⟩, [])
  | tree :: rest => (tree, rest)

end Supplies

namespace Content

/-- Bytes are a text if they are the UTF-8 form of one. -/
def ofByteArray (bytes : ByteArray) : Content :=
  match String.fromUTF8? bytes with
  | some decoded => .text decoded.toList
  | none => .binary bytes.toList

end Content

namespace Folder

/-- The files with one more, unless its path cannot be used. -/
def withFile (files : Folder) (path : String) (content : Content) : Folder :=
  (files.create path.toList (some content)).1

end Folder

/-- The lines of a stream without their ends. -/
partial def readLines (input : IO.FS.Stream) : IO (List String) := do
  let line ← input.getLine
  if line.isEmpty then return []
  return String.ofList (line.toList.filter (· != '\n')) :: (← readLines input)

/-- The files at the paths. -/
def readFolder (paths : List String) : IO Folder :=
  let step (files : Folder) (path : String) : IO Folder :=
    return files.withFile path (Content.ofByteArray (← IO.FS.readBinFile path))
  paths.foldlM step .empty

/-- Writes the texts that differ from what was read. -/
def writeChanges (before after : Folder) : IO Unit := do
  let known := before.contents []
  for file in after.contents [] do
    if !known.contains file then
      match file.2 with
      | .text text => IO.FS.writeFile (String.ofList file.1) (String.ofList text)
      | .binary _ => pure ()

end ScriptTidy

open ScriptTidy in
/-- Executes the command that the arguments give on the files that standard input names. -/
def main (arguments : List String) : IO UInt32 := do
  let supplies := Supplies.ofLines (← readLines (← IO.getStdin))
  let files ← readFolder supplies.paths
  let outcome := ((Command.executeArguments Supplies.nextTree files (arguments.map String.toList)).run supplies.trees).1
  writeChanges files outcome.files
  IO.print (String.ofList outcome.output)
  IO.eprint (String.ofList outcome.notes)
  return UInt32.ofNat outcome.code
