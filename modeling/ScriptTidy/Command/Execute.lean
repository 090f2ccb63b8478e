import ScriptTidy.Command.Basic
import ScriptTidy.Json.Layout
import ScriptTidy.Options.Reader
import ScriptTidy.Run

/-!
Executing commands on a working folder.
-/

set_option autoImplicit false

namespace ScriptTidy

/-- What a command leaves behind. -/
structure Outcome where
  code : Nat
  output : Text
  /-- What it tells beside its output. -/
  notes : Text
  files : Folder

namespace Command

def versionLine : Text := "codemods 0.1.0\n".toList

def usageText : Text :=
  ("Source-to-source transforms for JavaScript and TypeScript\n\n" ++
    "Usage: codemods run <TRANSFORM> <PATHS>... [--dry-run] [--print] [--exempt <NAME>]\n" ++
    "                    [--console-method <NAME>] [--config <CONFIG>]\n" ++
    "       codemods list\n" ++
    "       codemods strings <PATHS>...\n").toList

/-- One transform a line: its name in a column of 26 characters, and what it does. -/
def listText : Text :=
  Transform.all.flatMap fun transform =>
    let name := transform.name.toList
    name ++ List.replicate (26 - name.length) ' ' ++ ' ' :: transform.description.toList ++ ['\n']

/-- The options in a file. -/
def readOptions (files : Folder) (path : Path) : Except Fault Options :=
  match files.readText path with
  | .error fault => .error (.file fault)
  | .ok text =>
      match Options.read text with
      | .error stop => .error (.badOptions text stop)
      | .ok options => .ok options

/-- What is told of options that cannot be loaded: the fault, and under it what lies behind it. -/
def configFailure (path : Path) (fault : Fault) : Text :=
  let cause (index : Nat) (message : String) : String := "\n    " ++ toString index ++ ": " ++ message
  ("Error: Failed to load config: " ++ String.ofList path ++ "\n\nCaused by:" ++ cause 0 fault.message ++
    ((fault.cause?.map (cause 1)).getD "") ++ "\n").toList

/-- The string literals of one file. -/
structure FileStrings where
  path : Path
  strings : List StringLiteral

namespace FileStrings

open Json in
def layout (found : FileStrings) : Layout :=
  .object [("path", .string found.path), ("strings", .list (found.strings.map fun literal =>
    .object [("value", .string literal.value), ("line", .number literal.line), ("column", .number literal.column)]))]

end FileStrings

variable {m : Type → Type} [Monad m]

/-- The string literals of a file; none if it cannot be read or parsed. -/
def stringsOf (parser : Parser m) (files : Folder) (path : Path) : m (Option FileStrings) :=
  match files.readText path with
  | .error _ => return none
  | .ok text => do
      let parsed ← SourceFile.parse parser ⟨path, text⟩
      match parsed.result with
      | .error _ => return none
      | .ok tree => return some ⟨path, tree.stringLiterals⟩

/-- Executes a command. -/
def execute (parser : Parser m) (files : Folder) : Command → m Outcome
  | .version => return ⟨0, versionLine, [], files⟩
  | .help => return ⟨0, usageText, [], files⟩
  | .list => return ⟨0, listText, [], files⟩
  | .strings paths => do
      let found ← (files.collect paths).mapM (stringsOf parser files)
      let shown := Json.Layout.list ((found.filterMap id).map FileStrings.layout) 0
      return ⟨if found.all (·.isSome) then 0 else 1, shown ++ ['\n'], [], files⟩
  | .run transform paths dryRun print exempt methods config =>
      match (config.map (readOptions files)).getD (.ok .default) with
      | .error fault => return ⟨1, [], configFailure (config.getD []) fault, files⟩
      | .ok options => do
          let progress ← Task.run parser ⟨transform, options.extend exempt methods, dryRun, print⟩ files paths
          return ⟨if progress.summary.hasFailures then 1 else 0, progress.printed,
            progress.summary.message.toList ++ ['\n'], progress.files⟩

/-- Executes the command that the arguments give. Arguments that give none are answered with the usage. -/
def executeArguments (parser : Parser m) (files : Folder) (arguments : List Text) : m Outcome :=
  match ofArguments arguments with
  | some command => command.execute parser files
  | none => return ⟨2, [], usageText, files⟩

end Command

end ScriptTidy
