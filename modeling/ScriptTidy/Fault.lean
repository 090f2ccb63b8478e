import ScriptTidy.Json.Flaw
import ScriptTidy.Path

/-!
What can go wrong with a file, an option or a set of edits, and how it is told.
-/

set_option autoImplicit false

namespace ScriptTidy

/-- Why a file cannot be opened or read. -/
inductive FileFault where
  | notFound
  | fileExists
  | notFolder
  | isFolder
  | nameTooLong
  | zeroInName
  | notText
deriving DecidableEq, Repr

namespace FileFault

def message : FileFault → String
  | .notFound => "No such file or directory (os error 2)"
  | .fileExists => "File exists (os error 17)"
  | .notFolder => "Not a directory (os error 20)"
  | .isFolder => "Is a directory (os error 21)"
  | .nameTooLong => "File name too long (os error 36)"
  | .zeroInName => "file name contained an unexpected NUL byte"
  | .notText => "stream did not contain valid UTF-8"

end FileFault

inductive Fault where
  | file (cause : FileFault)
  /-- The grammar does not accept the text; the place counts from one. -/
  | malformed (path : Path) (line column : Nat)
  | unsupportedFileType (extension : Text)
  | unknownTransform (name : Text)
  /-- The options in `text` cannot be read. -/
  | badOptions (text : Text) (stop : Json.Stop)
  /-- An edit starts in front of the end of the one before it. -/
  | overlappingEdits (firstEnd secondStart : Nat)
  /-- An edit names an offset that is not between two characters of the text. -/
  | badOffset
  /-- Wrapping goes on though no function is left that was there at the start. -/
  | unsettled (path : Path)
deriving Repr

namespace Fault

def message : Fault → String
  | .file cause => "I/O error: " ++ cause.message
  | .malformed path line column =>
      "Syntax error in " ++ String.ofList path ++ " at " ++ toString line ++ ":" ++ toString column
  | .unsupportedFileType extension => "Unsupported file type: " ++ String.ofList extension
  | .unknownTransform name => "Unknown transform: '" ++ String.ofList name ++ "'"
  | .badOptions text stop => "Invalid configuration: " ++ stop.message text
  | .overlappingEdits firstEnd secondStart =>
      "Overlapping edits at bytes " ++ toString firstEnd ++ " and " ++ toString secondStart
  | .badOffset => "Edit at an offset outside the text"
  | .unsettled path => "Wrapping does not settle in " ++ String.ofList path

/-- The message of what lies behind a fault, for those that only pass it on. -/
def cause? : Fault → Option String
  | .file cause => some cause.message
  | .badOptions text stop => some (stop.message text)
  | _ => none

end Fault

end ScriptTidy
