import ScriptTidy.Dialect
import ScriptTidy.Fault

/-!
What a run reports while it works, one event after another.
-/

set_option autoImplicit false

namespace ScriptTidy

/-- The counts at the end of a run. -/
structure Summary where
  processed : Nat
  modified : Nat
  unchanged : Nat
  failed : Nat
deriving DecidableEq, Repr

namespace Summary

def zero : Summary := ⟨0, 0, 0, 0⟩

def hasFailures (summary : Summary) : Bool := 0 < summary.failed

def message (summary : Summary) : String :=
  toString summary.processed ++ " file(s) processed: " ++ toString summary.modified ++ " modified, " ++
    toString summary.unchanged ++ " unchanged, " ++ toString summary.failed ++ " failed"

end Summary

inductive Level where
  | debug
  | info
  | warn
  | error
deriving DecidableEq, Repr

namespace Level

def name : Level → String
  | .debug => "DEBUG"
  | .info => "INFO"
  | .warn => "WARN"
  | .error => "ERROR"

end Level

inductive Event where
  /-- A folder whose path is too long to list it. -/
  | skippedFolder (path : Path)
  | parsing (path : Path) (dialect : Dialect) (bytes : Nat)
  /-- An import specifier that binds no name. -/
  | skippedSpecifier (specifier : Text)
  | removingImport (path : Path) (localName source : Text)
  | movedHeader (path : Path)
  | removedCalls (path : Path) (count : Nat)
  | changedKeywords (path : Path) (count : Nat)
  | wrappedBodies (path : Path) (count : Nat)
  | foundString (path : Path) (line column : Nat) (value : Text)
  | unchanged (path : Path)
  | wouldModify (path : Path)
  | modified (path : Path)
  | failed (path : Path) (fault : Fault)
  | finished (transform : String) (summary : Summary)
deriving Repr

namespace Event

def level : Event → Level
  | .skippedFolder .. => .warn
  | .parsing .. | .skippedSpecifier .. | .removingImport .. | .movedHeader .. | .unchanged .. => .debug
  | .removedCalls .. | .changedKeywords .. | .wrappedBodies .. | .foundString .. => .info
  | .wouldModify .. | .modified .. | .finished .. => .info
  | .failed .. => .error

def message : Event → String
  | .skippedFolder path =>
      "Skipping unreadable entry: IO error for operation on " ++ String.ofList path ++ ": " ++
        FileFault.nameTooLong.message
  | .parsing path dialect bytes =>
      "Parsing " ++ String.ofList path ++ " as " ++ dialect.name ++ " (" ++ toString bytes ++ " bytes)"
  | .skippedSpecifier specifier => "Skipping import specifier without local name: " ++ String.ofList specifier
  | .removingImport path localName source =>
      String.ofList path ++ ": removing unused import '" ++ String.ofList localName ++ "' from '" ++
        String.ofList source ++ "'"
  | .movedHeader path => String.ofList path ++ ": moved header comments onto the new first statement"
  | .removedCalls path count => String.ofList path ++ ": removed " ++ toString count ++ " console call(s)"
  | .changedKeywords path count => String.ofList path ++ ": rewrote " ++ toString count ++ " var declaration(s)"
  | .wrappedBodies path count => String.ofList path ++ ": wrapped " ++ toString count ++ " async function body(ies)"
  | .foundString path line column value =>
      String.ofList path ++ ":" ++ toString line ++ ":" ++ toString column ++ ": \"" ++ String.ofList value ++ "\""
  | .unchanged path => String.ofList path ++ ": unchanged"
  | .wouldModify path => "[DRY-RUN] Would modify: " ++ String.ofList path
  | .modified path => "Modified: " ++ String.ofList path
  | .failed path fault => String.ofList path ++ ": " ++ fault.message
  | .finished transform summary => transform ++ ": " ++ summary.message

end Event

/-- The events of a piece of work, and its result. -/
structure Report (α : Type) where
  events : List Event
  result : Except Fault α

namespace Report

variable {α β : Type}

def done (value : α) : Report α := ⟨[], .ok value⟩

def fail (fault : Fault) : Report α := ⟨[], .error fault⟩

/-- Adds events in front. -/
def after (report : Report α) (events : List Event) : Report α := { report with events := events ++ report.events }

/-- Goes on with the result; the events are kept in any case. -/
def andThen (report : Report α) (next : α → Report β) : Report β :=
  match report.result with
  | .error fault => ⟨report.events, .error fault⟩
  | .ok value => (next value).after report.events

def map (report : Report α) (change : α → β) : Report β := ⟨report.events, report.result.map change⟩

end Report

end ScriptTidy
