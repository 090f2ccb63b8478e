import ScriptTidy.Command.Arguments
import ScriptTidy.Transform.Kind

/-!
The commands of the program, as they are given on its command line.
-/

set_option autoImplicit false

namespace ScriptTidy

inductive Command where
  | run (transform : Transform) (paths : List Path) (dryRun print : Bool) (exempt methods : List Text)
      (config : Option Path)
  | list
  | strings (paths : List Path)
  | version
  | help
deriving DecidableEq, Repr

namespace Command

def runGrammar : Grammar :=
  ⟨["dry-run", "print"], ["exempt", "console-method", "config"], [('c', "config")]⟩

def plainGrammar : Grammar := ⟨[], [], []⟩

/-- Paths must not be empty. -/
def arePaths (paths : List Text) : Bool := paths.all (· != [])

/-- The command that runs a transform. The name of the transform is checked here, and flags and the options file
may be given once. -/
def ofRun (given : Arguments) : Option Command :=
  let configs := given.valuesOf "config"
  if given.countOf "dry-run" ≤ 1 ∧ given.countOf "print" ≤ 1 ∧ configs.length ≤ 1 ∧ arePaths configs ∧
      arePaths (given.operands.drop 1) then
    match given.operands with
    | [] => if given.help then some .help else none
    | name :: paths =>
        match Transform.ofName name with
        | .error _ => none
        | .ok transform =>
            if given.help then some .help
            else if paths = [] then none
            else some (.run transform paths (given.countOf "dry-run" = 1) (given.countOf "print" = 1)
              (given.valuesOf "exempt") (given.valuesOf "console-method") configs.head?)
  else none

def ofList (given : Arguments) : Option Command :=
  if given.operands = [] then some (if given.help then .help else .list) else none

def ofStrings (given : Arguments) : Option Command :=
  if arePaths given.operands = false then none
  else if given.help then some .help
  else if given.operands = [] then none
  else some (.strings given.operands)

/-- Help is given on the program, or on one of its commands; these have no commands of their own. -/
def isHelpTopic : List Text → Bool
  | [] => true
  | [topic] => ["run", "list", "strings", "help"].contains (String.ofList topic)
  | _ => false

/-- The command that the arguments of the program give; none if they give none. -/
def ofArguments (arguments : List Text) : Option Command :=
  match arguments with
  | [] => none
  | first :: rest =>
      match Argument.ofText first with
      | .long "version" none => some .version
      | .long "help" none => some .help
      | .short ('V' :: _) => some .version
      | .short ('h' :: _) => some .help
      | .operand name =>
          if name = "run".toList then (runGrammar.split rest).bind ofRun
          else if name = "list".toList then (plainGrammar.split rest).bind ofList
          else if name = "strings".toList then (plainGrammar.split rest).bind ofStrings
          else if name = "help".toList then if isHelpTopic rest then some .help else none
          else none
      | _ => none

end Command

end ScriptTidy
