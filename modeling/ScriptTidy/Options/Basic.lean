import ScriptTidy.Json.Quoted
import ScriptTidy.Options.NameSet

/-!
The options that all transforms share, and their written form.
-/

set_option autoImplicit false

namespace ScriptTidy

structure Options where
  /-- Imported names that are never removed. -/
  exemptNames : NameSet
  /-- The methods of `console` whose calls are removed. -/
  consoleMethods : NameSet
deriving DecidableEq

namespace Options

/-- `React` is exempt, since JSX stands for calls of it that are not written out. -/
def default : Options := ⟨.ofList ["React".toList], .ofList ["log".toList]⟩

def exemptField : String := "exempt_names"

def consoleField : String := "console_methods"

/-- The options with more names in both sets. -/
def extend (options : Options) (exempt methods : List Text) : Options :=
  ⟨options.exemptNames.insertAll exempt, options.consoleMethods.insertAll methods⟩

def isExempt (options : Options) (name : Text) : Bool := options.exemptNames.contains name

/-- Holds if calls of `console.name` are removed. -/
def stripsMethod (options : Options) (name : Text) : Bool := options.consoleMethods.contains name

/-- A set as a JSON list. -/
def writeNames (set : NameSet) : Text :=
  '[' :: (List.intersperse [','] (set.names.map Json.encode)).flatten ++ [']']

/-- The options as a JSON object without spaces. -/
def write (options : Options) : Text :=
  '{' :: Json.encode exemptField.toList ++ ':' :: writeNames options.exemptNames ++
    ',' :: Json.encode consoleField.toList ++ ':' :: writeNames options.consoleMethods ++ ['}']

end Options

end ScriptTidy
