import ScriptTidy.Transform.AsyncBodies
import ScriptTidy.Transform.ConsoleCalls
import ScriptTidy.Transform.StringLiterals
import ScriptTidy.Transform.UnusedImports
import ScriptTidy.Transform.VarKeywords

/-!
The transforms by name, and how each works on a file.
-/

set_option autoImplicit false

namespace ScriptTidy

inductive Transform where
  | removeUnusedImports
  | removeConsoleCalls
  | varToLet
  | wrapAsyncBodies
  | extractStrings
deriving DecidableEq, Repr

namespace Transform

/-- All transforms in the order in which they are listed. -/
def all : List Transform := [.removeUnusedImports, .removeConsoleCalls, .varToLet, .wrapAsyncBodies, .extractStrings]

def name : Transform → String
  | .removeUnusedImports => "remove-unused-imports"
  | .removeConsoleCalls => "remove-console-log"
  | .varToLet => "var-to-let"
  | .wrapAsyncBodies => "add-async-error-handling"
  | .extractStrings => "extract-strings"

def description : Transform → String
  | .removeUnusedImports => "Remove import bindings that are never referenced"
  | .removeConsoleCalls => "Remove console.log calls"
  | .varToLet => "Replace var declarations with let"
  | .wrapAsyncBodies => "Wrap async function bodies in try/catch"
  | .extractStrings => "List string literals (read-only)"

/-- A name in the form in which names are compared. Lowering the ASCII letters is enough: no name has a letter to
which a character outside ASCII is lowered. -/
def normalName (name : Text) : Text :=
  (Text.trim name).map fun char => if char = '_' then '-' else char.toLower

/-- Blanks around a name, letter case, and `_` for `-` make no difference. -/
def ofName (name : Text) : Except Fault Transform :=
  match all.find? fun transform => transform.name.toList == normalName name with
  | some transform => .ok transform
  | none => .error (.unknownTransform name)

/-- The text that a transform makes of a file. -/
def apply {m : Type → Type} [Monad m] (parser : Parser m) (transform : Transform) (options : Options)
    (file : SourceFile) : m (Report Text) :=
  let once (work : SourceTree → Report Text) : m (Report Text) := do
    let parsed ← file.parse parser
    return parsed.andThen work
  match transform with
  | .removeUnusedImports => once fun tree => (tree.removeUnusedImports options).map (·.getD tree.text)
  | .removeConsoleCalls => once fun tree => tree.removeConsoleCalls options
  | .varToLet => once SourceTree.varToLet
  | .wrapAsyncBodies => file.wrapAsyncBodies parser
  | .extractStrings => once SourceTree.extractStrings

end Transform

end ScriptTidy
