import ScriptTidy.Path

/-!
The dialects of source files, told by the file extension.
-/

set_option autoImplicit false

namespace ScriptTidy

inductive Dialect where
  | javaScript
  | jsx
  | typeScript
  | tsx
deriving DecidableEq, Repr

namespace Dialect

/-- Letter case is ignored. Lowering the ASCII letters is enough: the extensions below have none of the
letters to which a character outside ASCII is lowered. -/
def ofExtension? (extension : Text) : Option Dialect :=
  let lowered := String.ofList (extension.map Char.toLower)
  if lowered ∈ ["js", "mjs", "cjs"] then some .javaScript
  else if lowered = "jsx" then some .jsx
  else if lowered ∈ ["ts", "mts", "cts"] then some .typeScript
  else if lowered = "tsx" then some .tsx
  else none

def ofPath? (path : Path) : Option Dialect := path.extension?.bind ofExtension?

/-- The dialects in which names can stand for types. -/
def isTyped : Dialect → Bool
  | .javaScript | .jsx => false
  | .typeScript | .tsx => true

def name : Dialect → String
  | .javaScript => "javascript"
  | .jsx => "jsx"
  | .typeScript => "typescript"
  | .tsx => "tsx"

end Dialect

end ScriptTidy
