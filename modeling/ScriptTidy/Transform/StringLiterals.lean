import ScriptTidy.Source

/-!
Listing the string literals of a file, the sources of imports and the values of JSX attributes among them.
-/

set_option autoImplicit false

namespace ScriptTidy

structure StringLiteral where
  /-- The text between the quotes, escapes as they are written. -/
  value : Text
  line : Nat
  column : Nat
deriving DecidableEq, Repr

namespace StringLiteral

/-- A text without its quotes, if it has the same one at both ends. -/
def unquote (text : Text) : Text :=
  match text with
  | [] => []
  | first :: rest =>
      if first = '\x22' ∨ first = '\x27' then
        if rest.getLast? = some first then rest.dropLast else text
      else text

end StringLiteral

namespace SourceTree

/-- The string literals in document order, each with the place of its opening quote. -/
def stringLiterals (tree : SourceTree) : List StringLiteral :=
  (tree.find "string").map fun place =>
    let position := tree.text.position place.start
    ⟨StringLiteral.unquote (tree.textOf place.node), position.1, position.2⟩

/-- Reports each literal; the text stays as it is. -/
def extractStrings (tree : SourceTree) : Report Text :=
  ⟨tree.stringLiterals.map fun literal => .foundString tree.path literal.line literal.column literal.value,
    .ok tree.text⟩

end SourceTree

end ScriptTidy
