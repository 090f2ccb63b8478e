import ScriptTidy.Edit.Apply

/-!
Turning `var` into `let`.

Only the keyword changes, in declarations and in the heads of loops over keys or values.
-/

set_option autoImplicit false

namespace ScriptTidy

def letKeyword : Text := "let".toList

namespace Place

/-- The `var` of a declaration or of a loop head. -/
def isVarKeyword (place : Place) : Bool :=
  place.kind == "var" &&
    match place.parent? with
    | none => false
    | some parent =>
        parent.kind == "variable_declaration" || (parent.kind == "for_in_statement" && place.isField "kind")

end Place

namespace SourceTree

def varKeywords (tree : SourceTree) : List Place := tree.places.filter (·.isVarKeyword)

/-- The text with `let` in place of `var`. -/
def varToLet (tree : SourceTree) : Report Text :=
  let keywords := tree.varKeywords
  if keywords.isEmpty then .done tree.text
  else
    ⟨[.changedKeywords tree.path keywords.length],
      tree.print (keywords.map fun keyword => .replace keyword.node letKeyword)⟩

end SourceTree

end ScriptTidy
