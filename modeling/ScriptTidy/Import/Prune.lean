import ScriptTidy.Import.Binding
import ScriptTidy.Import.NamedList

/-!
Taking dead bindings out of an import statement.
-/

set_option autoImplicit false

namespace ScriptTidy

/-- What happens to an import statement whose dead bindings are taken out. -/
inductive Pruning where
  | untouched
  /-- Some element stays: the clause is replaced. -/
  | rewritten (edit : Edit)
  /-- No element stays: the statement goes. -/
  | removed (edit : Edit)
deriving Repr

namespace Pruning

def edits : Pruning → Edits
  | .untouched => []
  | .rewritten edit => [edit]
  | .removed edit => [edit]

def isUntouched : Pruning → Bool
  | .untouched => true
  | _ => false

def isRemoved : Pruning → Bool
  | .removed _ => true
  | _ => false

end Pruning

namespace SourceTree

/-- The text of one element of a clause, if it stays. -/
def renderElement (tree : SourceTree) (dead : Place → Bool) (child : Place) : Except Fault (Option Text) :=
  if child.kind == "identifier" || child.kind == "namespace_import" then
    .ok (if dead child then none else some (tree.textOf child.node))
  else if child.kind == "named_imports" then tree.renderList dead child
  else .ok none

/-- The texts of the elements that stay. -/
def renderElements (tree : SourceTree) (dead : Place → Bool) : List Place → Except Fault (List Text)
  | [] => .ok []
  | child :: rest => do
      let text ← tree.renderElement dead child
      return text.toList ++ (← renderElements tree dead rest)

/-- The text of a clause without its dead elements; none if no element stays. -/
def renderClause (tree : SourceTree) (dead : Place → Bool) (clause : Place) : Except Fault (Option Text) := do
  match ← tree.renderElements dead clause.namedChildren with
  | [] => return none
  | texts => return some (List.intersperse [',', ' '] texts).flatten

/-- Takes the dead bindings out of a declaration. -/
def prune (tree : SourceTree) (declaration : ImportDeclaration) (dead : List Binding) : Except Fault Pruning :=
  match declaration.clause with
  | none => .ok .untouched
  | some clause =>
      if dead.isEmpty then .ok .untouched
      else do
        match ← tree.renderClause (fun place => dead.any (·.specifier.isAt place)) clause with
        | some text => return .rewritten (.replace clause.node text)
        | none => return .removed (.removeStatement tree declaration.statement)

end SourceTree

end ScriptTidy
