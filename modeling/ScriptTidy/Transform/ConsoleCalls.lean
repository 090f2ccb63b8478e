import ScriptTidy.Edit.Apply
import ScriptTidy.Options.Basic

/-!
Removing calls such as `console.log(...)`.

How a call goes depends on its place. A call that is a whole statement of a list goes with its statement; one
that is a whole statement elsewhere, such as the branch of an `if`, or the body of an arrow function becomes an
empty block; any other becomes a value that is undefined. A call within a removed call needs no edit.
-/

set_option autoImplicit false

namespace ScriptTidy

/-- The kinds of nodes from which a statement can be taken without changing what its neighbours mean. -/
def statementListKinds : List String :=
  ["program", "statement_block", "switch_case", "switch_default", "class_static_block"]

def emptyBlock : Text := ['{', '}']

def undefinedValue : Text := "void 0".toList

namespace SourceTree

/-- A call of a method of `console` that the options name. -/
def isConsoleCall (tree : SourceTree) (options : Options) (place : Place) : Bool :=
  place.kind == "call_expression" &&
    match place.node.childByField? "function" with
    | none => false
    | some callee =>
        callee.kind == "member_expression" &&
          match callee.childByField? "object", callee.childByField? "property" with
          | some object, some property =>
              object.kind == "identifier" && tree.textOf object == "console".toList &&
                options.stripsMethod (tree.textOf property)
          | _, _ => false

/-- The console calls that do not lie within another one. -/
def consoleCalls (tree : SourceTree) (options : Options) : List Place :=
  Place.outermost (tree.isConsoleCall options) tree.places

/-- The edit that takes a call out. The root is no call, so a call has a parent. -/
def removeCall (tree : SourceTree) (call : Place) : Option Edit :=
  call.parent?.map fun parent =>
    if parent.kind == "expression_statement" then
      if (parent.parent?.map (·.kind)).any statementListKinds.contains then .removeStatement tree parent
      else .replace parent.node emptyBlock
    else if parent.kind == "arrow_function" && call.isField "body" then .replace call.node emptyBlock
    else .replace call.node undefinedValue

/-- The text without console calls. -/
def removeConsoleCalls (tree : SourceTree) (options : Options) : Report Text :=
  let calls := tree.consoleCalls options
  if calls.isEmpty then .done tree.text
  else ⟨[.removedCalls tree.path calls.length], tree.print (calls.filterMap tree.removeCall)⟩

end SourceTree

end ScriptTidy
