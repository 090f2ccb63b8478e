import ScriptTidy.Edit.Apply

/-!
Wrapping the bodies of async functions in `try` and `catch`.

A body that is empty, or a single `try` statement already, is left alone. Nested functions take one pass for
each level: the outer bodies are wrapped, and the result is parsed again.
-/

set_option autoImplicit false

namespace ScriptTidy

def functionKinds : List String :=
  ["function_declaration", "function_expression", "generator_function_declaration", "generator_function",
    "arrow_function", "method_definition"]

/-- One level of indentation where the text does not show another. -/
def defaultUnit : Text := [' ', ' ']

namespace Node

/-- A function with the word `async` in front of its body. -/
def isAsyncFunction (node : Node) : Bool :=
  functionKinds.contains node.kind &&
    (node.children.takeWhile (·.kind != "statement_block")).any (·.kind == "async")

/-- Holds of a block that has statements other than one `try` statement. -/
def needsWrapping (block : Node) : Bool :=
  match block.namedChildren.filter (!·.isComment) with
  | [] => false
  | [only] => only.kind != "try_statement"
  | _ => true

/-- The byte ranges of the template strings in a node. -/
def templateRanges (node : Node) : List (Nat × Nat) :=
  (node.preorder.filter (·.kind == "template_string")).map fun template => (template.start, template.stop)

end Node

namespace Place

/-- The body of an async function that needs to be wrapped. -/
def isUnwrappedBody (place : Place) : Bool :=
  place.kind == "statement_block" && place.node.needsWrapping && place.isField "body" &&
    match place.parent? with
    | none => false
    | some function => function.node.isAsyncFunction

end Place

/-- Holds if `offset` lies inside one of the ranges. -/
def insideAny (ranges : List (Nat × Nat)) (offset : Nat) : Bool :=
  ranges.any fun range => range.1 < offset && offset < range.2

/-- Puts `unit` in front of each line behind the first one, unless the line is blank or begins inside a template
string. The text begins at `offset`. -/
def indentLines (unit : Text) (templates : List (Nat × Nat)) (offset : Nat) : Text → Text
  | [] => []
  | char :: rest =>
      let next := offset + char.utf8Size
      if char = '\n' then
        let kept := (rest.takeWhile (· != '\n')).all isBlank || insideAny templates next
        char :: (if kept then [] else unit) ++ indentLines unit templates next rest
      else char :: indentLines unit templates next rest

namespace SourceTree

/-- What a closing brace stands under when a body is written in the middle of a line: the property, or the
method, that holds the function. -/
def closingAnchor? (body : Place) : Option Place :=
  body.parent?.bind fun function =>
    match function.parent?.filter (·.kind == "pair") with
    | some pair => some pair
    | none => if function.kind == "method_definition" then some function else none

/-- The indentation of the closing brace: that of the line on which the body opens, or more if the anchor
begins later on its line. -/
def closingIndent (tree : SourceTree) (body : Place) : Text :=
  let indent := tree.text.lineIndent body.start
  match closingAnchor? body with
  | none => indent
  | some anchor =>
      if (tree.text.ownIndent? anchor.start).isSome then indent
      else indent ++ List.replicate ((tree.text.lineBefore anchor.start).length - indent.length) ' '

/-- The indentation of the body's statements: as they have it if that is deeper than `base`. -/
def innerIndent (tree : SourceTree) (base : Text) (first : Node) : Text :=
  match tree.text.ownIndent? first.start with
  | some indent => if base.length < indent.length then indent else base ++ defaultUnit
  | none => base ++ defaultUnit

/-- One level of indentation: what `inner` has beyond `base`. -/
def indentUnit (base inner : Text) : Text :=
  if base.isPrefixOf inner && inner.length != base.length then inner.drop base.length else defaultUnit

/-- The text that takes the place of a body. -/
def wrappedBody (tree : SourceTree) (body : Place) : Text :=
  match body.node.namedChildren with
  | [] => tree.textOf body.node
  | first :: others =>
      let last := others.getLast?.getD first
      let base := tree.closingIndent body
      let inner := tree.innerIndent base first
      let unit := indentUnit base inner
      let statements := indentLines unit body.node.templateRanges first.start
        ((tree.text.slice? first.start last.stop).getD [])
      "\x7b\n".toList ++ inner ++ "try \x7b\n".toList ++ inner ++ unit ++ statements ++ '\n' :: inner ++
        "\x7d catch (err) \x7b\n".toList ++ inner ++ unit ++ "console.error(err);\n".toList ++ inner ++
        "\x7d\n".toList ++ base ++ "\x7d".toList

/-- The bodies that a pass wraps. -/
def unwrappedBodies (tree : SourceTree) : List Place := Place.outermost Place.isUnwrappedBody tree.places

/-- The text after one pass. -/
def wrapPass (tree : SourceTree) : Except Fault Text :=
  tree.print (tree.unwrappedBodies.map fun body => .replace body.node (tree.wrappedBody body))

end SourceTree

/-- A text and the number of bodies wrapped on the way to it. -/
structure Wrapped where
  text : Text
  count : Nat
deriving DecidableEq, Repr

namespace SourceFile

variable {m : Type → Type} [Monad m]

/-- Goes on wrapping a parsed file for at most `passes` passes. -/
def wrapFrom (parser : Parser m) (passes : Nat) (wrapped : Nat) (tree : SourceTree) : m (Report Wrapped) :=
  if tree.unwrappedBodies.isEmpty then return .done ⟨tree.text, wrapped⟩
  else
    match passes, tree.wrapPass with
    | _, .error fault => return .fail fault
    | 0, .ok _ => return .fail (.unsettled tree.path)
    | passes + 1, .ok text => do
        let parsed ← SourceFile.parse parser ⟨tree.path, text⟩
        match parsed.result with
        | .error fault => return ⟨parsed.events, .error fault⟩
        | .ok next =>
            let rest ← wrapFrom parser passes (wrapped + tree.unwrappedBodies.length) next
            return rest.after parsed.events

/-- The text with all bodies wrapped. A pass wraps one body at least and brings no new one, so there are no more
passes than nodes at the start. -/
def wrapAsyncBodies (parser : Parser m) (file : SourceFile) : m (Report Text) := do
  let parsed ← file.parse parser
  match parsed.result with
  | .error fault => return ⟨parsed.events, .error fault⟩
  | .ok tree =>
      let report ← wrapFrom parser tree.places.length 0 tree
      return (report.andThen fun wrapped =>
        ⟨if 0 < wrapped.count then [.wrappedBodies file.path wrapped.count] else [], .ok wrapped.text⟩).after
          parsed.events

end SourceFile

end ScriptTidy
