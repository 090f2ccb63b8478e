import ScriptTidy.Event
import ScriptTidy.Tree.Place

/-!
Source files and their parsed trees.

The grammar is not part of this library: a `Parser` answers with a tree for a text of a dialect. A tree in
which the grammar did not accept everything is refused, since edits around such a node could break the file.
-/

set_option autoImplicit false

namespace ScriptTidy

structure SourceFile where
  path : Path
  text : Text
deriving DecidableEq, Repr

/-- The tree that a grammar gives for a text, and whether it holds anything not accepted. -/
structure Parsed where
  hasError : Bool
  root : Node
deriving Repr

/-- Answers with the tree of a text. -/
abbrev Parser (m : Type → Type) := Dialect → Text → m Parsed

structure SourceTree where
  path : Path
  dialect : Dialect
  text : Text
  root : Node
deriving Repr

namespace SourceFile

/-- The dialect that the path tells. -/
def dialect (file : SourceFile) : Except Fault Dialect :=
  match Dialect.ofPath? file.path with
  | some dialect => .ok dialect
  | none => .error (.unsupportedFileType (file.path.extension?.getD []))

/-- The tree of a file, unless the grammar did not accept the text. The first node that it did not accept is
named, or the root if none is marked. -/
def accept (file : SourceFile) (dialect : Dialect) (parsed : Parsed) : Except Fault SourceTree :=
  if parsed.hasError then
    let place := file.text.position (parsed.root.firstFlaw?.getD parsed.root).start
    .error (.malformed file.path place.1 place.2)
  else .ok ⟨file.path, dialect, file.text, parsed.root⟩

def parse {m : Type → Type} [Monad m] (parser : Parser m) (file : SourceFile) : m (Report SourceTree) :=
  match file.dialect with
  | .error fault => return .fail fault
  | .ok dialect => do
      let parsed ← parser dialect file.text
      return ⟨[.parsing file.path dialect file.text.bytes], file.accept dialect parsed⟩

end SourceFile

namespace SourceTree

/-- The text that a node covers. -/
def textOf (tree : SourceTree) (node : Node) : Text := (tree.text.slice? node.start node.stop).getD []

def startRow (tree : SourceTree) (node : Node) : Nat := tree.text.row node.start

def stopRow (tree : SourceTree) (node : Node) : Nat := tree.text.row node.stop

def rootPlace (tree : SourceTree) : Place := ⟨tree.root, []⟩

/-- All places in document order. -/
def places (tree : SourceTree) : List Place := tree.root.places

def find (tree : SourceTree) (kind : String) : List Place := tree.places.filter (·.kind == kind)

/-- The statements at the top, without comments and a line that names an interpreter. -/
def statements (tree : SourceTree) : List Place :=
  tree.rootPlace.namedChildren.filter fun place => !place.node.isComment && place.kind != "hash_bang_line"

def firstStatement? (tree : SourceTree) : Option Place := tree.statements.head?

/-- The comments between a place and the sibling in front of it that is no comment. The one next to that
sibling is left out if it starts on the line on which the sibling ends. -/
def leadingComments (tree : SourceTree) (place : Place) : List Node :=
  let comments := (place.before.takeWhile (·.isComment)).reverse
  match place.before.dropWhile (·.isComment), comments with
  | previous :: _, first :: rest =>
      if tree.startRow first = tree.stopRow previous then rest else first :: rest
  | _, _ => comments

/-- The comment right behind a place that starts on the line on which the place ends. -/
def trailingComment? (tree : SourceTree) (place : Place) : Option Node :=
  match place.after with
  | [] => none
  | next :: _ => if next.isComment ∧ tree.startRow next = tree.stopRow place.node then some next else none

/-- Where a place begins together with its leading comments. -/
def attachedStart (tree : SourceTree) (place : Place) : Nat :=
  match tree.leadingComments place with
  | [] => place.start
  | first :: _ => first.start

/-- Where a place ends together with its trailing comment. -/
def attachedStop (tree : SourceTree) (place : Place) : Nat :=
  match tree.trailingComment? place with
  | none => place.stop
  | some comment => comment.stop

end SourceTree

end ScriptTidy
