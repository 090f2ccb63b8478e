import ScriptTidy.Source

/-!
Import statements and the names they bind.

An import clause has up to three kinds of elements: a default name, a namespace name and the specifiers of a
braced list. A specifier whose local name is no identifier binds nothing.
-/

set_option autoImplicit false

namespace ScriptTidy

/-- How a name is imported: as the module's default, by its own name, or as the module itself. -/
inductive BindingKind where
  | default
  | named
  | wholeModule
deriving DecidableEq, Repr

structure Binding where
  /-- The name by which the file knows what is imported. -/
  localName : Text
  kind : BindingKind
  /-- The identifier that declares the name. -/
  declaration : Place
  /-- The element of the clause that goes with the binding. -/
  specifier : Place
deriving Repr

/-- One element of an import clause. -/
inductive ClauseElement where
  | bound (binding : Binding)
  | nameless (specifier : Place)
deriving Repr

structure ImportDeclaration where
  statement : Place
  /-- The clause, which an import for its effects alone lacks. -/
  clause : Option Place
  /-- The name of the module, without quotes. -/
  source : Text
  elements : List ClauseElement
deriving Repr

namespace ImportDeclaration

/-- The bindings in document order. -/
def bindings (declaration : ImportDeclaration) : List Binding :=
  declaration.elements.filterMap fun
    | .bound binding => some binding
    | .nameless _ => none

/-- The specifiers that bind no name, in document order. -/
def nameless (declaration : ImportDeclaration) : List Place :=
  declaration.elements.filterMap fun
    | .bound _ => none
    | .nameless specifier => some specifier

def isForEffects (declaration : ImportDeclaration) : Bool := declaration.bindings.isEmpty

end ImportDeclaration

namespace SourceTree

/-- The binding that an identifier of a clause element declares. -/
def bind (tree : SourceTree) (kind : BindingKind) (specifier declaration : Place) : Binding :=
  ⟨tree.textOf declaration.node, kind, declaration, specifier⟩

/-- The element that a specifier of a braced list makes. Its local name is the alias, or else the name. -/
def specifierElement (tree : SourceTree) (specifier : Place) : ClauseElement :=
  match (specifier.childByField? "alias").or (specifier.childByField? "name") with
  | some name => if name.kind == "identifier" then .bound (tree.bind .named specifier name) else .nameless specifier
  | none => .nameless specifier

/-- The elements that one child of a clause makes. -/
def childElements (tree : SourceTree) (child : Place) : List ClauseElement :=
  if child.kind == "identifier" then [.bound (tree.bind .default child child)]
  else if child.kind == "namespace_import" then
    match child.children.find? (·.kind == "identifier") with
    | some name => [.bound (tree.bind .wholeModule child name)]
    | none => []
  else if child.kind == "named_imports" then
    (child.children.filter (·.kind == "import_specifier")).map tree.specifierElement
  else []

def clauseElements (tree : SourceTree) (clause : Place) : List ClauseElement :=
  clause.children.flatMap tree.childElements

def isQuoteMark (char : Char) : Bool := char == '\x22' || char == '\x27'

/-- The name in a module string: all quotes at both ends are cut off. -/
def moduleName (text : Text) : Text := Text.trimEndWhile isQuoteMark (text.dropWhile isQuoteMark)

/-- The parts of an import statement. Of several clauses or module strings the last one counts. -/
def importDeclaration (tree : SourceTree) (statement : Place) : ImportDeclaration :=
  let last (kind : String) : Option Place := (statement.children.filter (·.kind == kind)).getLast?
  let clause := last "import_clause"
  { statement
    clause
    source := match last "string" with
      | some string => moduleName (tree.textOf string.node)
      | none => []
    elements := match clause with
      | some clause => tree.clauseElements clause
      | none => [] }

/-- The import statements of a file in document order. -/
def importDeclarations (tree : SourceTree) : List ImportDeclaration :=
  (tree.find "import_statement").map tree.importDeclaration

end SourceTree

end ScriptTidy
