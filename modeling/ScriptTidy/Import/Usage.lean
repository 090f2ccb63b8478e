import ScriptTidy.Import.Binding

/-!
Deciding whether an imported name is used.

Names are matched by their text; there are no scopes, so a local variable of the same name counts as a use. A
name is used by a value reference, by a JSX element or attribute, or, in a typed dialect, by a type. Comments,
strings and the import statements themselves hold no uses.

The candidates of a file are collected once, so that each question is a look-up.
-/

set_option autoImplicit false

namespace ScriptTidy

/-- The kinds of nodes that can refer to a value by name. -/
def referenceKinds : List String := ["identifier", "shorthand_property_identifier"]

/-- The kinds of nodes that name a JSX element. -/
def elementKinds : List String := ["jsx_opening_element", "jsx_closing_element", "jsx_self_closing_element"]

/-- The kinds of declarations whose name introduces a type. -/
def typeDeclarationKinds : List String :=
  ["interface_declaration", "type_alias_declaration", "class_declaration", "abstract_class_declaration", "type_parameter"]

namespace Place

/-- The member name in `object.name`, or the key in `key: value`. -/
def isMemberOrKey (place : Place) : Bool :=
  match place.parent? with
  | none => false
  | some parent =>
      if parent.kind == "member_expression" then place.isField "property"
      else if parent.kind == "pair" || parent.kind == "pair_pattern" then place.isField "key"
      else false

/-- The name of a type where it is declared. -/
def isTypeDeclarationName (place : Place) : Bool :=
  match place.parent? with
  | none => false
  | some parent => typeDeclarationKinds.contains parent.kind && place.isField "name"

mutual
/-- The leftmost identifier of an element name, given the way up: `Menu` in `Menu.Item`. -/
def leftmostVia (above : List Step) : Node → Option Place
  | .mk label children =>
      if label.kind == "identifier" || label.kind == "jsx_identifier" then some ⟨.mk label children, above⟩
      else if label.kind == "member_expression" || label.kind == "nested_identifier" then
        (leftmostWhere (·.fields.contains "object") label above [] children).getD
          ((leftmostWhere (·.named) label above [] children).getD none)
      else none
/-- The leftmost identifier of the first child whose label satisfies `wanted`; none if there is no such child. -/
def leftmostWhere (wanted : Label → Bool) (parent : Label) (above : List Step) (passed : List Node) :
    List Node → Option (Option Place)
  | [] => none
  | child :: rest =>
      if wanted child.label then some (leftmostVia (⟨parent, passed, rest⟩ :: above) child)
      else leftmostWhere wanted parent above (child :: passed) rest
end

/-- The leftmost identifier of an element name. -/
def leftmost? (name : Place) : Option Place := leftmostVia name.steps name.node

end Place

/-- The names that a file uses. -/
structure Usage where
  /-- The nodes that can refer to a value, with their texts. -/
  references : List (Text × Place)
  /-- The names of JSX elements and attributes. -/
  markupNames : List Text
  typeNames : List Text

namespace SourceTree

/-- The name that a JSX element brings into use. -/
def elementName? (tree : SourceTree) (element : Place) : Option Text :=
  ((element.childByField? "name").bind Place.leftmost?).map fun name => tree.textOf name.node

/-- The name of a JSX attribute, unless it has a namespace. -/
def attributeName? (tree : SourceTree) (element : Place) : Option Text :=
  match element.namedChildren with
  | [] => none
  | name :: _ => if name.kind == "jsx_namespace_name" then none else some (tree.textOf name.node)

def markupNames (tree : SourceTree) : List Text :=
  (tree.places.filter fun place => elementKinds.contains place.kind).filterMap tree.elementName? ++
    (tree.find "jsx_attribute").filterMap tree.attributeName?

def typeNames (tree : SourceTree) : List Text :=
  ((tree.find "type_identifier").filter fun place =>
    !place.isTypeDeclarationName && !place.isUnder "import_statement").map fun place => tree.textOf place.node

/-- What a file uses; untyped dialects use no types. -/
def usage (tree : SourceTree) : Usage where
  references := (tree.places.filter fun place => referenceKinds.contains place.kind).map fun place =>
    (tree.textOf place.node, place)
  markupNames := tree.markupNames
  typeNames := if tree.dialect.isTyped then tree.typeNames else []

end SourceTree

namespace Usage

/-- Holds of a reference to a value other than the declaration itself. -/
def isValueReference (declaration place : Place) : Bool :=
  !place.isAt declaration && !place.isMemberOrKey && !place.isUnder "import_statement"

def isReferenced (usage : Usage) (binding : Binding) : Bool :=
  usage.references.any fun reference =>
    reference.1 == binding.localName && isValueReference binding.declaration reference.2

def isInMarkup (usage : Usage) (name : Text) : Bool := usage.markupNames.contains name

def isType (usage : Usage) (name : Text) : Bool := usage.typeNames.contains name

def isLive (usage : Usage) (binding : Binding) : Bool :=
  usage.isReferenced binding || usage.isInMarkup binding.localName || usage.isType binding.localName

end Usage

end ScriptTidy
