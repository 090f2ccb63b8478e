import ScriptTidy.Import.Header
import ScriptTidy.Import.Interpreter
import ScriptTidy.Import.Prune
import ScriptTidy.Import.Usage
import ScriptTidy.Options.Basic

/-!
Removing imported names that are never used.

Names that are exempt stay. A statement left without names goes, but not one that never had any. The header
comments and the `#!` line stay at the head of the file.
-/

set_option autoImplicit false

namespace ScriptTidy

/-- The dead bindings of a declaration, and what happens to it. -/
structure PrunedDeclaration where
  declaration : ImportDeclaration
  dead : List Binding
  pruning : Pruning

namespace SourceTree

/-- Exempt names are kept whether they are used or not. -/
def isRemovable (options : Options) (usage : Usage) (binding : Binding) : Bool :=
  !options.isExempt binding.localName && !usage.isLive binding

/-- The bindings of a declaration that are taken out. -/
def deadBindings (options : Options) (usage : Usage) (declaration : ImportDeclaration) : List Binding :=
  declaration.bindings.filter (isRemovable options usage)

/-- The declarations that bind names, each with its dead bindings. -/
def candidates (tree : SourceTree) (options : Options) : List (ImportDeclaration × List Binding) :=
  let usage := tree.usage
  (tree.importDeclarations.filter (!·.isForEffects)).map fun declaration =>
    (declaration, deadBindings options usage declaration)

/-- What is reported of the declarations: specifiers without a name, and then the dead bindings. -/
def importEvents (tree : SourceTree) (options : Options) : List Event :=
  (tree.importDeclarations.flatMap fun declaration =>
      declaration.nameless.map fun specifier => .skippedSpecifier (tree.textOf specifier.node)) ++
    (tree.candidates options).flatMap fun (declaration, dead) =>
      dead.map fun binding => .removingImport tree.path binding.localName declaration.source

/-- Prunes all declarations. -/
def pruneAll (tree : SourceTree) : List (ImportDeclaration × List Binding) → Except Fault (List PrunedDeclaration)
  | [] => .ok []
  | (declaration, dead) :: rest => do
      let pruning ← tree.prune declaration dead
      return ⟨declaration, dead, pruning⟩ :: (← pruneAll tree rest)

/-- Holds of the statements that pruning removes. -/
def isRemovedBy (pruned : List PrunedDeclaration) (statement : Place) : Bool :=
  pruned.any fun item => item.pruning.isRemoved && item.declaration.statement.isAt statement

/-- The edits of pruned declarations, between the one that takes out the `#!` line and the one that puts the
header back. -/
def pruneEdits (tree : SourceTree) (pruned : List PrunedDeclaration) (restored : Option Edit) : Edits :=
  ((InterpreterLine.find? tree).map (·.strip tree)).toList ++ pruned.flatMap (·.pruning.edits) ++ restored.toList

/-- The edit that puts the header back, if its statement goes. -/
def restoredHeader (tree : SourceTree) (pruned : List PrunedDeclaration) : Except Fault (Option Edit) :=
  match Header.capture? tree with
  | none => .ok none
  | some header => header.restore? tree (isRemovedBy pruned)

/-- The text without unused imports; none if nothing is removed. -/
def removeUnusedImports (tree : SourceTree) (options : Options) : Report (Option Text) :=
  let reported := tree.importEvents options
  match tree.pruneAll (tree.candidates options) with
  | .error fault => ⟨reported, .error fault⟩
  | .ok pruned =>
      if pruned.all (·.pruning.isUntouched) then ⟨reported, .ok none⟩
      else
        match tree.restoredHeader pruned with
        | .error fault => ⟨reported, .error fault⟩
        | .ok restored =>
            let moved := if restored.isSome then [.movedHeader tree.path] else []
            ⟨reported ++ moved, (tree.print (tree.pruneEdits pruned restored)).map fun text =>
              some (match InterpreterLine.find? tree with
                | some line => line.prepend text
                | none => text)⟩

end SourceTree

end ScriptTidy
