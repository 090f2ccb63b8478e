import ScriptTidy.Edit.Apply

/-!
Taking specifiers out of a braced import list.

The list is cut from the text. Each specifier owns the text from its own start, the comment lines above it
included, to the start of the next one, and the last one up to the end of its comma or of a comment that
follows on its line. So the specifiers that stay keep their commas, comments and layout.
-/

set_option autoImplicit false

namespace ScriptTidy

/-- A specifier and the text that it owns. -/
structure Region where
  specifier : Place
  start : Nat
  stop : Nat
deriving Repr

/-- The cuts of a list: what stands in front of the first region, the regions, and where the tail begins. -/
structure ListCuts where
  regions : List Region
  tail : Nat
deriving Repr

namespace SourceTree

/-- The node at which the comment lines directly above a node begin, or the node itself. A comment on the line
on which the sibling in front of it ends belongs to that sibling. -/
def commentHead (tree : SourceTree) (head : Node) : List Node → Node
  | [] => head
  | comment :: others =>
      match others with
      | [] => head
      | previous :: _ =>
          if comment.isComment ∧ tree.startRow comment ≠ tree.stopRow previous then commentHead tree comment others
          else head

/-- Where the text of a specifier begins. -/
def regionStart (tree : SourceTree) (specifier : Place) : Nat :=
  tree.text.lineStartIfIndented (tree.commentHead specifier.node specifier.before).start

/-- The comma right behind a specifier. -/
def commaAfter? (specifier : Place) : Option Node := specifier.after.head?.filter (·.kind == ",")

/-- Where the text behind the last specifier begins: behind its comma, or behind a comment that follows on the
line on which the specifier ends. -/
def tailStart (tree : SourceTree) (last : Place) : Nat :=
  let behind := if (commaAfter? last).isSome then last.after.drop 1 else last.after
  let stop := match commaAfter? last with
    | some comma => comma.stop
    | none => last.stop
  match behind with
  | [] => stop
  | next :: _ => if next.isComment ∧ tree.startRow next = tree.stopRow last.node then next.stop else stop

/-- The regions of specifiers, each up to the start of the next one and the last up to `tail`. -/
def regionsTo (tree : SourceTree) (tail : Nat) : List Place → List Region
  | [] => []
  | specifier :: rest =>
      let stop := match rest with
        | [] => tail
        | next :: _ => tree.regionStart next
      ⟨specifier, tree.regionStart specifier, stop⟩ :: regionsTo tree tail rest

/-- The cuts of a list of specifiers; an empty list has none. -/
def listCuts? (tree : SourceTree) (specifiers : List Place) : Option ListCuts :=
  specifiers.getLast?.map fun last =>
    let tail := tree.tailStart last
    ⟨tree.regionsTo tail specifiers, tail⟩

/-- The part of a text from `start` on that stands between two offsets of the file. -/
def copyWithin (text : Text) (start first last : Nat) : Except Fault Text :=
  if start ≤ first then Edits.copy text (first - start) (last - start) else .error .badOffset

/-- The text of the region that becomes the last one: without the blanks at its end and, unless the list ends
with a comma, without its comma. -/
def closingText (tree : SourceTree) (endsWithComma : Bool) (region : Region) : Except Fault Text := do
  let shown := Text.trimEnd (← Edits.copy tree.text region.start region.stop)
  match (if endsWithComma then none else commaAfter? region.specifier) with
  | none => return shown
  | some comma =>
      let front ← copyWithin shown region.start region.start comma.start
      let back ← copyWithin shown region.start comma.stop (region.start + Text.bytes shown)
      return front ++ back

/-- The texts of the regions that stay. `last` is the last specifier of the whole list. -/
def renderRegions (tree : SourceTree) (last : Place) : List Region → Except Fault Text
  | [] => .ok []
  | [region] =>
      if region.specifier.isAt last then Edits.copy tree.text region.start region.stop
      else tree.closingText (commaAfter? last).isSome region
  | region :: rest => do
      let text ← Edits.copy tree.text region.start region.stop
      return text ++ (← renderRegions tree last rest)

/-- The text of a braced list without the specifiers that are `dead`; none if no specifier stays. A list from
which nothing is taken keeps its text. -/
def renderList (tree : SourceTree) (dead : Place → Bool) (list : Place) : Except Fault (Option Text) :=
  let specifiers := list.children.filter (·.kind == "import_specifier")
  let kept := specifiers.filter fun specifier => !dead specifier
  if kept.isEmpty then .ok none
  else if kept.length = specifiers.length then .ok (some (tree.textOf list.node))
  else
    match tree.listCuts? specifiers, specifiers.head?, specifiers.getLast? with
    | some cuts, some first, some last => do
        let front ← Edits.copy tree.text list.start (tree.regionStart first)
        let body ← tree.renderRegions last (cuts.regions.filter fun region => !dead region.specifier)
        let tail ← Edits.copy tree.text cuts.tail list.stop
        return some (front ++ body ++ tail)
    | _, _, _ => .ok none

end SourceTree

end ScriptTidy
