import ScriptTidy.Proofs.Text.Solid
import ScriptTidy.Transform.AsyncBodies

/-! The text that takes the place of a wrapped body: the statements moved in, and the guard around them. -/

set_option autoImplicit false

namespace ScriptTidy

open Text

-- A text with `unit` put behind some of its line breaks.
inductive Indented (unit : Text) : Text → Text → Prop where
  | nil : Indented unit [] []
  | kept (char : Char) {old new : Text} (rest : Indented unit old new) : Indented unit (char :: old) (char :: new)
  | moved {old new : Text} (rest : Indented unit old new) : Indented unit ('\n' :: old) ('\n' :: (unit ++ new))

theorem indent_lines_indented (unit : Text) (templates : List (Nat × Nat)) (text : Text) : ∀ offset,
    Indented unit text (indentLines unit templates offset text) := by
  induction text with
  | nil => exact fun _ => .nil
  | cons char rest ih =>
      intro offset
      simp only [indentLines]
      by_cases line : char = '\n'
      · rw [if_pos line, line]
        split
        · exact .kept '\n' (ih _)
        · exact .moved (ih _)
      · rw [if_neg line]
        exact .kept char (ih _)

-- Only the unit is added, so nothing changes for those who do not see it.
theorem indented_filter (wanted : Char → Bool) (unit old new : Text) (unseen : unit.filter wanted = [])
    (indented : Indented unit old new) : new.filter wanted = old.filter wanted := by
  induction indented with
  | nil => rfl
  | kept char rest ih => rw [List.filter_cons, List.filter_cons, ih]
  | moved rest ih => rw [List.filter_cons, List.filter_cons, List.filter_append, unseen, List.nil_append, ih]

-- What stands in a wrapped body in front of its statements, and behind them: on lines of its own.
def guardOpening (inner unit : Text) : Text := "\x7b\n".toList ++ inner ++ "try \x7b\n".toList ++ inner ++ unit

def guardClosing (base inner unit : Text) : Text :=
  '\n' :: inner ++ "\x7d catch (err) \x7b\n".toList ++ inner ++ unit ++ "console.error(err);\n".toList ++ inner ++
    "\x7d\n".toList ++ base ++ "\x7d".toList

def IsIndentation (text : Text) : Prop := text.all isIndent = true

theorem indentation_append (front back : Text) (one : IsIndentation front) (other : IsIndentation back) :
    IsIndentation (front ++ back) := by
  rw [IsIndentation, List.all_append, Bool.and_eq_true]
  exact ⟨one, other⟩

theorem own_indent_indentation (text : Text) (offset : Nat) (indent : Text) (own : text.ownIndent? offset = some indent) :
    IsIndentation indent := by
  unfold ownIndent? at own
  split at own
  next blank => exact Option.some.inj own ▸ blank
  next => cases own

namespace SourceTree

variable (tree : SourceTree)

theorem closing_indentation (body : Place) : IsIndentation (tree.closingIndent body) := by
  have line : IsIndentation (tree.text.lineIndent body.start) := List.all_takeWhile
  unfold closingIndent
  cases closingAnchor? body with
  | none => exact line
  | some anchor =>
      dsimp only
      split
      · exact line
      · refine indentation_append _ _ line (List.all_eq_true.mpr fun char member => ?_)
        rw [List.eq_of_mem_replicate member]
        rfl

theorem inner_indentation (base : Text) (first : Node) (indent : IsIndentation base) : IsIndentation (tree.innerIndent base first) := by
  have deeper : IsIndentation (base ++ defaultUnit) := indentation_append base defaultUnit indent rfl
  unfold innerIndent
  cases own : tree.text.ownIndent? first.start with
  | none => exact deeper
  | some found =>
      dsimp only
      split
      · exact own_indent_indentation tree.text first.start found own
      · exact deeper

theorem unit_indentation (base inner : Text) (indent : IsIndentation inner) : IsIndentation (indentUnit base inner) := by
  unfold indentUnit
  split
  · exact List.all_eq_true.mpr fun char member => List.all_eq_true.mp indent char (List.mem_of_mem_drop member)
  · rfl

-- One level of indentation in a body whose first child is given.
def bodyUnit (body : Place) (first : Node) : Text :=
  indentUnit (tree.closingIndent body) (tree.innerIndent (tree.closingIndent body) first)

def bodyOpening (body : Place) (first : Node) : Text :=
  guardOpening (tree.innerIndent (tree.closingIndent body) first) (tree.bodyUnit body first)

def bodyClosing (body : Place) (first : Node) : Text :=
  guardClosing (tree.closingIndent body) (tree.innerIndent (tree.closingIndent body) first) (tree.bodyUnit body first)

theorem body_unit_indentation (body : Place) (first : Node) : IsIndentation (tree.bodyUnit body first) :=
  unit_indentation _ _ (inner_indentation tree _ first (closing_indentation tree body))

-- The text of a wrapped body whose statements are a piece of the text.
theorem wrapped_body_text (body : Place) (first last : Node) (head : body.node.namedChildren.head? = some first)
    (ending : body.node.namedChildren.getLast? = some last) (start : tree.text.IsBoundary first.start)
    (stop : tree.text.IsBoundary last.stop) (ordered : first.start ≤ last.stop) :
    tree.wrappedBody body = tree.bodyOpening body first ++ indentLines (tree.bodyUnit body first) body.node.templateRanges
      first.start (tree.text.between first.start last.stop) ++ tree.bodyClosing body first := by
  obtain ⟨others, shape⟩ := List.head?_eq_some_iff.mp head
  have final : others.getLast?.getD first = last := by
    have both := List.getLast?_cons (a := first) (l := others)
    rw [← shape, ending] at both
    exact (Option.some.inj both).symm
  have piece := slice_of_boundaries tree.text first.start last.stop start stop ordered
  unfold wrappedBody
  rw [shape]
  dsimp only
  rw [final, piece]
  simp only [bodyOpening, bodyClosing, bodyUnit, guardOpening, guardClosing, Option.getD_some, List.append_assoc, List.cons_append]

end SourceTree

end ScriptTidy
