import ScriptTidy.Proofs.Transform.Bodies
import ScriptTidy.Proofs.Tree.Family

/-! A pass as the edits that it comes to: two for the guard of each body, and one for each line that moves. -/

set_option autoImplicit false

namespace ScriptTidy

open Text Place Edit Edits

-- The line starts behind which `indentLines` puts its unit. The text begins at `offset`.
def movedLines (templates : List (Nat × Nat)) (offset : Nat) : Text → List Nat
  | [] => []
  | char :: rest =>
      let next := offset + char.utf8Size
      if char = '\n' ∧ ¬ ((rest.takeWhile (· != '\n')).all isBlank || insideAny templates next) = true then
        next :: movedLines templates next rest
      else movedLines templates next rest

def lineEdits (unit : Text) (templates : List (Nat × Nat)) (offset : Nat) (text : Text) : Edits :=
  (movedLines templates offset text).map fun line => insert line unit

-- A character ends the line in front of one that moves, or it is kept as it is.
theorem line_cases (unit : Text) (templates : List (Nat × Nat)) (offset : Nat) (char : Char) (rest : Text) :
    (char = '\n' ∧ insideAny templates (offset + char.utf8Size) = false ∧
        movedLines templates offset (char :: rest) =
          (offset + char.utf8Size) :: movedLines templates (offset + char.utf8Size) rest ∧
        indentLines unit templates offset (char :: rest) =
          char :: (unit ++ indentLines unit templates (offset + char.utf8Size) rest)) ∨
      (movedLines templates offset (char :: rest) = movedLines templates (offset + char.utf8Size) rest ∧
        indentLines unit templates offset (char :: rest) = char :: indentLines unit templates (offset + char.utf8Size) rest) := by
  simp only [movedLines, indentLines]
  by_cases line : char = '\n'
  · by_cases kept : ((rest.takeWhile (· != '\n')).all isBlank || insideAny templates (offset + char.utf8Size)) = true
    · rw [if_neg fun moved => moved.2 kept, if_pos line, if_pos kept]
      exact .inr ⟨rfl, rfl⟩
    · rw [if_pos ⟨line, kept⟩, if_pos line, if_neg kept]
      have out : insideAny templates (offset + char.utf8Size) = false :=
        Bool.eq_false_iff.mpr fun inside => kept (by rw [inside, Bool.or_true])
      exact .inl ⟨line, out, rfl, rfl⟩
  · rw [if_neg fun moved => line moved.1, if_neg line]
    exact .inr ⟨rfl, rfl⟩

theorem moved_lines_mem (templates : List (Nat × Nat)) (text : Text) : ∀ offset, ∀ line ∈ movedLines templates offset text,
    insideAny templates line = false ∧ ∃ front back, text = front ++ '\n' :: back ∧ line = offset + bytes (front ++ ['\n']) := by
  induction text with
  | nil => exact fun _ _ member => absurd member List.not_mem_nil
  | cons char rest ih =>
      intro offset line member
      have deeper (later : line ∈ movedLines templates (offset + char.utf8Size) rest) : insideAny templates line = false ∧
          ∃ front back, char :: rest = front ++ '\n' :: back ∧ line = offset + bytes (front ++ ['\n']) := by
        obtain ⟨out, front, back, shape, place⟩ := ih _ line later
        exact ⟨out, char :: front, back, by rw [shape]; rfl, by rw [place, List.cons_append, bytes_cons, Nat.add_assoc]⟩
      rcases line_cases [] templates offset char rest with ⟨rfl, out, moved, _⟩ | ⟨kept, _⟩
      · rw [moved] at member
        rcases List.mem_cons.mp member with same | later
        · exact ⟨same ▸ out, [], rest, rfl, same⟩
        · exact deeper later
      · exact deeper (kept ▸ member)

section Lines

variable (text unit : Text) (templates : List (Nat × Nat)) (behind : Edits)

-- By induction on the piece: putting the unit at each of the line starts is indenting the piece. The edits behind it are
-- any that stand in order from its end.
theorem lines_spliced (middle : Text) : ∀ front back, text = front ++ (middle ++ back) →
    InOrder text (bytes front + bytes middle) behind →
      InOrder text (bytes front) (lineEdits unit templates (bytes front) middle ++ behind) ∧
        spliced text text.bytes (bytes front) (lineEdits unit templates (bytes front) middle ++ behind) =
          indentLines unit templates (bytes front) middle ++ spliced text text.bytes (bytes front + bytes middle) behind := by
  induction middle with
  | nil => exact fun front _ _ ordered => ⟨ordered, rfl⟩
  | cons char rest ih =>
      intro front back shape ordered
      have size : bytes (front ++ [char]) = bytes front + char.utf8Size := by simp
      have whole : text = (front ++ [char]) ++ (rest ++ back) := by simp [shape]
      have first : text.IsBoundary (bytes front) := by rw [shape]; exact boundary_append _ _
      have next : text.IsBoundary (bytes front + char.utf8Size) := by rw [← size, whole]; exact boundary_append _ _
      have item : text.between (bytes front) (bytes front + char.utf8Size) = [char] := by
        have piece := between_parts front [char] (rest ++ back)
        rw [shape]
        simpa using piece
      have reach : bytes (front ++ [char]) + bytes rest = bytes front + bytes (char :: rest) := by
        rw [size, bytes_cons, Nat.add_assoc]
      obtain ⟨later, same⟩ := ih (front ++ [char]) back whole (reach ▸ ordered)
      rw [size] at later same
      rw [size] at reach
      rw [reach] at same
      have wide := Nat.le_add_right (bytes front) char.utf8Size
      rcases line_cases unit templates (bytes front) char rest with ⟨_, _, moved, indented⟩ | ⟨kept, indented⟩
      · rw [indented, lineEdits, moved]
        refine ⟨⟨wide, ⟨Nat.le_refl _, next, next⟩, later⟩, ?_⟩
        show text.between (bytes front) (bytes front + char.utf8Size) ++ unit ++
          spliced text text.bytes (bytes front + char.utf8Size) (lineEdits unit templates (bytes front + char.utf8Size) rest ++ behind) = _
        rw [item, same]
        simp only [List.cons_append, List.append_assoc, List.nil_append]
      · rw [indented, lineEdits, kept, ← lineEdits]
        refine ⟨in_order_sooner text _ _ _ wide later, ?_⟩
        rw [spliced_from text text.bytes (bytes front) (bytes front + char.utf8Size) _ first next (boundary_bytes text) wide
          (boundary_le text _ next) later, item, same]
        rfl

end Lines

namespace SourceTree

variable (tree : SourceTree)

-- What a pass does to a body.
def bodyEdits (body : Place) : Edits :=
  match body.node.namedChildren.head?, body.node.namedChildren.getLast? with
  | some first, some last =>
      replaceRange body.start first.start (tree.bodyOpening body first) ::
        (lineEdits (tree.bodyUnit body first) body.node.templateRanges first.start (tree.text.between first.start last.stop) ++
          [replaceRange last.stop body.stop (tree.bodyClosing body first)])
  | _, _ => []

def passEdits : Edits := tree.unwrappedBodies.flatMap tree.bodyEdits

-- An edit of a pass: the guard in front of the statements of a body, the guard behind them, or a line of theirs moved in.
inductive TouchesBody (body : Place) (first last : Node) : Edit → Prop where
  | opening (inner unit : Text) (indents : IsIndentation inner ∧ IsIndentation unit) :
      TouchesBody body first last (replaceRange body.start first.start (guardOpening inner unit))
  | closing (base inner unit : Text) (indents : IsIndentation base ∧ IsIndentation inner ∧ IsIndentation unit) :
      TouchesBody body first last (replaceRange last.stop body.stop (guardClosing base inner unit))
  | line (start : Nat) (unit : Text) (indent : IsIndentation unit) (within : first.start ≤ start ∧ start ≤ last.stop)
      (broken : ∃ front back, tree.text = front ++ '\n' :: back ∧ start = bytes (front ++ ['\n']))
      (outside : ∀ template ∈ body.descendants, template.kind = "template_string" →
        ¬ (template.start < start ∧ start < template.stop)) :
      TouchesBody body first last (insert start unit)

section Body

variable (body : Place) (first last : Node) (head : body.node.namedChildren.head? = some first)
  (ending : body.node.namedChildren.getLast? = some last) (parts : BlockParts tree.text body.node first last)

include head ending

theorem body_edits_shape : tree.bodyEdits body = replaceRange body.start first.start (tree.bodyOpening body first) ::
    (lineEdits (tree.bodyUnit body first) body.node.templateRanges first.start (tree.text.between first.start last.stop) ++
      [replaceRange last.stop body.stop (tree.bodyClosing body first)]) := by
  rw [bodyEdits, head, ending]

include parts

theorem body_edits_touch (edit : Edit) (member : edit ∈ tree.bodyEdits body) : tree.TouchesBody body first last edit := by
  have base := tree.closing_indentation body
  have inner := tree.inner_indentation _ first base
  have unit := tree.body_unit_indentation body first
  rw [tree.body_edits_shape body first last head ending, List.mem_cons, List.mem_append, List.mem_singleton] at member
  rcases member with opening | lines | closing
  · exact opening ▸ .opening _ _ ⟨inner, unit⟩
  · obtain ⟨line, listed, rfl⟩ := List.mem_map.mp lines
    obtain ⟨out, front, back, shape, place⟩ := moved_lines_mem _ _ _ line listed
    obtain ⟨before, middle, after, whole, start, stop⟩ :=
      boundary_parts tree.text first.start last.stop parts.start parts.stop parts.ordered
    have piece : middle = front ++ '\n' :: back := by
      rw [← shape, whole, ← start, ← stop, start, ← start, between_parts]
    have size : bytes middle = bytes (front ++ ['\n']) + bytes back := by
      rw [piece, ← bytes_append, List.append_assoc]
      rfl
    refine .line line _ unit ⟨by omega, by omega⟩ ⟨before ++ front, back ++ after, ?_, ?_⟩ fun template present kind inside => ?_
    · rw [whole, piece]
      simp
    · rw [place, ← start, List.append_assoc, bytes_append before]
    · have taken : insideAny body.node.templateRanges line = true := by
        have node : template.node ∈ body.node.preorder := descendant_nodes body ▸ List.mem_map_of_mem present
        have listed : template.node ∈ body.node.preorder.filter (·.kind == "template_string") :=
          List.mem_filter.mpr ⟨node, beq_iff_eq.mpr kind⟩
        refine List.any_eq_true.mpr ⟨(template.start, template.stop), List.mem_map.mpr ⟨template.node, listed, rfl⟩, ?_⟩
        simpa using inside
      exact Bool.noConfusion (out.symm.trans taken)
  · exact closing ▸ .closing _ _ _ ⟨base, inner, unit⟩

-- Applying the edits of a body puts the wrapped body in its place.
theorem body_spliced (cursor : Nat) (behind : Edits) (start : tree.text.IsBoundary body.start)
    (stop : tree.text.IsBoundary body.stop) (early : cursor ≤ body.start) (later : InOrder tree.text body.stop behind) :
    InOrder tree.text cursor (tree.bodyEdits body ++ behind) ∧
      spliced tree.text tree.text.bytes cursor (tree.bodyEdits body ++ behind) =
        tree.text.between cursor body.start ++ tree.wrappedBody body ++ spliced tree.text tree.text.bytes body.stop behind := by
  have opened : body.start ≤ first.start := Nat.le_trans (Nat.le_succ _) parts.front
  have closed : last.stop ≤ body.stop := Nat.le_trans (Nat.le_succ _) parts.back
  obtain ⟨front, middle, back, whole, begins, ends⟩ :=
    boundary_parts tree.text first.start last.stop parts.start parts.stop parts.ordered
  have piece : tree.text.between first.start last.stop = middle := by
    rw [whole, ← ends, ← begins, between_parts]
  have closing : InOrder tree.text (bytes front + bytes middle)
      (replaceRange last.stop body.stop (tree.bodyClosing body first) :: behind) :=
    ⟨Nat.le_of_eq ends, ⟨closed, parts.stop, stop⟩, later⟩
  obtain ⟨placed, same⟩ := lines_spliced tree.text (tree.bodyUnit body first) body.node.templateRanges _ middle front back whole closing
  rw [begins] at ends placed same
  rw [ends] at same
  rw [tree.wrapped_body_text body first last head ending parts.start parts.stop parts.ordered,
    tree.body_edits_shape body first last head ending, List.cons_append, List.append_assoc, List.singleton_append, piece]
  refine ⟨⟨early, ⟨opened, start, parts.start⟩, placed⟩, ?_⟩
  show tree.text.between cursor body.start ++ tree.bodyOpening body first ++ spliced tree.text tree.text.bytes first.start _ = _
  rw [same]
  show _ ++ (_ ++ (tree.text.between last.stop last.stop ++ tree.bodyClosing body first ++
    spliced tree.text tree.text.bytes body.stop behind)) = _
  rw [between_self tree.text last.stop parts.stop, List.nil_append]
  simp only [List.append_assoc]

end Body

section Pass

variable (nested : tree.Nests) (form : ∀ body ∈ tree.unwrappedBodies, tree.Braces body.node)

-- By induction on the bodies.
theorem bodies_spliced (bodies : List Place)
    (each : ∀ body ∈ bodies, body.InNested tree.text ∧ tree.Braces body.node ∧ body.node.namedChildren ≠ []) : ∀ cursor,
    InOrder tree.text cursor (bodies.map fun body => replace body.node (tree.wrappedBody body)) →
      InOrder tree.text cursor (bodies.flatMap tree.bodyEdits) ∧
        spliced tree.text tree.text.bytes cursor (bodies.map fun body => replace body.node (tree.wrappedBody body)) =
          spliced tree.text tree.text.bytes cursor (bodies.flatMap tree.bodyEdits) := by
  induction bodies with
  | nil => exact fun _ _ => ⟨trivial, rfl⟩
  | cons body rest ih =>
      rintro cursor ⟨early, ⟨_, start, stop⟩, later⟩
      obtain ⟨within, braces, filled⟩ := each body List.mem_cons_self
      obtain ⟨first, last, head, ending, parts⟩ := block_parts tree body within braces filled
      obtain ⟨placed, same⟩ := ih (fun other member => each other (List.mem_cons_of_mem body member)) body.node.stop later
      obtain ⟨ordered, shape⟩ := tree.body_spliced body first last head ending parts cursor _ start stop early placed
      refine ⟨ordered, ?_⟩
      rw [List.flatMap_cons, shape]
      show _ ++ _ ++ spliced tree.text tree.text.bytes body.node.stop _ = _
      rw [same]
      rfl

include nested form

-- A pass applies its edits, which stand in order.
theorem pass_spliced : InOrder tree.text 0 tree.passEdits ∧
    tree.wrapPass = .ok (spliced tree.text tree.text.bytes 0 tree.passEdits) := by
  have ordered := bodies_in_order tree nested
  obtain ⟨placed, same⟩ := tree.bodies_spliced tree.unwrappedBodies (fun body member =>
    ⟨unwrapped_body_nested tree nested body member, form body member, unwrapped_body_filled tree body member⟩) 0 ordered
  refine ⟨placed, ?_⟩
  rw [pass_replaces tree nested, passEdits, ← same, spliced_replaced tree.text _ 0 (boundary_zero tree.text) ordered, after_zero]

theorem pass_edits_touch (edit : Edit) (member : edit ∈ tree.passEdits) : ∃ body ∈ tree.unwrappedBodies,
    ∃ first ∈ body.node.namedChildren.head?, ∃ last ∈ body.node.namedChildren.getLast?, tree.TouchesBody body first last edit := by
  obtain ⟨body, listed, present⟩ := List.mem_flatMap.mp member
  obtain ⟨first, last, head, ending, parts⟩ := block_parts tree body (unwrapped_body_nested tree nested body listed)
    (form body listed) (unwrapped_body_filled tree body listed)
  exact ⟨body, listed, first, head, last, ending, tree.body_edits_touch body first last head ending parts edit present⟩

end Pass

end SourceTree

end ScriptTidy
