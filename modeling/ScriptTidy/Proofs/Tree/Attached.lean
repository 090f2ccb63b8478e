import ScriptTidy.Source
import ScriptTidy.Proofs.Tree.Ranges

/-! Comments attached to a place: where its range begins and ends with them, and that they are shared by no two places. -/

set_option autoImplicit false

namespace ScriptTidy.SourceTree

open Place

section OnePlace

variable (tree : SourceTree) (place other : Place)

theorem leading_comments_suffix : tree.leadingComments place <:+ (place.before.takeWhile (·.isComment)).reverse := by
  unfold leadingComments
  dsimp only
  split
  · split
    next shape _ => exact shape ▸ List.suffix_cons _ _
    next shape _ => exact shape ▸ List.suffix_refl _
  · exact List.suffix_refl _

theorem leading_comment_mem (comment : Node) (member : comment ∈ tree.leadingComments place) :
    comment ∈ place.before.takeWhile (·.isComment) :=
  List.mem_reverse.mp ((leading_comments_suffix tree place).subset member)

theorem attached_start_cases : tree.attachedStart place = place.start ∨
    ∃ comment ∈ place.before.takeWhile (·.isComment), tree.attachedStart place = comment.start := by
  unfold attachedStart
  cases shape : tree.leadingComments place with
  | nil => exact .inl rfl
  | cons first rest => exact .inr ⟨first, leading_comment_mem tree place first (by simp [shape]), rfl⟩

theorem attached_stop_cases : tree.attachedStop place = place.stop ∨
    ∃ comment rest, place.after = comment :: rest ∧ comment.isComment = true ∧ tree.startRow comment = tree.stopRow place.node ∧
      tree.attachedStop place = comment.stop := by
  unfold attachedStop trailingComment?
  cases shape : place.after with
  | nil => exact .inl rfl
  | cons next rest =>
      by_cases attached : next.isComment = true ∧ tree.startRow next = tree.stopRow place.node
      · exact .inr ⟨next, rest, rfl, attached.1, attached.2, by simp [attached]⟩
      · exact .inl (by simp [attached])

theorem mem_take_while_before (wanted : Node → Bool) (front : List Node) (stopper : Node) (back : List Node)
    (stops : ¬ wanted stopper = true) (node : Node) (member : node ∈ (front ++ stopper :: back).takeWhile wanted) :
    node ∈ front := by
  induction front with
  | nil =>
      rw [List.nil_append, List.takeWhile_cons_of_neg stops] at member
      exact absurd member List.not_mem_nil
  | cons first rest ih =>
      rw [List.cons_append, List.takeWhile_cons] at member
      split at member
      · rcases List.mem_cons.mp member with same | later
        · exact same ▸ List.mem_cons_self
        · exact List.mem_cons_of_mem first (ih later)
      · exact absurd member List.not_mem_nil

variable (nested : place.InNested tree.text)

include nested

theorem attached_start_le : tree.attachedStart place ≤ place.start := by
  rcases attached_start_cases tree place with same | ⟨comment, member, same⟩
  · exact Nat.le_of_eq same
  · have present := (List.takeWhile_sublist _).subset member
    have behind := (siblings_apart tree.text place nested).1 comment present
    have forward := (siblings_nested tree.text place nested comment (List.mem_append_left _ present)).ordered
    omega

theorem le_attached_stop : place.stop ≤ tree.attachedStop place := by
  rcases attached_stop_cases tree place with same | ⟨comment, rest, shape, _, _, same⟩
  · exact Nat.le_of_eq same.symm
  · have present : comment ∈ place.after := by simp [shape]
    have behind := (siblings_apart tree.text place nested).2.1 comment present
    have forward := (siblings_nested tree.text place nested comment (List.mem_append_right _ present)).ordered
    omega

theorem leading_in_order : (tree.leadingComments place).Pairwise fun earlier later => earlier.stop ≤ later.start := by
  have order := (siblings_apart tree.text place nested).2.2.1.sublist (List.takeWhile_sublist (·.isComment))
  exact (List.pairwise_reverse.mpr order).sublist (leading_comments_suffix tree place).sublist

theorem attached_boundaries : tree.text.IsBoundary (tree.attachedStart place) ∧ tree.text.IsBoundary (tree.attachedStop place) := by
  have own := node_nested tree.text place nested
  constructor
  · rcases attached_start_cases tree place with same | ⟨comment, member, same⟩
    · exact same ▸ own.first
    · have present := List.mem_append_left place.after ((List.takeWhile_sublist _).subset member)
      exact same ▸ (siblings_nested tree.text place nested comment present).first
  · rcases attached_stop_cases tree place with same | ⟨comment, rest, shape, _, _, same⟩
    · exact same ▸ own.last
    · have present : comment ∈ place.before ++ place.after := List.mem_append_right _ (by simp [shape])
      exact same ▸ (siblings_nested tree.text place nested comment present).last

theorem attached_forward : tree.attachedStart place ≤ tree.attachedStop place :=
  Nat.le_trans (attached_start_le tree place nested)
    (Nat.le_trans (node_nested tree.text place nested).ordered (le_attached_stop tree place nested))

theorem attached_inside_parent (parent : Place) (above : place.parent? = some parent) :
    parent.start ≤ tree.attachedStart place ∧ tree.attachedStop place ≤ parent.stop := by
  have bounds := siblings_inside tree.text place nested parent above
  constructor
  · rcases attached_start_cases tree place with same | ⟨comment, member, same⟩
    · exact same ▸ (bounds place.node (.inr (.inl rfl))).1
    · exact same ▸ (bounds comment (.inl ((List.takeWhile_sublist _).subset member))).1
  · rcases attached_stop_cases tree place with same | ⟨comment, rest, shape, _, _, same⟩
    · exact same ▸ (bounds place.node (.inr (.inl rfl))).2
    · exact same ▸ (bounds comment (.inr (.inr (by simp [shape])))).2

theorem attached_inside (below : place.Below other) :
    other.start ≤ tree.attachedStart place ∧ tree.attachedStop place ≤ other.stop := by
  obtain ⟨parent, above, within⟩ := below_parent place other below
  have inner := attached_inside_parent tree place nested parent above
  have outer := within_inside tree.text parent other
    (in_nested_of_root tree.text place parent nested (parent_root place parent above)) within
  omega

-- A sibling that is no comment keeps the comments of the places around it apart.
theorem stop_le_attached_start (front : List Node) (sibling : Node) (back : List Node)
    (shape : place.before = front ++ sibling :: back) (solid : sibling.isComment = false) :
    sibling.stop ≤ tree.attachedStart place := by
  have apart := siblings_apart tree.text place nested
  rw [shape] at apart
  rcases attached_start_cases tree place with same | ⟨comment, member, same⟩
  · rw [same]
    exact apart.1 sibling (by simp)
  · rw [shape] at member
    have inside := mem_take_while_before _ front sibling back (by simp [solid]) comment member
    rw [same]
    exact (List.pairwise_append.mp apart.2.2.1).2.2 comment inside sibling List.mem_cons_self

theorem attached_stop_le_start (front : List Node) (sibling : Node) (back : List Node)
    (shape : place.after = front ++ sibling :: back) (solid : sibling.isComment = false) :
    tree.attachedStop place ≤ sibling.start := by
  have apart := siblings_apart tree.text place nested
  rw [shape] at apart
  rcases attached_stop_cases tree place with same | ⟨comment, rest, head, isComment, _, same⟩
  · rw [same]
    exact apart.2.1 sibling (by simp)
  · rw [same]
    cases front with
    | nil =>
        obtain ⟨rfl, _⟩ := List.cons.inj (shape.symm.trans head)
        rw [solid] at isComment
        exact Bool.noConfusion isComment
    | cons first others =>
        obtain ⟨rfl, _⟩ := List.cons.inj (shape.symm.trans head)
        exact (List.pairwise_cons.mp apart.2.2.2).1 sibling (by simp)

end OnePlace

-- Siblings, with what stands between them.
inductive Flank : Place → List Node → Place → Prop where
  | siblings (parent : Label) (above : List Step) (passed : List Node) (first : Node) (middle : List Node) (second : Node)
      (rest : List Node) :
      Flank ⟨first, ⟨parent, passed, middle ++ second :: rest⟩ :: above⟩ middle
        ⟨second, ⟨parent, middle.reverse ++ first :: passed, rest⟩ :: above⟩

section Flanked

variable (tree : SourceTree) (first second : Place) (comments : List Node) (flank : Flank first comments second)
  (firstSolid : first.node.isComment = false) (secondSolid : second.node.isComment = false)
  (between : ∀ node ∈ comments, node.isComment = true)

include flank firstSolid secondSolid between

-- Of the comments between two neighbours, one on the line of the first belongs to it, and the others to the second.
theorem comments_between : (tree.trailingComment? first).toList ++ tree.leadingComments second = comments := by
  cases flank with
  | siblings parent above passed first _ second rest =>
      have firstStops : ¬ first.isComment = true := by simpa using firstSolid
      have taken : (comments.reverse ++ first :: passed).takeWhile (·.isComment) = comments.reverse := by
        rw [List.takeWhile_append_of_pos fun node member => between node (List.mem_reverse.mp member),
          List.takeWhile_cons_of_neg firstStops, List.append_nil]
      have dropped : (comments.reverse ++ first :: passed).dropWhile (·.isComment) = first :: passed := by
        rw [List.dropWhile_append_of_pos fun node member => between node (List.mem_reverse.mp member),
          List.dropWhile_cons_of_neg firstStops]
      simp only [trailingComment?, leadingComments, before, after, taken, dropped, List.reverse_reverse]
      cases comments with
      | nil => simp [show second.isComment = false from secondSolid]
      | cons comment others =>
          have isComment := between comment List.mem_cons_self
          by_cases attached : tree.startRow comment = tree.stopRow first
          · simp [isComment, attached]
          · simp [attached]

-- Where the comments of the first end, and where those of the second begin, stand next to each other.
theorem attached_meet : ∃ front one other back, first.node :: (comments ++ [second.node]) = front ++ one :: other :: back ∧
    tree.attachedStop first = one.stop ∧ tree.attachedStart second = other.start := by
  have parts := comments_between tree first second comments flank firstSolid secondSolid between
  unfold attachedStop attachedStart
  rw [← parts]
  cases tree.trailingComment? first with
  | none =>
      cases tree.leadingComments second with
      | nil => exact ⟨[], first.node, second.node, [], rfl, rfl, rfl⟩
      | cons comment more => exact ⟨[], first.node, comment, more ++ [second.node], rfl, rfl, rfl⟩
  | some trailing =>
      cases tree.leadingComments second with
      | nil => exact ⟨[first.node], trailing, second.node, [], rfl, rfl, rfl⟩
      | cons comment more => exact ⟨[first.node], trailing, comment, more ++ [second.node], rfl, rfl, rfl⟩

theorem neighbours_apart (nested : first.InNested tree.text) : tree.attachedStop first ≤ tree.attachedStart second := by
  obtain ⟨front, one, other, back, shape, stop, start⟩ := attached_meet tree first second comments flank firstSolid secondSolid between
  rw [stop, start]
  cases flank with
  | siblings parent above passed first _ second rest =>
      have order := (siblings_apart tree.text _ nested).2
      have apart : (first :: (comments ++ [second])).Pairwise fun earlier later => earlier.stop ≤ later.start := by
        have listed : (comments ++ [second]).Sublist (comments ++ second :: rest) :=
          (List.Sublist.refl comments).append (List.singleton_sublist.mpr List.mem_cons_self)
        exact List.pairwise_cons.mpr ⟨fun node member => order.1 node (listed.subset member), order.2.2.sublist listed⟩
      rw [show first :: (comments ++ [second]) = _ from shape] at apart
      exact (List.pairwise_cons.mp (List.pairwise_append.mp apart).2.1).1 other List.mem_cons_self

end Flanked

-- Comments with nothing else in front of them all belong to what follows.
theorem comments_first (tree : SourceTree) (place : Place) (comments : ∀ node ∈ place.before, node.isComment = true) :
    tree.leadingComments place = place.before.reverse := by
  have taken : place.before.takeWhile (·.isComment) = place.before := by
    simpa using @List.takeWhile_append_of_pos _ (·.isComment) place.before [] comments
  have dropped : place.before.dropWhile (·.isComment) = [] := by
    simpa using @List.dropWhile_append_of_pos _ (·.isComment) place.before [] comments
  simp only [leadingComments, taken, dropped]


variable (tree : SourceTree) (place other : Place)

theorem sibling_attached_stop (left right : Place) (nested : place.InNested tree.text) (earlier : Earlier left right)
    (within : place.Within left) (solid : right.node.isComment = false) : tree.attachedStop place ≤ right.start := by
  have same := within_root place left within
  have leftNested := in_nested_of_root tree.text place left nested same
  rcases within with rfl | below
  · cases earlier with
    | siblings parent above passed first middle second rest =>
        exact attached_stop_le_start tree _ nested middle second rest rfl solid
  · exact Nat.le_trans (attached_inside tree place left nested below).2 (earlier_apart tree.text left right leftNested earlier)

theorem sibling_attached_start (left right : Place) (nested : other.InNested tree.text) (earlier : Earlier left right)
    (within : other.Within right) (solid : left.node.isComment = false) : left.stop ≤ tree.attachedStart other := by
  have same := (earlier_root left right earlier).symm.trans (within_root other right within)
  have leftNested := in_nested_of_root tree.text other left nested same
  rcases within with rfl | below
  · cases earlier with
    | siblings parent above passed first middle second rest =>
        exact stop_le_attached_start tree _ nested middle.reverse first passed rfl solid
  · exact Nat.le_trans (earlier_apart tree.text left right leftNested earlier) (attached_inside tree other right nested below).1

-- No comment is attached to two places.
theorem siblings_attached (left right : Place) (nested : left.InNested tree.text) (earlier : Earlier left right)
    (firstSolid : left.node.isComment = false) (secondSolid : right.node.isComment = false) :
    tree.attachedStop left ≤ tree.attachedStart right := by
  have rightNested := in_nested_of_root tree.text left right nested (earlier_root left right earlier)
  cases earlier with
  | siblings parent above passed first middle second rest =>
      by_cases comments : ∀ node ∈ middle, node.isComment = true
      · exact neighbours_apart tree _ _ middle (.siblings parent above passed first middle second rest) firstSolid secondSolid
          comments nested
      · obtain ⟨sibling, member, solid⟩ : ∃ sibling ∈ middle, sibling.isComment = false := by simpa using comments
        obtain ⟨front, back, rfl⟩ := List.append_of_mem member
        have before := attached_stop_le_start tree _ nested front sibling (back ++ second :: rest) (by simp [after]) solid
        have after := stop_le_attached_start tree _ rightNested back.reverse sibling (front.reverse ++ first :: passed)
          (by simp [Place.before]) solid
        have forward := (siblings_nested tree.text _ nested sibling (List.mem_append_right _ (by simp [Place.after]))).ordered
        omega

theorem within_attached (left right : Place) (nested : place.InNested tree.text) (otherNested : other.InNested tree.text) (earlier : Earlier left right)
    (first : place.Within left) (second : other.Within right) (leftSolid : left.node.isComment = false)
    (rightSolid : right.node.isComment = false) : tree.attachedStop place ≤ tree.attachedStart other := by
  rcases first with rfl | first
  · rcases second with rfl | second
    · exact siblings_attached tree place other nested earlier leftSolid rightSolid
    · exact Nat.le_trans (sibling_attached_stop tree place place right nested earlier (.inl rfl) rightSolid)
        (attached_inside tree other right otherNested second).1
  · exact Nat.le_trans (attached_inside tree place left nested first).2
      (sibling_attached_start tree other left right otherNested earlier second leftSolid)

-- Two places that do not lie in each other have no byte in common, comments included.
theorem unrelated_attached (nested : place.InNested tree.text) (same : place.root = other.root) (leaves : LeafComments place) (out : ¬ place.Within other)
    (away : ¬ other.Within place) (solid : place.node.isComment = false) (otherSolid : other.node.isComment = false) :
    tree.attachedStop place ≤ tree.attachedStart other ∨ tree.attachedStop other ≤ tree.attachedStart place := by
  have otherNested := in_nested_of_root tree.text place other nested same.symm
  have otherLeaves : LeafComments other := fun third equal => leaves third (equal.trans same.symm)
  rcases unrelated_cases place other same out away with ⟨left, right, earlier, first, second⟩ | ⟨left, right, earlier, first, second⟩
  · exact .inl (within_attached tree place other left right nested otherNested earlier first second
      (within_solid place left leaves first solid) (within_solid other right otherLeaves second otherSolid))
  · exact .inr (within_attached tree other place left right otherNested nested earlier first second
      (within_solid other left otherLeaves first otherSolid) (within_solid place right leaves second solid))

end ScriptTidy.SourceTree
