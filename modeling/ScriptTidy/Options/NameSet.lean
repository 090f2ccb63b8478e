import ScriptTidy.Text.Basic

/-!
Finite sets of names, kept as strictly ascending lists.

Names are compared by their characters, which is also the order of the bytes of their UTF-8 forms. A set has
one list only, so equal sets are equal.
-/

set_option autoImplicit false

namespace ScriptTidy

/-- Puts a name at its place in an ascending list, unless it is there. -/
def insertName (name : Text) : List Text → List Text
  | [] => [name]
  | first :: rest =>
      if name < first then name :: first :: rest
      else if name = first then first :: rest
      else first :: insertName name rest

theorem mem_insert_name (name other : Text) (names : List Text) :
    other ∈ insertName name names ↔ other = name ∨ other ∈ names := by
  induction names with
  | nil => simp [insertName]
  | cons first rest ih =>
      by_cases less : name < first
      · simp [insertName, less]
      · by_cases same : name = first
        · rw [insertName, if_neg less, if_pos same]
          simp [same]
        · simp only [insertName, if_neg less, if_neg same, List.mem_cons, ih]
          exact or_left_comm

theorem name_lt_of_not_lt (name first : Text) (notLess : ¬ name < first) (different : name ≠ first) : first < name := by
  rcases List.le_iff_lt_or_eq.mp (List.not_lt.mp notLess) with less | same
  · exact less
  · exact absurd same.symm different

theorem insert_name_ascending (name : Text) (names : List Text) (ascending : names.Pairwise (· < ·)) :
    (insertName name names).Pairwise (· < ·) := by
  induction names with
  | nil => exact List.pairwise_singleton _ _
  | cons first rest ih =>
      have bounds := List.pairwise_cons.mp ascending
      by_cases less : name < first
      · rw [insertName, if_pos less]
        refine List.pairwise_cons.mpr ⟨fun other present => ?_, ascending⟩
        rcases List.mem_cons.mp present with same | later
        · exact same ▸ less
        · exact List.lt_trans less (bounds.1 other later)
      · by_cases same : name = first
        · simpa only [insertName, if_neg less, if_pos same] using ascending
        · rw [insertName, if_neg less, if_neg same]
          refine List.pairwise_cons.mpr ⟨fun other present => ?_, ih bounds.2⟩
          rcases (mem_insert_name name other rest).mp present with fresh | old
          · exact fresh ▸ name_lt_of_not_lt name first less same
          · exact bounds.1 other old

structure NameSet where
  names : List Text
  ascending : names.Pairwise (· < ·)
deriving DecidableEq

namespace NameSet

def empty : NameSet := ⟨[], List.Pairwise.nil⟩

def insert (set : NameSet) (name : Text) : NameSet :=
  ⟨insertName name set.names, insert_name_ascending name set.names set.ascending⟩

/-- The set with more names. -/
def insertAll (set : NameSet) (names : List Text) : NameSet := names.foldl insert set

def ofList (names : List Text) : NameSet := empty.insertAll names

def contains (set : NameSet) (name : Text) : Bool := set.names.contains name

theorem contains_insert (set : NameSet) (name other : Text) :
    (set.insert name).contains other = (other == name || set.contains other) := by
  rw [Bool.eq_iff_iff]
  simp [contains, insert, mem_insert_name]

theorem contains_insert_all (set : NameSet) (names : List Text) (other : Text) :
    (set.insertAll names).contains other = (names.contains other || set.contains other) := by
  induction names generalizing set with
  | nil => simp [insertAll]
  | cons name rest ih =>
      rw [insertAll, List.foldl_cons]
      rw [show List.foldl insert (set.insert name) rest = (set.insert name).insertAll rest from rfl, ih, contains_insert]
      rw [List.contains_cons, Bool.or_left_comm, Bool.or_assoc]

end NameSet

end ScriptTidy
