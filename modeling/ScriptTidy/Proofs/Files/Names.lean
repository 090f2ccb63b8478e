import ScriptTidy.Dialect

/-! The names in a path, and the paths of what lies below a folder. -/

set_option autoImplicit false

namespace ScriptTidy

namespace Path

-- What an entry of a folder can be called.
structure IsName (name : Text) : Prop where
  filled : name ≠ []
  single : '/' ∉ name
  notHere : name ≠ here
  notUp : name ≠ up

instance (name : Text) : Decidable (IsName name) :=
  decidable_of_iff (name ≠ [] ∧ '/' ∉ name ∧ name ≠ here ∧ name ≠ up)
    ⟨fun ⟨filled, single, notHere, notUp⟩ => ⟨filled, single, notHere, notUp⟩,
      fun ⟨filled, single, notHere, notUp⟩ => ⟨filled, single, notHere, notUp⟩⟩

-- The path of what lies below a folder, by the names on the way.
def under (folder : Path) (names : List Text) : Path := names.foldl join folder

@[simp] theorem under_nil (folder : Path) : folder.under [] = folder := rfl

theorem parts_filled (path : Path) : path.parts ≠ [] := by
  fun_cases parts path <;> simp

theorem parts_cons {char : Char} (other : char ≠ '/') (rest : Text) : ∃ first others,
    parts rest = first :: others ∧ parts (char :: rest) = (char :: first) :: others := by
  obtain ⟨first, others, shape⟩ := List.exists_cons_of_ne_nil (parts_filled rest)
  refine ⟨first, others, shape, ?_⟩
  simp [parts, shape]

theorem part_single (path : Path) {part : Text} (member : part ∈ path.parts) : '/' ∉ part := by
  induction path generalizing part with
  | nil => simp_all [parts]
  | cons char rest ih =>
      by_cases slash : char = '/'
      · subst slash
        rcases List.mem_cons.mp member with rfl | later
        · exact List.not_mem_nil
        · exact ih later
      · obtain ⟨first, others, shape, whole⟩ := parts_cons slash rest
        rw [whole] at member
        rcases List.mem_cons.mp member with rfl | later
        · exact fun inside => (List.mem_cons.mp inside).elim (fun same => slash same.symm) (ih (by simp [shape]))
        · exact ih (by simp [shape, later])

theorem name_valid {path : Path} {name : Text} (member : name ∈ path.names) (notUp : name ≠ up) : IsName name := by
  obtain ⟨part, names⟩ := List.mem_filter.mp member
  simp only [Bool.and_eq_true, bne_iff_ne] at names
  exact ⟨names.1, part_single path part, names.2, notUp⟩

end Path

end ScriptTidy
