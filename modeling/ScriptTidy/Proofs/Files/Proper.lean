import ScriptTidy.Proofs.Files.Names
import ScriptTidy.Proofs.Files.Standing

/-!
Folders in which each entry has a name of its own, one that a path can be made of. Making and writing files keeps them
so.
-/

set_option autoImplicit false

namespace ScriptTidy

mutual
def Entry.Proper : Entry → Prop
  | .file _ => True
  | .folder entries => entries.Proper
def Folder.Proper : Folder → Prop
  | .empty => True
  | .cons name entry rest => Path.IsName name ∧ rest.find? name = none ∧ entry.Proper ∧ rest.Proper
end

mutual
def Entry.decideProper : (entry : Entry) → Decidable entry.Proper
  | .file _ => .isTrue trivial
  | .folder entries => entries.decideProper
def Folder.decideProper : (entries : Folder) → Decidable entries.Proper
  | .empty => .isTrue trivial
  | .cons name entry rest =>
      have := entry.decideProper
      have := rest.decideProper
      inferInstanceAs (Decidable (Path.IsName name ∧ rest.find? name = none ∧ entry.Proper ∧ rest.Proper))
end

instance (entries : Folder) : Decidable entries.Proper := entries.decideProper

namespace Folder

theorem find_proper {name : Text} {child : Entry} : (entries : Folder) → entries.Proper →
    entries.find? name = some child → Path.IsName name ∧ child.Proper
  | .empty, _, found => nomatch found
  | .cons first entry rest, ⟨valid, _, proper, others⟩, found => by
      by_cases same : first = name
      · rw [find?, if_pos same] at found
        exact ⟨same ▸ valid, Option.some.inj found ▸ proper⟩
      · rw [find?, if_neg same] at found
        exact find_proper rest others found

end Folder

namespace Entry

-- What holds of a folder's entries holds of the folder.
mutual
theorem named_induction {motive : Entry → Prop} (file : ∀ content, motive (.file content))
    (folder : ∀ entries, (∀ name child, entries.find? name = some child → motive child) → motive (.folder entries)) :
    (entry : Entry) → motive entry
  | .file content => file content
  | .folder entries => folder entries (named_induction_each file folder entries)
theorem named_induction_each {motive : Entry → Prop} (file : ∀ content, motive (.file content))
    (folder : ∀ entries, (∀ name child, entries.find? name = some child → motive child) → motive (.folder entries)) :
    (entries : Folder) → ∀ name child, entries.find? name = some child → motive child
  | .empty, _, _, found => nomatch found
  | .cons first entry rest, name, child, found => by
      by_cases same : first = name
      · rw [Folder.find?, if_pos same] at found
        exact Option.some.inj found ▸ named_induction file folder entry
      · rw [Folder.find?, if_neg same] at found
        exact named_induction_each file folder rest name child found
end

theorem at_folder (entries : Folder) (name : Text) (below : Location) :
    (Entry.folder entries).at? (name :: below) = (entries.find? name).bind fun child => child.at? below := rfl

end Entry

namespace Folder

theorem put_proper {name : Text} (valid : Path.IsName name) {fresh : Entry} (proper : fresh.Proper) :
    (entries : Folder) → entries.Proper → (entries.put name fresh).Proper
  | .empty, _ => ⟨valid, rfl, proper, trivial⟩
  | .cons first entry rest, ⟨firstValid, unique, own, others⟩ => by
      by_cases same : first = name
      · rw [put, if_pos same]
        exact ⟨firstValid, unique, proper, others⟩
      · rw [put, if_neg same]
        exact ⟨firstValid, (find_put_other same fresh rest).trans unique, own, put_proper valid proper rest others⟩

end Folder

namespace Entry

theorem put_file_proper (content : Content) (location : Location) (valid : ∀ name ∈ location, Path.IsName name) :
    ∀ entry : Entry, entry.Proper → (entry.putFile content location).Proper := by
  induction location with
  | nil => intro entry _; exact trivial
  | cons name rest ih =>
      obtain ⟨nameValid, restValid⟩ := List.forall_mem_cons.mp valid
      intro entry proper
      cases entry with
      | file held => exact trivial
      | folder entries =>
          refine Folder.put_proper nameValid (ih restValid _ ?_) entries proper
          cases found : entries.find? name with
          | none => exact trivial
          | some child => exact (Folder.find_proper entries proper found).2

theorem make_folders_proper (location : Location) (valid : ∀ name ∈ location, Path.IsName name) :
    ∀ entry : Option Entry, (∀ held, entry = some held → held.Proper) → (makeFolders location entry).1.Proper := by
  induction location with
  | nil =>
      rintro (_ | entry) proper
      · exact trivial
      · cases entry <;> exact proper _ rfl
  | cons name rest ih =>
      obtain ⟨nameValid, restValid⟩ := List.forall_mem_cons.mp valid
      rintro (_ | _ | entries) proper
      · have fresh : (makeFolders rest none).1.Proper := ih restValid none fun held none => nomatch none
        rw [makeFolders]
        split
        · exact trivial
        · exact ⟨nameValid, rfl, fresh, trivial⟩
      · exact trivial
      · have own : entries.Proper := proper _ rfl
        have below : (makeFolders rest (entries.find? name)).1.Proper :=
          ih restValid _ fun held found => (Folder.find_proper entries own found).2
        rw [makeFolders]
        split
        · exact own
        · exact Folder.put_proper nameValid below entries own

end Entry

-- The parts of a place to which a path leads are names.
def Destination.Named : Destination → Prop
  | .above => True
  | .inside location => ∀ name ∈ location, Path.IsName name

namespace Folder

theorem enter_named {files : Folder} {part : Text} (single : '/' ∉ part) {start next : Destination}
    (named : start.Named) (enters : files.enter part start = .ok next) : next.Named := by
  cases start with
  | above =>
      simp only [enter] at enters
      split at enters
      · exact Except.ok.inj enters ▸ trivial
      · split at enters <;> cases enters
  | inside location =>
      simp only [enter] at enters
      split at enters
      · cases enters
      · cases enters
      · split at enters
        · exact Except.ok.inj enters ▸ named
        · rename_i other
          obtain ⟨filled, notHere⟩ := not_or.mp other
          split at enters
          · rw [← Except.ok.inj enters]
            split
            · exact trivial
            · exact fun name member => named name (List.dropLast_subset location member)
          · rename_i notUp
            split at enters
            · cases enters
            · rw [← Except.ok.inj enters]
              exact List.forall_mem_append.mpr ⟨named, List.forall_mem_singleton.mpr ⟨filled, single, notHere, notUp⟩⟩

theorem follow_named (files : Folder) (parts : List Text) (single : ∀ part ∈ parts, '/' ∉ part) :
    ∀ (start next : Destination), start.Named → files.follow start parts = .ok next → next.Named := by
  induction parts with
  | nil =>
      intro start next named leads
      exact Except.ok.inj leads ▸ named
  | cons part rest ih =>
      obtain ⟨partSingle, restSingle⟩ := List.forall_mem_cons.mp single
      intro start next named leads
      rw [follow] at leads
      split at leads
      · cases leads
      · rename_i entered
        exact ih restSingle _ next (enter_named partSingle named entered) leads

theorem resolve_named {files : Folder} {path : Path} {destination : Destination}
    (leads : files.resolve path = .ok destination) : destination.Named := by
  unfold resolve at leads
  split at leads
  · cases leads
  split at leads
  · cases leads
  split at leads
  · cases leads
  refine follow_named files path.parts (fun part => Path.part_single path) _ destination ?_ leads
  split
  · exact trivial
  · exact List.forall_mem_nil _

theorem write_proper {files written : Folder} (proper : files.Proper) {path : Path} {content : Content}
    (wrote : files.write path content = .ok written) : written.Proper := by
  unfold write at wrote
  split at wrote
  · cases wrote
  · cases wrote
  · rename_i location leads
    have put := Entry.put_file_proper content location (resolve_named leads) (.folder files) proper
    split at wrote
    · cases wrote
    · split at wrote
      · rename_i changed equal
        rw [equal] at put
        exact Except.ok.inj wrote ▸ put
      · cases wrote

theorem makes_proper {files : Folder} (proper : files.Proper) (location : Location)
    (valid : ∀ name ∈ location, Path.IsName name) : (files.makeFolders location).1.Proper := by
  have made := Entry.make_folders_proper location valid (some (.folder files))
    fun held same => Option.some.inj same ▸ proper
  unfold makeFolders
  split
  · exact proper
  · split
    · rename_i equal
      rw [equal] at made
      exact made
    · exact proper

-- A path that leads upwards would make a folder with a name that stands for another one.
theorem create_proper {files : Folder} (proper : files.Proper) {path : Path} (inside : Path.up ∉ path.names)
    (content : Option Content) : (files.create path content).1.Proper := by
  have valid : ∀ name ∈ path.names, Path.IsName name :=
    fun name member => Path.name_valid member fun same => inside (same ▸ member)
  cases content with
  | none => exact makes_proper proper path.names valid
  | some content =>
      have made := makes_proper proper path.names.dropLast
        fun name member => valid name (List.dropLast_subset path.names member)
      rw [create]
      split
      · rename_i equal
        rw [equal] at made
        exact made
      · rename_i changed equal
        rw [equal] at made
        split
        · exact made
        · rename_i wrote
          exact write_proper made wrote

end Folder

end ScriptTidy
