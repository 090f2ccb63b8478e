import ScriptTidy.Options.NameSet
import ScriptTidy.Proofs.Files.Proper

/-! The walk below a folder: to which entries it comes, and in which order things are found there. -/

set_option autoImplicit false

namespace ScriptTidy

namespace Entry

end Entry

namespace Folder

end Folder

namespace Folder

end Folder

namespace Finding

def path : Finding → Path
  | .source path => path
  | .unlisted path => path

end Finding

namespace Entry

-- The walk from an entry comes to another one below it. It does not go through a folder that cannot be listed, nor into
-- one that is left out.
inductive Visits : Path → Entry → Location → Entry → Prop where
  | start (path : Path) (entry : Entry) : Visits path entry [] entry
  | enter {path : Path} {entries : Folder} {name : Text} {child target : Entry} {location : Location}
      (listed : Text.bytes path ≤ Folder.longestPath) (found : entries.find? name = some child)
      (kept : ∀ held, child = .folder held → isIgnored name = false)
      (visits : Visits (path.join name) child location target) : Visits path (.folder entries) (name :: location) target

theorem Visits.stands {path : Path} {entry target : Entry} {location : Location}
    (visits : entry.Visits path location target) : entry.at? location = some target := by
  induction visits with
  | start => rfl
  | enter _ found _ _ ih => rw [at_folder, found, Option.bind_some, ih]

theorem Visits.named {path : Path} {entry target : Entry} {location : Location}
    (visits : entry.Visits path location target) (proper : entry.Proper) : ∀ name ∈ location, Path.IsName name := by
  induction visits with
  | start => intro name member; nomatch member
  | @enter _ entries _ _ _ _ _ found _ _ ih =>
      obtain ⟨valid, childProper⟩ := Folder.find_proper entries proper found
      exact List.forall_mem_cons.mpr ⟨valid, ih childProper⟩

theorem Visits.listed {path : Path} {entries : Folder} {name : Text} {location : Location} {target : Entry}
    (visits : (Entry.folder entries).Visits path (name :: location) target) :
    Text.bytes path ≤ Folder.longestPath := by
  cases visits with
  | enter listed _ _ _ => exact listed

theorem Visits.entered {path : Path} {entries : Folder} {name : Text} {location : Location} {target : Entry}
    (visits : (Entry.folder entries).Visits path (name :: location) target) : ∃ child,
      entries.find? name = some child ∧ (∀ held, child = .folder held → isIgnored name = false) ∧
        child.Visits (path.join name) location target := by
  cases visits with
  | enter _ found kept visits => exact ⟨_, found, kept, visits⟩

end Entry

end ScriptTidy
