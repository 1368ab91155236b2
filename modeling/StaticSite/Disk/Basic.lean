import StaticSite.Config.Entries
import StaticSite.Disk.Fault

/-! What a disk answers: the canonical form of a path, and the text of a file. -/

namespace StaticSite

/-- A disk has finitely many places. -/
structure Disk where
  canonical : (path : Text) → Except FileFault Text
  text : (path : Text) → Except FileFault Text
  places : List Text
  mem_places : ∀ {path place}, canonical path = .ok place → place ∈ places

namespace Disk

abbrev Sights := Entries (Except FileFault Text)

def look (sights : Sights) (path : Text) : Except FileFault Text :=
  (sights.get? path).getD (.error (.unseen path))

/-- A disk as far as its paths have been looked at. -/
def ofSights (canonical texts : Sights) : Disk where
  canonical := look canonical
  text := look texts
  places := canonical.filterMap (·.2.toOption)
  mem_places {path place} h := by
    rw [look] at h
    cases hs : canonical.get? path with
    | none => simp [hs] at h
    | some sight =>
      rw [hs, Option.getD_some] at h
      rw [List.mem_filterMap]
      exact ⟨(path, sight), Entries.mem_of_get? hs, by simp [h, Except.toOption]⟩

end Disk

end StaticSite
