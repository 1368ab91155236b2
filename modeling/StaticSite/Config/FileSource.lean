import StaticSite.Config.Expansion
import StaticSite.Config.Source
import StaticSite.Disk.Basic
import StaticSite.Disk.Path

/-! Documents on a disk. Names are paths as seen from the directory of the
document that names them, and documents are known by their canonical paths. -/

namespace StaticSite.Source

def pathOf (env : Environment) (base name : Text) (referrer : Option Text) :
    Except SourceError Text :=
  match Expansion.name env name with
  | .ok path => .ok (Path.join ((referrer.bind Path.parent?).getD base) path)
  | .error unset => .error (.unset name unset)

def faultAt (path : Text) : FileFault → SourceError
  | .missing => .notFound path
  | fault => .file fault

def readPath (disk : Disk) (path : Text) : Except SourceError Document :=
  match disk.canonical path with
  | .error fault => .error (faultAt path fault)
  | .ok place => match disk.text place with
    | .error fault => .error (faultAt path fault)
    | .ok text => .ok ⟨place, text⟩

theorem readPath_id_mem {disk : Disk} {path : Text} {document : Document}
    (h : readPath disk path = .ok document) : document.id ∈ disk.places := by
  rw [readPath] at h
  split at h
  · cases h
  · rename_i place hc
    split at h
    · cases h
    · cases h
      exact disk.mem_places hc

/-- The documents of a disk; root documents are seen from a base directory. -/
def ofDisk (disk : Disk) (env : Environment) (base : Text) : Source where
  read name referrer := (pathOf env base name referrer).bind (readPath disk)
  ids := disk.places
  mem_ids {name referrer document} h := by
    cases hp : pathOf env base name referrer with
    | error e => simp [hp, Except.bind] at h
    | ok path =>
      rw [hp] at h
      exact readPath_id_mem h

end StaticSite.Source
