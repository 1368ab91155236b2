import StaticSite.Config.Entries
import StaticSite.Config.Error

/-! Sources of documents. A document is asked for by name, as seen from the
document that names it, and has an identity of its own. -/

namespace StaticSite

structure Document where
  id : Text
  text : Text
  deriving DecidableEq

inductive SourceError where
  | notFound (place : Text)
  | unset (document name : Text)
  | file (fault : FileFault)
  deriving DecidableEq

def SourceError.message : SourceError → Text
  | notFound place => place ++ " not found"
  | unset document name => "cannot expand " ++ document ++ ": " ++ ConfigError.unsetMessage name
  | file fault => fault.message

/-- What is found under a name, as seen from the document that names it. -/
abbrev Reading := (name : Text) → (referrer : Option Text) → Except SourceError Document

/-- A source gives documents of finitely many identities. -/
structure Source where
  read : Reading
  ids : List Text
  mem_ids : ∀ {name referrer document}, read name referrer = .ok document → document.id ∈ ids

namespace Source

def find (docs : Entries Text) (name : Text) : Except SourceError Document :=
  match docs.get? name with
  | some text => .ok ⟨name, text⟩
  | none => .error (.notFound name)

theorem find_congr {docs docs' : Entries Text} {name : Text}
    (h : docs'.get? name = docs.get? name) : find docs' name = find docs name := by
  rw [find, find, h]

theorem find_of_some {docs : Entries Text} {name text : Text} (h : docs.get? name = some text) :
    find docs name = .ok ⟨name, text⟩ := by
  rw [find, h]

theorem find_of_none {docs : Entries Text} {name : Text} (h : docs.get? name = none) :
    find docs name = .error (.notFound name) := by
  rw [find, h]

theorem get?_of_find {docs : Entries Text} {name : Text} {document : Document}
    (h : find docs name = .ok document) :
    document.id = name ∧ docs.get? name = some document.text := by
  rw [find] at h
  split at h
  · rename_i text hget
    cases h
    exact ⟨rfl, hget⟩
  · cases h

/-- Documents in memory, which are found by name alone. -/
def ofEntries (docs : Entries Text) : Source where
  read name _ := find docs name
  ids := docs.keys
  mem_ids {name _ document} h := by
    obtain ⟨rfl, hget⟩ := get?_of_find h
    exact Entries.mem_keys_of_get? hget

end Source

end StaticSite
