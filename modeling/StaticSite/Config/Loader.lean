import StaticSite.Config.Merge
import StaticSite.Config.Registry
import StaticSite.Config.Source

/-! Loading of configurations. A document may name a parent, which is loaded
first and then overridden. -/

namespace StaticSite

/-- How documents are found by their names, and how their texts are read. -/
structure Inheritance where
  read : Reading
  registry : Registry

namespace Inheritance

/-- What a document is called that was given by its text. -/
def inlineId : Text := "<string>"

/-- The mapping of one document. Nothing counts as an empty one. -/
def own (i : Inheritance) (document : Document) : Except ConfigError Config :=
  match i.registry.parse document.text document.id with
  | .ok (.mapping config) => .ok config
  | .ok .null => .ok []
  | .ok _ => .error (.notMapping document.id)
  | .error e => .error e

/-- What a fault of the source means for the field that names the document. -/
def faultIn (field : Text) : SourceError → ConfigError
  | .notFound place => .notFound place
  | .unset _ name => .variableUnset field name
  | .file fault => .file fault

def rootError (name : Text) : SourceError → ConfigError
  | .notFound _ => .notFound name
  | e => faultIn name e

def parentError (name id : Text) : SourceError → ConfigError
  | .notFound _ => .parentNotFound name id
  | e => faultIn (ConfigError.parentKey ++ " in " ++ id) e

/-- Loads a document below those visited. Its parent's name is seen from the referrer `r`.
There is no result where parents go on naming parents without end. -/
def loadBelow (i : Inheritance) (visited : List Text) (document : Document)
    (r : Option Text) : Option (Except ConfigError Config) :=
  if document.id ∈ visited then some (.error (.cycle (visited ++ [document.id])))
  else
    match i.own document with
    | .error e => some (.error e)
    | .ok config => match config.get? ConfigError.parentKey with
      | none => some (.ok config)
      | some (.string name) => match i.read name r with
        | .error e => some (.error (parentError name document.id e))
        | .ok parent => do
          let loadParent := i.loadBelow (r := some parent.id)
          let above ← loadParent (visited ++ [document.id]) parent
          return above.map (Config.merge · (config.erase ConfigError.parentKey))
      | some _ => some (.error (.parentNotText document.id))
partial_fixpoint

def load (i : Inheritance) (name : Text) : Option (Except ConfigError Config) :=
  match i.read name none with
  | .error e => some (.error (rootError name e))
  | .ok document => i.loadBelow [] document (some document.id)

def loadText (i : Inheritance) (text : Text) : Option (Except ConfigError Config) :=
  i.loadBelow [] ⟨inlineId, text⟩ none

end Inheritance

structure Loader where
  source : Source
  registry : Registry

namespace Loader

def inheritance (l : Loader) : Inheritance := ⟨l.source.read, l.registry⟩

def known (l : Loader) : List Text := Inheritance.inlineId :: l.source.ids

def unvisited (l : Loader) (visited : List Text) : List Text := l.known.filter (· ∉ visited)

theorem unvisited_lt {l : Loader} {visited : List Text} {id : Text} (hk : id ∈ l.known)
    (hv : id ∉ visited) : (l.unvisited (visited ++ [id])).length < (l.unvisited visited).length := by
  have hsub : (l.unvisited (visited ++ [id])) = (l.unvisited visited).filter (· ≠ id) := by
    simp only [unvisited, List.filter_filter]
    congr 1
    funext x
    simp only [List.mem_append, List.mem_singleton, not_or, Bool.decide_and, decide_not]
    exact Bool.and_comm ..
  rw [hsub]
  refine List.length_filter_lt_length_iff_exists.mpr ⟨id, ?_, by simp⟩
  exact List.mem_filter.mpr ⟨hk, by simpa using hv⟩

/-- Each document takes its identity from those not yet visited. -/
theorem loadBelow_isSome (l : Loader) (visited : List Text) (document : Document)
    (referrer : Option Text) (hk : document.id ∈ l.known) :
    (l.inheritance.loadBelow visited document referrer).isSome := by
  induction hn : (l.unvisited visited).length using Nat.strongRecOn
    generalizing visited document referrer with
  | ind n ih =>
    rw [Inheritance.loadBelow]
    by_cases hv : document.id ∈ visited
    · rw [if_pos hv]
      rfl
    · rw [if_neg hv]
      have hless := unvisited_lt hk hv
      split
      · rfl
      · split
        · rfl
        · split
          · rfl
          · rename_i parent hp
            have hparent : parent.id ∈ l.known := List.mem_cons_of_mem _ (l.source.mem_ids hp)
            have habove := ih _ (hn ▸ hless) _ parent (some parent.id) hparent rfl
            obtain ⟨above, ha⟩ := Option.isSome_iff_exists.mp habove
            simp [ha]
        · rfl

theorem load_isSome (l : Loader) (name : Text) : (l.inheritance.load name).isSome := by
  rw [Inheritance.load]
  split
  · rfl
  · rename_i document hd
    exact l.loadBelow_isSome _ document _ (List.mem_cons_of_mem _ (l.source.mem_ids hd))

theorem loadText_isSome (l : Loader) (text : Text) : (l.inheritance.loadText text).isSome :=
  l.loadBelow_isSome _ ⟨Inheritance.inlineId, text⟩ _ List.mem_cons_self

def load (l : Loader) (name : Text) : Except ConfigError Config :=
  (l.inheritance.load name).get (l.load_isSome name)

def loadText (l : Loader) (text : Text) : Except ConfigError Config :=
  (l.inheritance.loadText text).get (l.loadText_isSome text)

end Loader

end StaticSite
