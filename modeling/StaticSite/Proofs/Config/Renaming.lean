import Mathlib.Data.Option.Defs
import StaticSite.Proofs.Config.Asked

/-! Documents under other names. What a document says does not hang on its
name, so loading gives the same answer under other names as long as these lead
to the same documents, and documents that differ keep different names. -/

namespace StaticSite

def Document.rename (f : Text → Text) (d : Document) : Document := ⟨f d.id, d.text⟩

/-- The fault that tells of documents by other names. -/
def ConfigError.rename (f : Text → Text) : ConfigError → ConfigError
  | notFound name => notFound (f name)
  | parentNotFound name referrer => parentNotFound (f name) (f referrer)
  | cycle documents => cycle (documents.map f)
  | parse name => parse (f name)
  | notMapping name => notMapping (f name)
  | parentNotText name => parentNotText (f name)
  | e => e

namespace Registry

/-- Answers that are the same but for the names of documents. What a hook finds wrong with a text
is told in the same words, whatever the text is called. -/
inductive Agree (r : Registry) (f : Text → Text) :
    Except ConfigError Config → Except ConfigError Config → Prop
  | ok (config : Config) : Agree r f (.ok config) (.ok config)
  | fault (e : ConfigError) : Agree r f (.error e) (.error (e.rename f))
  | hook (text : Text) {e : ConfigError} (h : ∀ id, r.parse text id = .error e) :
    Agree r f (.error e) (.error e)

variable {r : Registry} {f : Text → Text}

theorem Agree.map {a b : Except ConfigError Config} (h : r.Agree f a b) (g : Config → Config) :
    r.Agree f (a.map g) (b.map g) := by
  cases h with
  | ok config => exact .ok (g config)
  | fault e => exact .fault e
  | hook text h => exact .hook text h

theorem Agree.above {a b : Option (Except ConfigError Config)} (h : Option.Rel (r.Agree f) a b)
    (g : Config → Config) :
    Option.Rel (r.Agree f) (do return (← a).map g) (do return (← b).map g) := by
  cases h with
  | none => exact .none
  | some h => exact .some (h.map g)

theorem Agree.of_cycle {a : Except ConfigError Config} {ids : List Text}
    (h : r.Agree f a (.error (.cycle ids))) :
    (∃ ids', a = .error (.cycle ids') ∧ ids = ids'.map f) ∨
      ∃ text, ∀ id, r.parse text id = .error (.cycle ids) := by
  generalize hb : Except.error (ConfigError.cycle ids) = b at h
  cases h with
  | ok config => cases hb
  | fault e =>
    cases e with
    | cycle ids' =>
      cases hb
      exact .inl ⟨ids', rfl, rfl⟩
    | _ => cases hb
  | hook text h =>
    cases hb
    exact .inr ⟨text, h⟩

/-- A text has the same value under all names. Only the fault of a text that is no document tells
what it is called. -/
theorem parse_cases (r : Registry) (text : Text) :
    (∃ v, ∀ id, r.parse text id = .ok v) ∨ (∀ id, r.parse text id = .error (.parse id)) ∨
      ∃ e, ∀ id, r.parse text id = .error e := by
  simp only [parse]
  by_cases hblank : Text.isBlankText text = true
  · exact .inl ⟨.null, fun _ => if_pos hblank⟩
  · simp only [if_neg hblank]
    cases Yaml.Node.ofText? text with
    | none => exact .inr (.inl fun _ => rfl)
    | some node =>
      dsimp only
      cases r.value node with
      | ok v => exact .inl ⟨v, fun _ => rfl⟩
      | error e => exact .inr (.inr ⟨e, fun _ => rfl⟩)

theorem parse_eq_ok {text id : Text} {v : Value} (h : r.parse text id = .ok v) (id' : Text) :
    r.parse text id' = .ok v := by
  rcases r.parse_cases text with ⟨v', hv⟩ | he | ⟨e, he⟩
  · rw [hv, ← hv id, h]
  · rw [he] at h
    cases h
  · rw [he] at h
    cases h

/-- A text names a document as its parent. -/
def NamesParent (r : Registry) (text name : Text) : Prop :=
  ∃ id config, r.parse text id = .ok (.mapping config) ∧
    Entries.get? ConfigError.parentKey config = some (.string name)

theorem namesParent_iff {text id name : Text} {config : Config}
    (h : r.parse text id = .ok (.mapping config)) :
    r.NamesParent text name ↔ Entries.get? ConfigError.parentKey config = some (.string name) := by
  constructor
  · rintro ⟨id', config', hparse, hkey⟩
    have hconfig := (parse_eq_ok hparse id).symm.trans h
    cases hconfig
    exact hkey
  · exact fun hkey => ⟨id, config, h, hkey⟩

end Registry

namespace Inheritance

variable {i j : Inheritance} {f : Text → Text} {visited : List Text} {document : Document}
  {referrer referrer' : Option Text}

theorem own_of_parse {config : Config}
    (h : i.registry.parse document.text document.id = .ok (.mapping config)) :
    i.own document = .ok config := by
  rw [own, h]

theorem own_agree (hregistry : j.registry = i.registry) (f : Text → Text) (document : Document) :
    i.registry.Agree f (i.own document) (j.own (document.rename f)) := by
  rw [own, own, hregistry, Document.rename]
  dsimp only
  rcases i.registry.parse_cases document.text with ⟨v, hv⟩ | he | ⟨e, he⟩
  · rw [hv, hv]
    cases v with
    | mapping config => exact .ok config
    | null => exact .ok []
    | _ => exact .fault (.notMapping document.id)
  · rw [he, he]
    exact .fault (.parse document.id)
  · rw [he, he]
    exact .hook document.text he

theorem own_rename (hregistry : j.registry = i.registry) {config : Config}
    (h : i.own document = .ok config) : j.own (document.rename f) = .ok config := by
  have hagree := own_agree hregistry f document
  rw [h] at hagree
  generalize j.own (document.rename f) = own at hagree
  cases hagree
  rfl

theorem LooksFor.namesParent {name : Text} (h : i.LooksFor visited document name) :
    i.registry.NamesParent document.text name := by
  obtain ⟨_, config, hown, hkey⟩ := h
  rw [own] at hown
  split at hown
  · rename_i config' hparse
    cases hown
    exact ⟨document.id, config, hparse, hkey⟩
  · cases hown
    cases hkey
  · cases hown
  · cases hown

theorem LooksFor.of_namesParent {name : Text} (hv : document.id ∉ visited)
    (h : i.registry.NamesParent document.text name) : i.LooksFor visited document name := by
  obtain ⟨id, config, hparse, hkey⟩ := h
  exact ⟨hv, config, own_of_parse (Registry.parse_eq_ok hparse document.id), hkey⟩

theorem LooksFor.rename {name : Text} (h : i.LooksFor visited document name)
    (hregistry : j.registry = i.registry)
    (hmem : f document.id ∈ visited.map f ↔ document.id ∈ visited) :
    j.LooksFor (visited.map f) (document.rename f) name := by
  obtain ⟨hv, config, hown, hkey⟩ := h
  exact ⟨hmem.not.mpr hv, config, own_rename hregistry hown, hkey⟩

theorem loadBelow_of_parent {name : Text} {parent : Document}
    (h : i.LooksFor visited document name) (hread : i.read name referrer = .ok parent) :
    ∃ config, i.loadBelow visited document referrer =
      (i.loadBelow (visited ++ [document.id]) parent (some parent.id)).map
        (·.map (Config.merge · config)) := by
  obtain ⟨hv, config, hown, hkey⟩ := h
  refine ⟨Entries.erase config ConfigError.parentKey, ?_⟩
  rw [loadBelow, if_neg hv]
  simp only [hown, hkey, hread]
  cases i.loadBelow (visited ++ [document.id]) parent (some parent.id) with
  | none => rfl
  | some above => rfl

/-- Loading a document under another name gives an answer that agrees, if its parent is found
under another name too and loading that one does. -/
theorem loadBelow_agree (hregistry : j.registry = i.registry)
    (hmem : f document.id ∈ visited.map f ↔ document.id ∈ visited)
    (hparent : ∀ name, i.LooksFor visited document name → f name = name ∧
      ((∃ place place', i.read name referrer = .error (.notFound place) ∧
          j.read name referrer' = .error (.notFound place')) ∨
        ∃ parent, i.read name referrer = .ok parent ∧
          j.read name referrer' = .ok (parent.rename f) ∧
          Option.Rel (i.registry.Agree f)
            (i.loadBelow (visited ++ [document.id]) parent (some parent.id))
            (j.loadBelow ((visited ++ [document.id]).map f) (parent.rename f)
              (some (f parent.id))))) :
    Option.Rel (i.registry.Agree f) (i.loadBelow visited document referrer)
      (j.loadBelow (visited.map f) (document.rename f) referrer') := by
  have hvisited : (visited ++ [document.id]).map f = visited.map f ++ [f document.id] := by simp
  rw [loadBelow, loadBelow]
  change Option.Rel _ _ (if f document.id ∈ visited.map f then _ else _)
  by_cases hv : document.id ∈ visited
  · rw [if_pos hv, if_pos (hmem.mpr hv)]
    have hcycle := Registry.Agree.fault (r := i.registry) (f := f)
      (.cycle (visited ++ [document.id]))
    rw [ConfigError.rename, hvisited] at hcycle
    exact .some hcycle
  · rw [if_neg hv, if_neg (hmem.not.mpr hv)]
    cases hown : i.own document with
    | error e =>
      have hagree := own_agree hregistry f document
      rw [hown] at hagree
      generalize j.own (document.rename f) = own at hagree
      cases hagree with
      | fault => exact .some (.fault e)
      | hook text h => exact .some (.hook text h)
    | ok config =>
      rw [own_rename hregistry hown]
      dsimp only
      cases hkey : Entries.get? ConfigError.parentKey config with
      | none => exact .some (.ok config)
      | some named =>
        cases named with
        | string name =>
          obtain ⟨hname, hparent⟩ := hparent name ⟨hv, config, hown, hkey⟩
          dsimp only
          rcases hparent with ⟨place, place', hread, hread'⟩ | ⟨parent, hread, hread', habove⟩
          · rw [hread, hread']
            have hfault := Registry.Agree.fault (r := i.registry) (f := f)
              (.parentNotFound name document.id)
            rw [ConfigError.rename, hname] at hfault
            exact .some hfault
          · rw [hread, hread']
            rw [hvisited] at habove
            exact Registry.Agree.above habove _
        | _ => exact .some (.fault (.parentNotText document.id))

end Inheritance

end StaticSite
