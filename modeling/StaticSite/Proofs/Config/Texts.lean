import StaticSite.Config.Registry

/-! Configurations that hold only texts. Unlike values, texts are compared by
computing, so what a document says can be read off. -/

namespace StaticSite

/-- The texts of a configuration that has nothing else. -/
def Config.texts? : Config → Option (Entries Text)
  | [] => some []
  | (key, v) :: es => do return (key, ← v.text?) :: (← Config.texts? es)

theorem Config.eq_of_texts? {config : Config} {texts : Entries Text}
    (h : config.texts? = some texts) : config = texts.map fun (key, t) => (key, .string t) := by
  induction config generalizing texts with
  | nil =>
    cases h
    rfl
  | cons e config ih =>
    obtain ⟨key, v⟩ := e
    cases v with
    | string t =>
      obtain ⟨rest, hrest, hcons⟩ := Option.bind_eq_some_iff.mp h
      cases hcons
      rw [List.map_cons, ← ih hrest]
    | _ => cases h

theorem Registry.parse_of_texts? {r : Registry} {text id : Text} (texts : Entries Text)
    (h : ((r.parse text id).toOption.bind Value.entries?).bind Config.texts? = some texts) :
    r.parse text id = .ok (.mapping (texts.map fun (key, t) => (key, .string t))) := by
  cases hv : r.parse text id with
  | error e =>
    rw [hv] at h
    cases h
  | ok v =>
    rw [hv] at h
    cases v with
    | mapping config => rw [Config.eq_of_texts? h]
    | _ => cases h

end StaticSite
