import StaticSite.Config.Registry

/-! Simple hooks: capital letters, a node together with the name of its tag,
and a fixed value. -/

namespace StaticSite

namespace Hook

def capitals (tag : Text) : Hook where
  tag
  value
    | .string t, _ => .ok (.string (Text.upper t))
    | _, _ => .error (.tag tag .notText)

def labelled (tag : Text) : Hook where
  tag
  value node value := do
    let v ← value node .self
    return .mapping [("tag", .string tag), ("value", v)]

def constant (tag : Text) (v : Value) : Hook where
  tag
  value _ _ := .ok v

end Hook

def Registry.display (r : Registry) : Text :=
  Yaml.Node.listed "[" (r.tags.map Text.escaped) "]"

end StaticSite
