import StaticSite.Config.Error
import StaticSite.Config.Value
import StaticSite.Text.Blank
import StaticSite.Yaml.Reading

/-! Hooks give tagged nodes their values, and a registry of hooks gives every
node of a document its value. -/

namespace StaticSite

open Yaml (Node)

/-- A hook for a tag. It may ask for the values of parts of the node that was tagged. -/
structure Hook where
  tag : Text
  value : (node : Node) → ((part : Node) → part.Part node → Except ConfigError Value) →
    Except ConfigError Value

structure Registry where
  hooks : List Hook

namespace Registry

def empty : Registry := ⟨[]⟩

/-- A hook takes the place of an earlier one for the same tag, at the end of the list. -/
def add (r : Registry) (hook : Hook) : Registry :=
  ⟨r.hooks.filter (·.tag ≠ hook.tag) ++ [hook]⟩

def tags (r : Registry) : List Text := r.hooks.map (·.tag)

def find? (r : Registry) (tag : Text) : Option Hook :=
  r.hooks.find? fun hook => Yaml.tagName hook.tag = Yaml.tagName tag

/-- Keys are scalars, and those that are no texts are spelled out. -/
def key : Node → Except ConfigError Text
  | .string t => .ok t
  | .bool b => .ok (Node.boolText b)
  | .number n => .ok n.text
  | .null => .ok "null"
  | node => .error (.keyNotScalar node)

mutual

/-- The value of a node. Tagged nodes without a hook lose their tag. -/
def value (r : Registry) : Node → Except ConfigError Value
  | .null => .ok .null
  | .bool b => .ok (.bool b)
  | .number n => .ok (.number n)
  | .string t => .ok (.string t)
  | .sequence items => (r.values items).map .sequence
  | .mapping entries => (r.entries entries).map fun es => .mapping (Entries.ofPairs es)
  | .tagged tag node => match r.find? tag with
    | some hook => hook.value node fun part _h => r.value part
    | none => r.value node
termination_by node => sizeOf node
decreasing_by
  · simp only [Node.sequence.sizeOf_spec]
    omega
  · simp only [Node.mapping.sizeOf_spec]
    omega
  · have := _h.sizeOf_le
    simp only [Node.tagged.sizeOf_spec]
    omega
  · simp only [Node.tagged.sizeOf_spec]
    omega

def values (r : Registry) : List Node → Except ConfigError (List Value)
  | [] => .ok []
  | node :: nodes => do
    let v ← r.value node
    return v :: (← r.values nodes)
termination_by nodes => sizeOf nodes

def entries (r : Registry) : List (Node × Node) → Except ConfigError (List (Text × Value))
  | [] => .ok []
  | (k, node) :: es => do
    let k ← key k
    let v ← r.value node
    return (k, v) :: (← r.entries es)
termination_by es => sizeOf es

end

/-- The value of a text; `name` is what errors call it. A text of blanks only is nothing. -/
def parse (r : Registry) (text name : Text) : Except ConfigError Value :=
  if Text.isBlankText text then .ok .null
  else match Node.ofText? text with
    | some node => r.value node
    | none => .error (.parse name)

end Registry

end StaticSite
