import StaticSite.Text.Escaped
import StaticSite.Yaml.Node

/-! Nodes as they are shown in messages, with the kind of each node. -/

namespace StaticSite.Yaml.Node

def boolText (b : Bool) : Text := if b then "true" else "false"

def listed (start : Text) (parts : List Text) (close : Text) : Text :=
  let rec go : List Text → Text
    | [] => []
    | [part] => part
    | part :: parts => part ++ ", " ++ go parts
  start ++ go parts ++ close

mutual

def display : Node → Text
  | null => "Null"
  | bool b => "Bool(" ++ boolText b ++ ")"
  | number n => "Number(" ++ n.text ++ ")"
  | string t => "String(" ++ Text.escaped t ++ ")"
  | sequence items => listed "Sequence [" (displayItems items) "]"
  | mapping entries => listed "Mapping \x7b" (displayEntries entries) "\x7d"
  | tagged tag n =>
    "TaggedValue \x7b tag: !" ++ tagName tag ++ ", value: " ++ display n ++ " \x7d"

def displayItems : List Node → List Text
  | [] => []
  | n :: ns => display n :: displayItems ns

/-- Scalar keys are shown without their kind. -/
def displayEntries : List (Node × Node) → List Text
  | [] => []
  | (k, v) :: es =>
    let key := match k with
      | bool b => boolText b
      | number n => n.text
      | string t => Text.escaped t
      | k => display k
    (key ++ ": " ++ display v) :: displayEntries es

end

end StaticSite.Yaml.Node
