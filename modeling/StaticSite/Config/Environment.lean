import StaticSite.Config.Registry

/-! Environment variables, and the hook that puts them into documents: a name,
or a sequence of names that are tried in turn, with a default at its end. -/

namespace StaticSite

open Yaml (Node)

abbrev Environment := Text → Option Text

namespace Environment

def ofEntries (vars : Entries Text) : Environment := fun name => vars.get? name

/-- The environment of a process. A variable is found by the text before an equals sign. -/
def ofProcess (vars : Entries Text) : Environment := fun name =>
  if name = [] ∨ name.contains '\x00' then none
  else vars.findSome? fun (n, v) => Text.stripStart? (n ++ "=" ++ v) (name ++ "=")

def trueWords : List Text := ["true", "yes", "on"]

def falseWords : List Text := ["false", "no", "off"]

/-- Words for truth values are such in any case, everything else is a text. -/
def valueOf (t : Text) : Value :=
  if trueWords.contains (Text.lower t) then .bool true
  else if falseWords.contains (Text.lower t) then .bool false
  else .string t

def hookTag : Text := "ENV"

def name : Node → Except ConfigError Text
  | .string t => .ok t
  | .number n => .ok n.text
  | .bool b => .ok (Node.boolText b)
  | _ => .error (.tag hookTag .nameNotScalar)

/-- The value of the first variable of a list that is set. Names are checked up to there. -/
def firstSet (env : Environment) : List Node → Except ConfigError (Option Value)
  | [] => .ok none
  | node :: nodes => do
    match env (← name node) with
    | some t => return some (valueOf t)
    | none => firstSet env nodes

/-- The names of a sequence, and its last item as default if it is not the only one. -/
def splitDefault (items : List Node) : List Node × Option Node :=
  if items.length > 1 then (items.dropLast, items.getLast?) else (items, none)

theorem default_mem {items : List Node} {node : Node} (h : (splitDefault items).2 = some node) :
    node ∈ items := by
  rw [splitDefault] at h
  split at h
  · exact List.mem_of_getLast? h
  · cases h

def hook (env : Environment) : Hook where
  tag := hookTag
  value
    | .sequence items, value => do
      match ← firstSet env (splitDefault items).1 with
      | some v => return v
      | none => match h : (splitDefault items).2 with
        | some node => value node (.item (default_mem h) .self)
        | none => return .null
    | .null, _ => .ok .null
    | .mapping _, _ => .error (.tag hookTag .notNames)
    | .tagged .., _ => .error (.tag hookTag .notNames)
    | node, _ => do return (← firstSet env [node]).getD .null

end Environment

def Registry.reading (env : Environment) : Registry := Registry.empty.add (Environment.hook env)

end StaticSite
