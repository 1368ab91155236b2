import StaticSite.Config.Entries
import StaticSite.Number.Basic

/-! Values of a configuration, where tags have been given their meaning and
every key is a text. -/

namespace StaticSite

inductive Value where
  | null
  | bool (b : Bool)
  | number (n : Number)
  | string (t : Text)
  | sequence (items : List Value)
  | mapping (entries : List (Text × Value))
  deriving Inhabited

abbrev Config := Entries Value

namespace Value

def isNull : Value → Bool
  | null => true
  | _ => false

def bool? : Value → Option Bool
  | bool b => some b
  | _ => none

def text? : Value → Option Text
  | string t => some t
  | _ => none

def int64? : Value → Option Int
  | number (.int i) => if Number.isSigned64 i then some i else none
  | _ => none

def items? : Value → Option (List Value)
  | sequence items => some items
  | _ => none

def entries? : Value → Option Config
  | mapping entries => some entries
  | _ => none

/-- What lies at a path of keys inside a value. -/
def follow : List Text → Value → Option Value
  | [], v => some v
  | key :: keys, v => (v.entries?.bind (Entries.get? key)).bind (follow keys)

end Value

/-- The value at a path of keys with dots between them. -/
def Config.getPath (config : Config) (path : Text) : Option Value :=
  Value.follow (Text.splitOn '.' path) (.mapping config)

end StaticSite
