import StaticSite.Disk.Fault
import StaticSite.Yaml.Display

/-! What can be wrong with a configuration. -/

namespace StaticSite

inductive TagFault where
  | notNames
  | nameNotScalar
  | notText
  deriving DecidableEq

def TagFault.message : TagFault → Text
  | notNames => "expected a variable name or a sequence of names"
  | nameNotScalar => "variable names must be scalars"
  | notText => "expected a string"

inductive ConfigError where
  | notFound (name : Text)
  | parentNotFound (name referrer : Text)
  | cycle (documents : List Text)
  | parse (name : Text)
  | notMapping (name : Text)
  | parentNotText (name : Text)
  | keyNotScalar (key : Yaml.Node)
  | tag (name : Text) (fault : TagFault)
  | variableUnset (field name : Text)
  | file (fault : FileFault)

namespace ConfigError

/-- The key of a configuration that names its parent. -/
def parentKey : Text := "INHERIT"

def arrows : List Text → Text
  | [] => []
  | [name] => name
  | name :: names => name ++ " -> " ++ arrows names

def unsetMessage (name : Text) : Text := "$\x7b" ++ name ++ "\x7d not set"

def message : ConfigError → Text
  | notFound name => "Configuration file not found: " ++ name
  | parentNotFound name referrer =>
    "Inherited configuration not found: " ++ name ++ " (inherited by " ++ referrer ++ ")"
  | cycle documents => "Configuration inheritance cycle: " ++ arrows documents
  | parse name => "YAML parse error in " ++ name
  | notMapping name => "Configuration error: " ++ name ++ " must be a mapping at the top level"
  | parentNotText name =>
    "Configuration error: " ++ parentKey ++ " in " ++ name ++ " must be a string"
  | keyNotScalar key =>
    "Configuration error: mapping keys must be scalars, found " ++ key.display
  | tag name fault => "Invalid !" ++ name ++ " tag: " ++ fault.message
  | variableUnset field name =>
    "Environment variable error in " ++ field ++ ": " ++ unsetMessage name
  | file fault => "I/O error: " ++ fault.message

end ConfigError

end StaticSite
