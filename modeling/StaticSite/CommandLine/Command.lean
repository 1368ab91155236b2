import StaticSite.CommandLine.Arguments
import StaticSite.Link.Basic
import StaticSite.Page.Url

/-! The commands of the program, read from its arguments. -/

namespace StaticSite

inductive Format where
  | yaml
  | json
  deriving DecidableEq

inductive Command where
  | config (file : Text) (key : Option Text) (format : Format)
  | relative (target page : Text)
  | link (link page : Text) (base : LinkBase)
  | page (source docs : Text) (style : UrlStyle) (markup : Option Text) (format : Format)
  deriving DecidableEq

namespace Command

def helpSwitch : Switch := ⟨"help", some 'h', .stop .help⟩

def commonSwitches : List Switch := [⟨"verbose", some 'v', .flag⟩, helpSwitch]

def mainSwitches : List Switch := commonSwitches ++ [⟨"version", some 'V', .stop .version⟩]

def formatSwitch : Switch := ⟨"format", some 'f', .option⟩

def configSwitches : List Switch := commonSwitches ++ [⟨"key", some 'k', .option⟩, formatSwitch]

def linkSwitches : List Switch :=
  commonSwitches ++ [⟨"page", some 'p', .option⟩, ⟨"document", some 'd', .flag⟩]

def pageSwitches : List Switch :=
  commonSwitches ++ [⟨"docs-dir", none, .option⟩, ⟨"style", some 's', .option⟩,
    ⟨"html", none, .option⟩, formatSwitch]

def format (g : Arguments) : Except Stop Format :=
  match g.value? "format" with
  | none => .ok .yaml
  | some t =>
    if t = ("yaml" : Text) then .ok .yaml
    else if t = ("json" : Text) then .ok .json
    else .error .usage

def style (g : Arguments) : Except Stop UrlStyle :=
  match g.value? "style" with
  | none => .ok .directory
  | some t =>
    if t = ("directory" : Text) then .ok .directory
    else if t = ("file" : Text) then .ok .file
    else .error .usage

/-- Paths of files are not empty. -/
def path (t : Text) : Except Stop Text := if t = [] then .error .usage else .ok t

def readConfig (args : List Text) : Except Stop Command := do
  let g ← Arguments.read configSwitches .none none args
  match g.positional with
  | [file] => return config (← path file) (g.value? "key") (← format g)
  | _ => .error .usage

def readRelative (args : List Text) : Except Stop Command := do
  let g ← Arguments.read commonSwitches .none none args
  match g.positional with
  | [target, here] => return relative target here
  | _ => .error .usage

def readLink (args : List Text) : Except Stop Command := do
  let g ← Arguments.read linkSwitches .none none args
  match g.positional with
  | [l] =>
    return link l ((g.value? "page").getD []) (if g.has "document" then .document else .siteRoot)
  | _ => .error .usage

def readPage (args : List Text) : Except Stop Command := do
  let g ← Arguments.read pageSwitches .none none args
  match g.positional with
  | [source] =>
    return page source (← path ((g.value? "docs-dir").getD "docs")) (← style g)
      (← (g.value? "html").mapM path) (← format g)
  | _ => .error .usage

def readers : List (Text × (List Text → Except Stop Command)) :=
  [("config", readConfig), ("relpath", readRelative), ("link", readLink), ("page", readPage)]

/-- Help is asked for the program, or for one of its commands. -/
def readHelp (args : List Text) : Stop :=
  match args with
  | [] => .help
  | [name] => if name = ("help" : Text) ∨ Entries.has readers name then .help else .usage
  | _ => .usage

def ofArguments (args : List Text) : Except Stop Command := do
  let (name, rest) ← Arguments.readHead mainSwitches .none args
  if name = ("help" : Text) then .error (readHelp rest)
  match Entries.get? name readers with
  | some read => read rest
  | none => .error .usage

end Command

end StaticSite
