import StaticSite.CommandLine.Command
import StaticSite.Config.FileSource
import StaticSite.Config.JsonText
import StaticSite.Config.Loader
import StaticSite.Config.YamlText
import StaticSite.Page.Reading

/-! What a command prints, and how it ends. -/

namespace StaticSite

structure Outcome where
  code : Nat
  output : Text
  messages : Text
  deriving DecidableEq

inductive CommandError where
  | config (e : ConfigError)
  | page (e : PageError)
  | file (fault : FileFault)
  | keyNotFound (key : Text)

namespace CommandError

def message : CommandError → Text
  | config e => e.message
  | page e => e.message
  | file fault => fault.message
  | keyNotFound key => "Key not found: " ++ key

/-- The path that has to be looked at before the command can go on. -/
def unseen? : CommandError → Option Text
  | config (.file (.unseen path)) => some path
  | page (.file (.unseen path)) => some path
  | file (.unseen path) => some path
  | _ => none

end CommandError

structure Surroundings where
  disk : Disk
  vars : Entries Text
  directory : Text

namespace Command

/-- A result ends with one line feed. -/
def line (t : Text) : Text := Text.dropEnd (· == '\n') t ++ "\n"

def valueText (format : Format) (v : Value) : Text :=
  line (match format with
    | .yaml => v.yamlText
    | .json => v.jsonText)

def summary (p : Page) : Value :=
  .mapping [("src_path", .string p.source), ("url", .string p.url),
    ("title", (p.title?.map Value.string).getD .null), ("meta", .mapping p.metadata)]

def runConfig (s : Surroundings) (file : Text) (key : Option Text) (format : Format) :
    Except CommandError (Text × Text) := do
  let env := Environment.ofProcess s.vars
  let loader : Loader := ⟨Source.ofDisk s.disk env s.directory, Registry.reading env⟩
  let config ← (loader.load file).mapError .config
  match key with
  | some key => match config.getPath key with
    | some v => return (valueText format v, [])
    | none => .error (.keyNotFound key)
  | none =>
    let count := (toString config.length).toList
    return (valueText format (.mapping config),
      "Loaded " ++ file ++ " (" ++ count ++ " top-level keys)\n")

def runPage (s : Surroundings) (source docs : Text) (style : UrlStyle) (markup : Option Text)
    (format : Format) : Except CommandError (Text × Text) := do
  let page ← (Page.read s.disk (Environment.ofProcess s.vars) docs source style).mapError .page
  match markup with
  | some path =>
    let markup ← (s.disk.text path).mapError .file
    return (line (page.rewriteLinks markup), "Links rewritten for " ++ page.url ++ "\n")
  | none => return (valueText format (summary page), [])

/-- The output of a command and its messages. -/
def run (s : Surroundings) : Command → Except CommandError (Text × Text)
  | config file key format => runConfig s file key format
  | relative target here => .ok (line (SitePath.relative target here), [])
  | link l here base => .ok (line (Link.onPage { url := here } base l), [])
  | page source docs style markup format => runPage s source docs style markup format

end Command

namespace Outcome

def usage : Text := "Usage: quire [-v] <config|relpath|link|page|help> [ARGS]\n"

def ofStop : Stop → Outcome
  | .usage => ⟨2, [], usage⟩
  | .help => ⟨0, usage, []⟩
  | .version => ⟨0, "quire 0.1.0\n", []⟩

def ofResult : Except CommandError (Text × Text) → Outcome
  | .ok (output, messages) => ⟨0, output, messages⟩
  | .error e => ⟨1, [], "Error: " ++ e.message ++ "\n"⟩

def ofArguments (s : Surroundings) (args : List Text) : Outcome :=
  match Command.ofArguments args with
  | .error stop => ofStop stop
  | .ok command => ofResult (command.run s)

end Outcome

end StaticSite
