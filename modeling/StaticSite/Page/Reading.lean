import StaticSite.Config.Environment
import StaticSite.Disk.Basic
import StaticSite.Disk.Path
import StaticSite.Page.Basic

/-! Reading of pages from a disk. -/

namespace StaticSite

inductive PageError where
  | notFound (path : Text)
  | file (fault : FileFault)
  deriving DecidableEq

namespace PageError

def message : PageError → Text
  | notFound path => "Source file not found: " ++ path
  | file fault => "I/O error: " ++ fault.message

def ofFault (path : Text) : FileFault → PageError
  | .missing => notFound path
  | fault => file fault

end PageError

/-- Reads the source of a page below a directory. Its metadata may use the environment. -/
def Page.read (disk : Disk) (env : Environment) (docs source : Text) (style : UrlStyle) :
    Except PageError Page :=
  let path := Path.join docs (SitePath.normalize source)
  match disk.text path with
  | .ok text => .ok (Page.ofText (Registry.reading env) source text style)
  | .error fault => .error (PageError.ofFault path fault)

end StaticSite
