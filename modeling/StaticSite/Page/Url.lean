import StaticSite.SitePath.Basic

/-! Output URLs of source files. -/

namespace StaticSite

/-- Whether a page becomes a directory of its own or a file. -/
inductive UrlStyle where
  | directory
  | file
  deriving DecidableEq, Inhabited

namespace SitePath

def markdownEndings : List Text := [".markdown", ".mdown", ".mkdn", ".mkd", ".md"]

def isMarkdown (path : Text) : Bool := markdownEndings.any path.endsWith

/-- Pages of these names stand for their directory. -/
def isIndexName (name : Text) : Bool := name == ("index" : Text) || name == ("README" : Text)

/-- The URL of a Markdown source, given without its ending. -/
def urlOfStem (stem : Text) (style : UrlStyle) : Text :=
  let (dir, name) := (Text.splitLast? '/' stem).getD ([], stem)
  match style, isIndexName name with
  | .directory, true => if dir = [] then [] else dir ++ "/"
  | .directory, false => stem ++ "/"
  | .file, true => if dir = [] then "index.html" else dir ++ "/index.html"
  | .file, false => stem ++ ".html"

/-- The URL that a source file is written to. Files that are not Markdown keep their path. -/
def url (source : Text) (style : UrlStyle) : Text :=
  let path := normalize source
  if isMarkdown path then
    urlOfStem (match Text.splitLast? '.' path with | some (stem, _) => stem | none => path) style
  else path

end SitePath

end StaticSite
