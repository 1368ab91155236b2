import StaticSite.Document.FrontMatter
import StaticSite.Markup.Rewriting
import StaticSite.Page.Url

/-! Pages: a Markdown source with its metadata, the URL it is written to, and
its links as they are written there. -/

namespace StaticSite

structure Page where
  source : Text
  style : UrlStyle
  metadata : Config
  markdown : Text

namespace Page

def ofFrontMatter (path : Text) (d : FrontMatter) (style : UrlStyle) : Page :=
  ⟨SitePath.normalize path, style, d.metadata, d.body⟩

def ofText (registry : Registry) (path text : Text) (style : UrlStyle) : Page :=
  ofFrontMatter path (FrontMatter.ofText registry text) style

def directory (p : Page) : Text :=
  match Text.splitLast? '/' p.source with
  | some (dir, _) => dir
  | none => []

def url (p : Page) : Text := SitePath.url p.source p.style

/-- Links of a page start from the directory of its source. -/
def placement (p : Page) : Placement := ⟨p.url, p.directory⟩

/-- The text of a main heading: a number sign, a blank and anything more. -/
def heading? (line : Text) : Option Text :=
  match Text.dropEnd (· == '\n') line with
  | '#' :: blank :: c :: t => if Text.isSpaceOrTab blank then some (Text.trim (c :: t)) else none
  | _ => none

/-- The title of the metadata, or else the first main heading. -/
def title? (p : Page) : Option Text :=
  ((p.metadata.get? "title").bind Value.text?).or ((Text.lines p.markdown).findSome? heading?)

def leadsToSource (link : Text) : Bool :=
  SitePath.isMarkdown (link.takeWhile (!Link.isSuffixStart ·))

/-- The source that a path of a link on this page means. -/
def sourceOf (p : Page) (path : Text) : Text :=
  if path.startsWith "/" ∨ p.directory = [] then path else p.directory ++ "/" ++ path

/-- A link of the source as it has to be written at the page's URL. Links to sources lead to
the URLs of those. -/
def resolveLink (p : Page) (link : Text) : Text :=
  if leadsToSource link then
    match Link.ofText? link with
    | none => link
    | some ⟨path, suffix⟩ =>
      let url := SitePath.url (p.sourceOf path) p.style
      SitePath.relative (if url = [] then "/" else url) p.url ++ suffix
  else Link.onPage p.placement .document link

def rewriteLinks (p : Page) (markup : Text) : Text := Markup.rewrite p.resolveLink markup

end Page

end StaticSite
