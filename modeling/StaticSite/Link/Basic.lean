import StaticSite.SitePath.Basic

/-! Links as written in pages: which of them stay within the site, and how
those are spelled on the page that shows them. -/

namespace StaticSite

/-- Where a page is written to, and the directory that its own links start from. -/
structure Placement where
  url : Text
  directory : Text := SitePath.directory url
  deriving DecidableEq

inductive LinkBase where
  | siteRoot
  | document
  deriving DecidableEq

/-- A site link: its path, and the query and fragment after it. -/
structure Link where
  path : Text
  suffix : Text
  deriving DecidableEq

namespace Link

def isSchemeChar (c : Char) : Bool := c.isAlphanum || c == '+' || c == '-' || c == '.'

def hasScheme (link : Text) : Bool :=
  match Text.splitFirst? ':' link with
  | some (c :: scheme, _) => c.isAlpha && scheme.all isSchemeChar
  | _ => false

/-- Links with a scheme, and links to another host. -/
def isExternal (link : Text) : Bool := link.startsWith "//" || hasScheme link

def isSuffixStart (c : Char) : Bool := c == '?' || c == '#'

def slashed (c : Char) : Char := if c = '\\' then '/' else c

/-- A link taken apart; nothing for links that are left as they are. -/
def ofText? (link : Text) : Option Link :=
  if link = [] ∨ link.startsWith "#" ∨ isExternal link then none
  else
    let path := link.takeWhile (!isSuffixStart ·)
    if path = [] then none
    else some ⟨path.map slashed, link.dropWhile (!isSuffixStart ·)⟩

/-- The site path that a link's path means on a page. -/
def target (page : Placement) (base : LinkBase) (path : Text) : Text :=
  if base = .document ∧ ¬ path.startsWith "/" then
    let dir := Text.dropEnds Text.isSlash page.directory
    if dir = [] then path else dir ++ "/" ++ path
  else path

/-- Puts levels above the root in front of a relative path. -/
def climbing (levels : Nat) (relative : Text) : Text :=
  let up := (List.replicate levels ("../" : Text)).flatten
  if levels = 0 then relative
  else if relative = "." then (List.replicate (levels - 1) ("../" : Text)).flatten ++ ".."
  else if relative = "./" then up
  else up ++ relative

/-- The spelling on `page` of a path that means `target`. -/
def pathOn (page : Placement) (target : Text) : Text :=
  let levels := if target.startsWith "/" then 0 else SitePath.levelsAbove target
  climbing levels (SitePath.relative target page.url)

def onPage (page : Placement) (base : LinkBase) (link : Text) : Text :=
  match ofText? link with
  | none => link
  | some ⟨path, suffix⟩ => pathOn page (target page base path) ++ suffix

end Link

end StaticSite
