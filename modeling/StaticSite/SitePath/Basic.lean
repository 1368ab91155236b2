import StaticSite.Text.Basic

/-! Site paths: places of a site, written from its root with `/` between
segments. A walk reads segments one by one; `..` at the root stays there. -/

namespace StaticSite.SitePath

/-- Where one more segment leads from a place, which is given by its segments. -/
def step (place : List Text) (segment : Text) : List Text :=
  if segment = [] ∨ segment = "." then place
  else if segment = ".." then place.dropLast
  else place ++ [segment]

def walk (place : List Text) (segments : List Text) : List Text := segments.foldl step place

def resolve (path : Text) : List Text := walk [] (Text.splitOn '/' path)

/-- Depth reached so far, and how often a walk has left the root upwards. -/
def climbStep : Nat × Nat → Text → Nat × Nat
  | (depth, above), segment =>
    if segment = [] ∨ segment = "." then (depth, above)
    else if segment = ".." then if depth = 0 then (0, above + 1) else (depth - 1, above)
    else (depth + 1, above)

def levelsAbove (path : Text) : Nat := ((Text.splitOn '/' path).foldl climbStep (0, 0)).2

/-- The directory part of a page path. A last segment with a dot names a document. -/
def directory (page : Text) : Text :=
  let page := Text.dropStart Text.isSlash page
  match Text.splitLast? '/' page with
  | some (dir, name) => if name.contains '.' then dir else page
  | none => if page.contains '.' then [] else page

/-- Segments that two places share from the root on. -/
def common : List Text → List Text → Nat
  | a :: as, b :: bs => if a = b then common as bs + 1 else 0
  | _, _ => 0

/-- Steps up to the shared part, then down to the target. -/
def between (base target : List Text) : List Text :=
  List.replicate (base.length - common base target) (".." : Text) ++ target.drop (common base target)

/-- The shortest spelling of `target` as seen from `page`. -/
def relative (target page : Text) : Text :=
  let parts := between (resolve (directory page)) (resolve target)
  let path : Text := if parts = [] then "." else Text.joinWith '/' parts
  if target.endsWith "/" then path ++ "/" else path

/-- A path without dot segments and needless separators. -/
def normalize (path : Text) : Text :=
  let plain := Text.joinWith '/' (resolve path)
  if path.endsWith "/" ∧ plain ≠ [] then plain ++ "/" else plain

end StaticSite.SitePath
