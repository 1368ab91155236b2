import StaticSite.Text.Basic

/-! Paths of a disk as they are written. -/

namespace StaticSite.Path

def isAbsolute (path : Text) : Bool := path.startsWith "/"

/-- A path seen from a directory. An absolute path stands for itself. -/
def join (dir path : Text) : Text :=
  if isAbsolute path then path
  else if dir = [] ∨ dir.endsWith "/" then dir ++ path
  else dir ++ "/" ++ path

/-- How a path begins, before its names, and the rest. -/
def splitStart (path : Text) : Text × Text :=
  match path with
  | '/' :: t => ("/", t)
  | ['.'] => (".", [])
  | '.' :: '/' :: t => (".", '/' :: t)
  | t => ([], t)

/-- Drops separators and names of one dot from the front of a reversed path. -/
def trimReversed : Text → Text
  | '/' :: t => trimReversed t
  | ['.'] => []
  | '.' :: '/' :: t => trimReversed t
  | t => t

def parent? (path : Text) : Option Text :=
  let (start, names) := splitStart path
  match trimReversed names.reverse with
  | [] => if start = ("." : Text) then some [] else none
  | t => some (start ++ (trimReversed (t.dropWhile (· ≠ '/'))).reverse)

end StaticSite.Path
