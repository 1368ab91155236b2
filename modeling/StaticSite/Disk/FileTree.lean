import StaticSite.Disk.Basic
import StaticSite.Disk.Path
import StaticSite.Text.Utf8

/-! A tree of files, directories and symbolic links. A path is followed name by
name, and a link is replaced by the path it holds. -/

namespace StaticSite

/-- A place in a tree, by the names from the root on. -/
abbrev Place := List Text

inductive FileEntry where
  | file (content : Octets)
  | directory
  | link (target : Text)
  deriving DecidableEq

structure FileTree where
  entries : List (Place × FileEntry)

namespace FileTree

def empty : FileTree := ⟨[]⟩

/-- What is at a place. The root is always there. -/
def get? (tree : FileTree) (place : Place) : Option FileEntry :=
  if place = [] then some .directory else tree.entries.lookup place

/-- Puts an entry at a place, without regard to what is above it. -/
def set (tree : FileTree) (place : Place) (entry : FileEntry) : FileTree :=
  ⟨(place, entry) :: tree.entries.filter (·.1 ≠ place)⟩

def greatestLinks : Nat := 40

def greatestName : Nat := 255

def greatestPath : Nat := 4095

/-- Follows names from a place on. Names can be looked up in directories only. -/
def walk (tree : FileTree) (links : Nat) (place : Place) :
    List Text → Except FileFault Place
  | [] => .ok place
  | name :: names =>
    if tree.get? place ≠ some .directory then .error .notDirectory
    else if name = [] ∨ name = "." then tree.walk links place names
    else if name = ".." then tree.walk links place.dropLast names
    else if name.octets > greatestName then .error .nameTooLong
    else match tree.get? (place ++ [name]) with
      | none => .error .missing
      | some (.link target) => match links with
        | 0 => .error .tooManyLinks
        | links + 1 =>
          tree.walk links (if Path.isAbsolute target then [] else place)
            (Text.splitOn '/' target ++ names)
      | some _ => tree.walk links (place ++ [name]) names
termination_by names => (links, names.length)

/-- The place that a path means, as seen from the current directory. -/
def resolve (tree : FileTree) (current : Place) (path : Text) : Except FileFault Place :=
  if path.contains '\x00' then .error .zeroInName
  else if path = [] then .error .missing
  else if path.octets > greatestPath then .error .nameTooLong
  else tree.walk greatestLinks (if Path.isAbsolute path then [] else current)
    (Text.splitOn '/' path)

def pathOf (place : Place) : Text := '/' :: Text.joinWith '/' place

def textAt (tree : FileTree) (place : Place) : Except FileFault Text :=
  match tree.get? place with
  | none => .error .missing
  | some (.file content) => match Text.ofUtf8? content with
    | some t => .ok t
    | none => .error .notText
  | some _ => .error .isDirectory

/-- The tree as a disk. Only places that are there count. -/
def disk (tree : FileTree) (current : Place) : Disk where
  canonical path := (tree.resolve current path).bind fun place =>
    if tree.get? place = none then .error .missing else .ok (pathOf place)
  text path := (tree.resolve current path).bind tree.textAt
  places := ([] :: tree.entries.map (·.1)).map pathOf
  mem_places {path place} h := by
    cases hr : tree.resolve current path with
    | error e => simp [hr, Except.bind] at h
    | ok p =>
      simp only [hr, Except.bind] at h
      split at h
      · cases h
      · rename_i hp
        cases h
        refine List.mem_map_of_mem ?_
        rw [get?] at hp
        split at hp
        · rename_i hnil
          simp [hnil]
        · cases hl : tree.entries.lookup p with
          | none => exact absurd hl hp
          | some entry =>
            refine List.mem_cons_of_mem _ (List.mem_map.mpr ⟨(p, entry), ?_, rfl⟩)
            obtain ⟨l₁, l₂, heq, _⟩ := List.lookup_eq_some_iff.mp hl
            simp [heq]

/-- Where a path leads if everything that is missing were made. -/
def landing (tree : FileTree) (links : Nat) (place : Place) : List Text → Place
  | [] => place
  | name :: names =>
    if name = [] ∨ name = "." then tree.landing links place names
    else if name = ".." then tree.landing links place.dropLast names
    else match tree.get? (place ++ [name]) with
      | some (.link target) => match links with
        | 0 => place ++ name :: names
        | links + 1 =>
          tree.landing links (if Path.isAbsolute target then [] else place)
            (Text.splitOn '/' target ++ names)
      | _ => tree.landing links (place ++ [name]) names
termination_by names => (links, names.length)

def makeParents (tree : FileTree) (place : Place) : FileTree :=
  ((List.range place.length).map place.take).foldl (fun tree p =>
    if tree.get? p = none then tree.set p .directory else tree) tree

/-- Writes an entry at a path, with all directories above it. Links on the way are followed. -/
def write (tree : FileTree) (current : Place) (path : Text) (entry : FileEntry) : FileTree :=
  let place := tree.landing greatestLinks (if Path.isAbsolute path then [] else current)
    (Text.splitOn '/' path)
  (tree.makeParents place).set place entry

/-- Makes a link. A link that is there already is replaced, not followed. -/
def link (tree : FileTree) (current : Place) (path target : Text) : FileTree :=
  match Text.splitLast? '/' path with
  | some (dir, name) =>
    let place := tree.landing greatestLinks current (Text.splitOn '/' dir) ++ [name]
    (tree.makeParents place).set place (.link target)
  | none => (tree.makeParents (current ++ [path])).set (current ++ [path]) (.link target)

end FileTree

end StaticSite
