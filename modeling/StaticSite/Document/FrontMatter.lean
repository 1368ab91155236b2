import StaticSite.Config.Registry
import StaticSite.Document.KeyLines

/-! Metadata at the start of a document: a YAML block between marks, or key
lines where there is no block. -/

namespace StaticSite

structure FrontMatter where
  metadata : Config
  body : Text

namespace FrontMatter

def hasMetadata (d : FrontMatter) : Bool := !d.metadata.isEmpty

def plain (t : Text) : FrontMatter := ⟨[], t⟩

/-- What follows the mark that opens a block, on the next line. -/
def afterOpening? (t : Text) : Option Text :=
  (Text.stripStart? t "---").bind fun t => Text.afterLineEnd? (t.dropWhile Text.isSpaceOrTab)

/-- What follows a mark that closes a block. The text may end after it. -/
def afterClosing? (t : Text) : Option Text :=
  ((Text.stripStart? t "---").or (Text.stripStart? t "...")).bind fun t =>
    match t.dropWhile Text.isSpaceOrTab with
    | [] => some []
    | t => Text.afterLineEnd? t

/-- The text up to the first line feed with a closing mark behind it, and the text after the mark. -/
def takeBlock? : Text → Option (Text × Text)
  | [] => none
  | c :: t =>
    match if c = '\n' then afterClosing? t else none with
    | some rest => some ([c], rest)
    | none => (takeBlock? t).map fun (block, rest) => (c :: block, rest)

def block? (t : Text) : Option (Text × Text) := (afterOpening? t).bind takeBlock?

def trimBody (t : Text) : Text := Text.dropStart Text.isLineEnd t

def ofKeyLines (t : Text) : FrontMatter :=
  let (metadata, rest) := KeyLine.read [] none (Text.lines t)
  ⟨metadata, trimBody rest.flatten⟩

/-- A block that is no mapping is left in the text. -/
def ofBlock (registry : Registry) (t block rest : Text) : FrontMatter :=
  match registry.parse block "front matter" with
  | .ok (.mapping metadata) => ⟨metadata, trimBody rest⟩
  | _ => plain t

def ofText (registry : Registry) (t : Text) : FrontMatter :=
  match block? t with
  | some (block, rest) => ofBlock registry t block rest
  | none => ofKeyLines t

end FrontMatter

end StaticSite
