import StaticSite.Config.Value
import StaticSite.Text.Blank
import StaticSite.Text.Lines

/-! Metadata in key lines at the start of a document: `Key: value`, and
indented lines that continue the value before them. A blank line ends them. -/

namespace StaticSite

namespace KeyLine

def isKeyChar (c : Char) : Bool := c.isAlphanum || c == '_' || c == '-'

def content (line : Text) : Text := Text.dropEnd Text.isLineEnd line

/-- Up to three spaces, a key in small letters, a colon and a value. -/
def entry? (content : Text) : Option (Text × Text) :=
  let spaces := content.takeWhile (· == ' ')
  let rest := content.dropWhile (· == ' ')
  let key := rest.takeWhile isKeyChar
  match rest.dropWhile isKeyChar with
  | ':' :: value =>
    if spaces.length ≤ 3 ∧ key ≠ [] then some (Text.lower key, Text.trim value) else none
  | _ => none

/-- The value of a line that is indented by four spaces or a tab. -/
def continuation? : Text → Option Text
  | '\t' :: value => some (Text.trim value)
  | ' ' :: ' ' :: ' ' :: ' ' :: value => some (Text.trim value)
  | _ => none

/-- Adds a value to a key, after a space if the key has one already. -/
def append (metadata : Config) (key value : Text) : Config :=
  match Entries.get? key metadata with
  | some (.string before) => Entries.insert key (.string (before ++ " " ++ value)) metadata
  | _ => Entries.insert key (.string value) metadata

/-- The metadata of lines after some key, and the lines that are left. -/
def read (metadata : Config) (last : Option Text) : List Text → Config × List Text
  | [] => (metadata, [])
  | line :: lines =>
    if Text.isBlankText (content line) then (metadata, lines)
    else match entry? (content line), last, continuation? (content line) with
      | some (key, value), _, _ => read (append metadata key value) (some key) lines
      | none, some key, some value => read (append metadata key value) (some key) lines
      | none, _, _ => (metadata, line :: lines)

end KeyLine

end StaticSite
