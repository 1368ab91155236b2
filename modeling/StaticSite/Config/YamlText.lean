import StaticSite.Config.Value
import StaticSite.Yaml.Spelling

/-! Values written as YAML in block style. Every entry begins at the column of
its collection, and a collection inside a sequence begins on the line of its dash. -/

namespace StaticSite.Value

open Yaml (isBreak)
open Yaml.Spelling (padding isSimpleKey)

/-- Ends a line unless a block scalar has ended it. -/
def closed (line : Text) : Text := if line.getLast?.any isBreak then line else line ++ "\n"

/-- Where a value begins: on the line of a mark, at its own column, or after the colon of an
entry of the mapping at a column. -/
inductive Position where
  | atMark
  | afterColon
  deriving DecidableEq

mutual

/-- A value up to its last character, or up to the end of its last line. -/
def textAt (position : Position) (column : Nat) : Value → Text
  | null => spaced position "null"
  | bool b => spaced position (if b then "true" else "false")
  | number n => spaced position n.text
  | string t => match position with
    | .atMark => Yaml.Spelling.ofText column t
    | .afterColon => ' ' :: Yaml.Spelling.ofText (column + 2) t
  | sequence items =>
    if items.isEmpty then spaced position "[]"
    else match position with
      | .atMark => (itemLines column items).drop column
      | .afterColon => '\n' :: itemLines column items
  | mapping entries =>
    if entries.isEmpty then spaced position "\x7b\x7d"
    else match position with
      | .atMark => (entryLines column entries).drop column
      | .afterColon => '\n' :: entryLines (column + 2) entries
where
  spaced : Position → Text → Text
    | .atMark, t => t
    | .afterColon, t => ' ' :: t

def itemLines (column : Nat) : List Value → Text
  | [] => []
  | v :: vs =>
    padding column ++ closed ("- " ++ textAt .atMark (column + 2) v) ++ itemLines column vs

/-- Keys that are not simple get a line of their own, after a question mark. -/
def entryLines (column : Nat) : List (Text × Value) → Text
  | [] => []
  | (k, v) :: es =>
    let key := Yaml.Spelling.ofText (column + 2) k
    padding column ++
      (if isSimpleKey k then closed (key ++ ":" ++ textAt .afterColon column v)
      else closed ("? " ++ key) ++
        padding column ++ closed (": " ++ textAt .atMark (column + 2) v)) ++
      entryLines column es

end

def yamlText (v : Value) : Text :=
  match v with
  | string t => closed (Yaml.Spelling.ofText 2 t)
  | v => closed (textAt .atMark 0 v)

end StaticSite.Value
