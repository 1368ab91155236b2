import StaticSite.Config.Value

/-! Values as data of a known type. A reader gives nothing for a value of any other type. -/

namespace StaticSite

abbrev Typed (α : Type) := Value → Option α

namespace Typed

def unit : Typed Unit
  | .null => some ()
  | _ => none

def bool : Typed Bool := Value.bool?

def text : Typed Text := Value.text?

/-- Nothing, or what another reader gives. -/
def option {α : Type} (read : Typed α) : Typed (Option α)
  | .null => some none
  | v => (read v).map some

def int (inRange : Int → Bool) : Typed Int
  | .number (.int i) => if inRange i then some i else none
  | _ => none

def signed64 : Typed Int := int Number.isSigned64

def unsigned64 : Typed Int := int Number.isUnsigned64

def unsigned8 : Typed Int := int fun i => 0 ≤ i && i < 256

/-- Integers are rounded to the nearest number. -/
def float : Typed Binary64
  | .number (.float x) => some x
  | .number (.int i) => some (Binary64.ofInt i)
  | _ => none

/-- A sequence; nothing counts as an empty one. -/
def list {α : Type} (read : Typed α) : Typed (List α)
  | .sequence items => items.mapM read
  | .null => some []
  | _ => none

/-- Puts an entry before the first one with a greater key. -/
def insertSorted {α : Type} (e : Text × α) : Entries α → Entries α
  | [] => [e]
  | e' :: es => if e.1 < e'.1 then e :: e' :: es else e' :: insertSorted e es

/-- A mapping, with its keys in order; nothing counts as an empty one. -/
def sortedMap {α : Type} (read : Typed α) : Typed (Entries α)
  | .mapping entries => do
    let es ← entries.mapM fun (k, v) => (read v).map ((k, ·))
    return es.foldr insertSorted []
  | .null => some []
  | _ => none

/-- The theme of a site: its name, and a directory that adds to it. -/
structure Theme where
  name : Text
  customDir : Option Text
  deriving DecidableEq

/-- Keys that a theme does not have are passed over. -/
def theme : Typed Theme
  | .mapping entries => do
    let name ← (Entries.get? "name" entries).bind text
    let customDir ← (option text) ((Entries.get? "custom_dir" entries).getD .null)
    return ⟨name, customDir⟩
  | _ => none

end Typed

end StaticSite
