import StaticSite.Number.Shortest

/-! Numbers of documents: integers of 64 bits with or without sign, and floating point. -/

namespace StaticSite

inductive Number where
  | int (i : Int)
  | float (x : Binary64)
  deriving DecidableEq

namespace Number

def isSigned64 (i : Int) : Bool := -Int.pow 2 63 ≤ i && i < Int.pow 2 63

def isUnsigned64 (i : Int) : Bool := 0 ≤ i && i < Int.pow 2 64

def text : Number → Text
  | int i => (toString i).toList
  | float .nan => ".nan"
  | float (.infinite false) => ".inf"
  | float (.infinite true) => "-.inf"
  | float (.finite s m e) => Binary64.finiteText ⟨false⟩ s m e

/-- The spelling in JSON, which has no infinite numbers. -/
def jsonText : Number → Text
  | int i => (toString i).toList
  | float (.finite s m e) => Binary64.finiteText ⟨true⟩ s m e
  | float _ => "null"

def same : Number → Number → Bool
  | int i, int j => i == j
  | float x, float y => x.same y
  | _, _ => false

end Number

end StaticSite
