import StaticSite.Text.Basic

/-! Texts as octets in UTF-8. -/

namespace StaticSite

abbrev Octets := List UInt8

namespace Text

def toUtf8 (t : Text) : Octets := (String.ofList t).toUTF8.toList

/-- The text of some octets, if they are well formed. -/
def ofUtf8? (octets : Octets) : Option Text :=
  (String.fromUTF8? ⟨octets.toArray⟩).map String.toList

end Text

end StaticSite
