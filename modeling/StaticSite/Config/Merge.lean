import StaticSite.Config.Value

/-! Merging of configurations. Mappings are merged key by key, everything else
is replaced as a whole. -/

namespace StaticSite

namespace Value

mutual

/-- A value of a parent under what the child has in its place. -/
def override : Value → Option Value → Value
  | mapping es, some (mapping cs) => mapping (overrideAll es cs ++ cs.filter (!Entries.has es ·.1))
  | v, none => v
  | _, some w => w

def overrideAll : List (Text × Value) → Config → Config
  | [], _ => []
  | (k, v) :: es, child => (k, override v (child.get? k)) :: overrideAll es child

end

end Value

/-- The parent's keys in their order, then the keys that only the child has. -/
def Config.merge (parent child : Config) : Config :=
  Value.overrideAll parent child ++ child.filter (!parent.has ·.1)

theorem Value.get?_overrideAll (key : Text) (parent child : Config) :
    (overrideAll parent child).get? key = (parent.get? key).map (override · (child.get? key)) := by
  induction parent with
  | nil => rfl
  | cons e parent ih =>
    obtain ⟨k, v⟩ := e
    simp only [overrideAll, Entries.get?]
    split
    · rename_i h
      simp [h]
    · exact ih

end StaticSite
