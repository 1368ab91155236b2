import StaticSite.Document.KeyLines
import StaticSite.Proofs.Config.Pairs
import StaticSite.Proofs.Text.Separated

/-! Values under keys. Those that come under one key are joined, in the order
in which they come, and a key has the place of its first value. -/

namespace StaticSite

namespace KeyLine

def joinedUnder (pairs : List (Text × Text)) (key : Text) : Text :=
  Text.joinWith ' ' ((pairs.filter (·.1 = key)).map (·.2))

/-- Keys in the order in which they come first, each with all its values, joined. -/
def grouped (pairs : List (Text × Text)) : Config :=
  (pairs.map (·.1)).eraseDups.map fun key => (key, .string (joinedUnder pairs key))

theorem joinedUnder_concat_of_ne {key k : Text} (h : k ≠ key) (pairs : List (Text × Text))
    (value : Text) : joinedUnder (pairs ++ [(key, value)]) k = joinedUnder pairs k := by
  simp [joinedUnder, Ne.symm h]

theorem joinedUnder_concat_of_mem {pairs : List (Text × Text)} {key : Text}
    (h : key ∈ pairs.map (·.1)) (value : Text) :
    joinedUnder (pairs ++ [(key, value)]) key = joinedUnder pairs key ++ " " ++ value := by
  obtain ⟨pair, hpair, hkey⟩ := List.mem_map.mp h
  have hne : (pairs.filter (·.1 = key)).map (·.2) ≠ [] := by
    intro hnil
    rw [List.map_eq_nil_iff, List.filter_eq_nil_iff] at hnil
    exact hnil pair hpair (decide_eq_true hkey)
  rw [joinedUnder, List.filter_append, List.map_append]
  simpa [joinedUnder] using @Text.joinWith_concat ' ' _ hne value

theorem joinedUnder_concat_of_not_mem {pairs : List (Text × Text)} {key : Text}
    (h : key ∉ pairs.map (·.1)) (value : Text) :
    joinedUnder (pairs ++ [(key, value)]) key = value := by
  have hnil : pairs.filter (·.1 = key) = [] := by
    rw [List.filter_eq_nil_iff]
    intro pair hpair hkey
    exact h (List.mem_map.mpr ⟨pair, hpair, of_decide_eq_true hkey⟩)
  simp [joinedUnder, hnil]

theorem joinedUnder_concat {pairs : List (Text × Text)} {key value : Text} (k : Text) :
    Value.string (joinedUnder (pairs ++ [(key, value)]) k) =
      if k = key then
        (if key ∈ pairs.map (·.1) then .string (joinedUnder pairs key ++ " " ++ value)
          else .string value)
      else .string (joinedUnder pairs k) := by
  by_cases hk : k = key
  · subst hk
    rw [if_pos rfl]
    by_cases hmem : k ∈ pairs.map (·.1)
    · rw [if_pos hmem, joinedUnder_concat_of_mem hmem]
    · rw [if_neg hmem, joinedUnder_concat_of_not_mem hmem]
  · rw [if_neg hk, joinedUnder_concat_of_ne hk]

/-- A value joins those of its key, or comes last with a key of its own. -/
theorem append_grouped (pairs : List (Text × Text)) (key value : Text) :
    append (grouped pairs) key value = grouped (pairs ++ [(key, value)]) := by
  let keys := (pairs.map (·.1)).eraseDups
  let joined := fun key => Value.string (joinedUnder pairs key)
  have hget : Entries.get? key (grouped pairs) = if key ∈ keys then some (joined key) else none :=
    Entries.get?_map_keys keys joined key
  have hinsert : ∀ v, Entries.insert key v (grouped pairs) =
      (if key ∈ keys then keys else keys ++ [key]).map
        fun k => (k, if k = key then v else joined k) :=
    Entries.insert_map_keys (Entries.nodup_eraseDups _) joined key
  have hkeys : ((pairs ++ [(key, value)]).map (·.1)).eraseDups =
      if key ∈ keys then keys else keys ++ [key] := by
    rw [List.map_append]
    exact Entries.eraseDups_concat (pairs.map (·.1)) key
  have hmem : key ∈ pairs.map (·.1) ↔ key ∈ keys := List.mem_eraseDups.symm
  have happend : append (grouped pairs) key value = Entries.insert key
      (if key ∈ keys then .string (joinedUnder pairs key ++ " " ++ value) else .string value)
      (grouped pairs) := by
    rw [append, hget]
    by_cases h : key ∈ keys
    · rw [if_pos h, if_pos h]
    · rw [if_neg h, if_neg h]
  rw [happend, hinsert, grouped, hkeys]
  simp only [joinedUnder_concat, hmem, joined]

end KeyLine

end StaticSite
