import Mathlib.Data.List.Induction
import Mathlib.Data.List.Nodup
import StaticSite.Config.Entries

/-! Maps that are made of pairs. A key has the place of its first pair and the
value of its last one, so the pairs are kept if and only if no key repeats. -/

namespace StaticSite.Entries

variable {α : Type}

theorem get?_map_keys (keys : List Text) (value : Text → α) (key : Text) :
    get? key (keys.map fun k => (k, value k)) = if key ∈ keys then some (value key) else none := by
  induction keys with
  | nil => rfl
  | cons k keys ih =>
    rw [List.map_cons, get?, ih]
    by_cases h : k = key
    · simp [h]
    · simp [h, Ne.symm h]

theorem insert_map_keys {keys : List Text} (hnodup : keys.Nodup) (value : Text → α) (key : Text)
    (v : α) :
    insert key v (keys.map fun k => (k, value k)) =
      (if key ∈ keys then keys else keys ++ [key]).map
        fun k => (k, if k = key then v else value k) := by
  induction keys with
  | nil => simp [insert]
  | cons k keys ih =>
    rw [List.nodup_cons] at hnodup
    rw [List.map_cons, insert]
    by_cases h : k = key
    · subst h
      have hother : ∀ k' ∈ keys, (k', value k') = (k', if k' = k then v else value k') := by
        intro k' hk'
        rw [if_neg fun he : k' = k => hnodup.1 (he ▸ hk')]
      simpa using hother
    · rw [if_neg h, ih hnodup.2]
      by_cases hmem : key ∈ keys
      · simp [hmem, h]
      · simp [hmem, h, Ne.symm h]

theorem eraseDups_concat (keys : List Text) (key : Text) :
    (keys ++ [key]).eraseDups =
      if key ∈ keys.eraseDups then keys.eraseDups else keys.eraseDups ++ [key] := by
  rw [List.eraseDups_append, List.removeAll]
  by_cases h : key ∈ keys
  · simp [h]
  · simp [h, List.eraseDups_cons]

theorem nodup_eraseDups (keys : List Text) : keys.eraseDups.Nodup := by
  induction keys using List.reverseRecOn with
  | nil => exact List.nodup_nil
  | append_singleton keys key ih =>
    rw [eraseDups_concat]
    by_cases h : key ∈ keys.eraseDups
    · rwa [if_pos h]
    · rw [if_neg h]
      exact List.nodup_append'.mpr ⟨ih, List.nodup_singleton _, by simpa using h⟩

@[simp] theorem keys_cons (e : Text × α) (es : Entries α) : keys (e :: es) = e.1 :: es.keys := rfl

theorem keys_insert (key : Text) (value : α) (es : Entries α) :
    (insert key value es).keys = if key ∈ es.keys then es.keys else es.keys ++ [key] := by
  induction es with
  | nil => rfl
  | cons e es ih =>
    obtain ⟨k, v⟩ := e
    rw [insert]
    by_cases h : k = key
    · simp [h]
    · rw [if_neg h, keys_cons, ih, keys_cons]
      by_cases hmem : key ∈ keys es
      · simp [hmem]
      · simp [hmem, Ne.symm h]

theorem insert_of_not_mem {key : Text} {es : Entries α} (h : key ∉ es.keys) (value : α) :
    insert key value es = es ++ [(key, value)] := by
  induction es with
  | nil => rfl
  | cons e es ih =>
    obtain ⟨k, v⟩ := e
    rw [keys_cons, List.mem_cons, not_or] at h
    rw [insert, if_neg (Ne.symm h.1), ih h.2, List.cons_append]

theorem ofPairs_concat (pairs : List (Text × α)) (key : Text) (value : α) :
    ofPairs (pairs ++ [(key, value)]) = insert key value (ofPairs pairs) := by
  rw [ofPairs, List.foldl_concat, ofPairs]

theorem keys_ofPairs (pairs : List (Text × α)) :
    (ofPairs pairs).keys = (pairs.map (·.1)).eraseDups := by
  induction pairs using List.reverseRecOn with
  | nil => rfl
  | append_singleton pairs pair ih =>
    rw [ofPairs_concat, keys_insert, ih, List.map_append]
    exact (eraseDups_concat (pairs.map (·.1)) pair.1).symm

theorem get?_ofPairs_append (before : List (Text × α)) {key : Text} (value : α)
    {after : List (Text × α)} (h : key ∉ after.map (·.1)) :
    get? key (ofPairs (before ++ (key, value) :: after)) = some value := by
  induction after using List.reverseRecOn with
  | nil => rw [ofPairs_concat, get?_insert, if_pos rfl]
  | append_singleton after pair ih =>
    rw [List.map_append, List.mem_append, not_or] at h
    have hne : pair.1 ≠ key := fun he => h.2 (by simp [he])
    rw [← List.cons_append, ← List.append_assoc, ofPairs_concat, get?_insert, if_neg hne, ih h.1]

theorem ofPairs_eq_self_iff {pairs : List (Text × α)} :
    ofPairs pairs = pairs ↔ (pairs.map (·.1)).Nodup := by
  constructor
  · intro h
    have hkeys : pairs.map (·.1) = (pairs.map (·.1)).eraseDups :=
      (congrArg keys h).symm.trans (keys_ofPairs pairs)
    rw [hkeys]
    exact nodup_eraseDups (pairs.map (·.1))
  · intro h
    induction pairs using List.reverseRecOn with
    | nil => rfl
    | append_singleton pairs pair ih =>
      rw [List.map_append, List.nodup_append'] at h
      have hkey : pair.1 ∉ keys pairs := fun hmem => h.2.2 hmem (by simp)
      rw [ofPairs_concat, ih h.1, insert_of_not_mem hkey]

end StaticSite.Entries
